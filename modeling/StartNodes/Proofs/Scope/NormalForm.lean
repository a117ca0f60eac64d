import StartNodes.Proofs.List.Lookup
import StartNodes.Proofs.Scope.ClosedForm

/-!
Combined start nodes are a normal form. No two of them are the same and none lies under another, and start nodes of
which that is so come out of a combination as they went in, whoever declares them. Something is left if anything
counts, since of finitely many nodes one lies under no other and under one no other lies.
-/

namespace StartNodes.Scope

/-! ### Paths that agree on what is declared -/

section Congr

variable {ι : Type} [BEq ι] [LawfulBEq ι] {path? path?' : ι → Option String}
  {ids groupIds userIds : List ι}

theorem prevailing_congr (bin : String) {yields yields' : ι → ι → Bool} (hpath : ∀ id ∈ ids, path? id = path?' id)
    (hyields : ∀ a ∈ ids, ∀ b ∈ ids, yields a b = yields' a b) :
    prevailing path? bin yields ids = prevailing path?' bin yields' ids := by
  refine List.filter_congr fun id hid => ?_
  have hsame := mem_prevailing_congr bin (fun _ => Iff.rfl) hpath hyields id
  rw [mem_prevailing, mem_prevailing] at hsame
  exact decide_eq_decide.mpr (and_congr_right_iff.mp hsame (List.mem_eraseDups.mp hid))

/-- Only the paths of declared nodes matter to what comes out. -/
theorem combined_congr (kind : Hierarchy) (hpath : ∀ id ∈ groupIds ++ userIds, path? id = path?' id) :
    combined kind path? groupIds userIds = combined kind path?' groupIds userIds := by
  have hgroup : ∀ id ∈ groupIds, path? id = path?' id := fun id hid => hpath id (List.mem_append_left _ hid)
  have huser : ∀ id ∈ userIds, path? id = path?' id := fun id hid => hpath id (List.mem_append_right _ hid)
  have hunder : ∀ {a b}, path? a = path?' a → path? b = path?' b → liesUnder path? a b = liesUnder path?' a b := by
    intro a b ha hb
    rw [liesUnder, liesUnder, ha, hb]
  have htop := prevailing_congr (Path.bin kind) hgroup fun a ha b hb => hunder (hgroup a ha) (hgroup b hb)
  have hown := prevailing_congr (Path.bin kind) huser fun a ha b hb => hunder (huser b hb) (huser a ha)
  rw [combined, combined, htop, hown]
  congr 1
  refine List.filter_congr fun g hg => decide_eq_decide.mpr (and_congr_right fun _ => forall₂_congr fun u hu => ?_)
  have hg := hgroup g (mem_prevailing.mp hg).1
  have hu := huser u (mem_prevailing.mp hu).1
  rw [hunder hg hu, hunder hu hg]

end Congr

/-! ### Normal forms -/

section Normal

variable {ι : Type} {path? : ι → Option String} {bin : String} {ids groupIds userIds : List ι} {a b c : ι}

theorem liesUnder_irrefl (path? : ι → Option String) (a : ι) : ¬ liesUnder path? a a := by
  cases hpath : path? a <;> simp [liesUnder, hpath, Path.isUnder_irrefl]

theorem liesUnder_trans (hab : liesUnder path? a b) (hbc : liesUnder path? b c) : liesUnder path? a c := by
  obtain ⟨pa, ha, hab⟩ := (Option.any_eq_true _ _).mp hab
  obtain ⟨pb, hb, hab⟩ := (Option.any_eq_true _ _).mp hab
  obtain ⟨pb', hb', hbc⟩ := (Option.any_eq_true _ _).mp hbc
  obtain ⟨pc, hc, hbc⟩ := (Option.any_eq_true _ _).mp hbc
  cases hb.symm.trans hb'
  simp [liesUnder, ha, hc, Path.isUnder_trans hab hbc]

/-- Distinct nodes that all count, and none of which lies under another. -/
structure IsNormal (path? : ι → Option String) (bin : String) (ids : List ι) : Prop where
  nodup : ids.Nodup
  valid : ∀ id ∈ ids, isValid path? bin id
  apart : ∀ a ∈ ids, ∀ b ∈ ids, ¬ liesUnder path? a b

variable [BEq ι] [LawfulBEq ι]

theorem mem_combined {kind : Hierarchy} {id : ι} :
    id ∈ combined kind path? groupIds userIds ↔
      id ∈ prevailing path? (Path.bin kind) (fun u other => liesUnder path? other u) userIds ∨
        id ∈ prevailing path? (Path.bin kind) (fun g other => liesUnder path? g other) groupIds ∧
          id ∉ prevailing path? (Path.bin kind) (fun u other => liesUnder path? other u) userIds ∧
            ∀ u ∈ prevailing path? (Path.bin kind) (fun u other => liesUnder path? other u) userIds,
              ¬ liesUnder path? id u ∧ ¬ liesUnder path? u id := by
  rw [combined, List.mem_append, List.mem_filter, decide_eq_true_eq, or_comm]

theorem mem_of_mem_combined {kind : Hierarchy} {id : ι} (h : id ∈ combined kind path? groupIds userIds) :
    id ∈ groupIds ++ userIds ∧ isValid path? (Path.bin kind) id := by
  rcases mem_combined.mp h with hown | ⟨htop, -⟩
  · exact ⟨List.mem_append_right _ (mem_prevailing.mp hown).1, (mem_prevailing.mp hown).2.1⟩
  · exact ⟨List.mem_append_left _ (mem_prevailing.mp htop).1, (mem_prevailing.mp htop).2.1⟩

theorem isNormal_combined (kind : Hierarchy) (path? : ι → Option String) (groupIds userIds : List ι) :
    IsNormal path? (Path.bin kind) (combined kind path? groupIds userIds) where
  nodup := nodup_combined kind path? groupIds userIds
  valid _ hid := (mem_of_mem_combined hid).2
  apart a ha b hb := by
    -- two nodes of the same source have been compared by its reduction, two of different sources by the merge
    rcases mem_combined.mp ha with hown_a | ⟨htop_a, -, hapart_a⟩
    · rcases mem_combined.mp hb with hown_b | ⟨-, -, hapart_b⟩
      · exact (mem_prevailing.mp hown_b).2.2 a (mem_prevailing.mp hown_a).1 (mem_prevailing.mp hown_a).2.1
      · exact (hapart_b a hown_a).2
    · rcases mem_combined.mp hb with hown_b | ⟨htop_b, -⟩
      · exact (hapart_a b hown_b).1
      · exact (mem_prevailing.mp htop_a).2.2 b (mem_prevailing.mp htop_b).1 (mem_prevailing.mp htop_b).2.1

/-- Something is left of what counts. -/
theorem exists_mem_prevailing (yields : ι → ι → Bool) (htrans : ∀ {a b c}, yields a b → yields b c → yields a c)
    (hirrefl : ∀ a, ¬ yields a a) (h : ∃ id ∈ ids, isValid path? bin id) :
    ∃ id, id ∈ prevailing path? bin yields ids := by
  obtain ⟨m, hm, hvalid, hlast⟩ := exists_mem_forall_not (r := fun a b => yields a b) htrans hirrefl h
  exact ⟨m, mem_prevailing.mpr ⟨hm, hvalid, hlast⟩⟩

theorem combined_eq_nil_iff {kind : Hierarchy} :
    combined kind path? groupIds userIds = [] ↔ ∀ id ∈ groupIds ++ userIds, ¬ isValid path? (Path.bin kind) id := by
  constructor
  · intro hnil id hid hvalid
    have hnone : ∀ x, x ∉ combined kind path? groupIds userIds := by
      rw [hnil]
      exact fun x => List.not_mem_nil
    have hown : ∀ u, u ∉ prevailing path? (Path.bin kind) (fun u other => liesUnder path? other u) userIds :=
      fun u hu => hnone u (mem_combined.mpr (.inl hu))
    rcases List.mem_append.mp hid with hgroup | huser
    · obtain ⟨m, hm⟩ := exists_mem_prevailing (liesUnder path?) liesUnder_trans (liesUnder_irrefl path?)
        ⟨id, hgroup, hvalid⟩
      exact hnone m (mem_combined.mpr (.inr ⟨hm, hown m, fun u hu => absurd hu (hown u)⟩))
    · obtain ⟨m, hm⟩ := exists_mem_prevailing (fun u other => liesUnder path? other u)
        (fun hab hbc => liesUnder_trans hbc hab) (liesUnder_irrefl path?) ⟨id, huser, hvalid⟩
      exact hown m hm
  · intro hnone
    rw [List.eq_nil_iff_forall_not_mem]
    intro id hid
    obtain ⟨hdeclared, hvalid⟩ := mem_of_mem_combined hid
    exact hnone id hdeclared hvalid

namespace IsNormal

theorem prevailing_eq (h : IsNormal path? bin ids) {yields : ι → ι → Bool}
    (hyields : ∀ a ∈ ids, ∀ b ∈ ids, ¬ yields a b) : prevailing path? bin yields ids = ids := by
  rw [prevailing, eraseDups_of_nodup h.nodup, List.filter_eq_self]
  exact fun id hid => decide_eq_true ⟨h.valid id hid, fun other hother _ => hyields id hid other hother⟩

theorem topmost_eq (h : IsNormal path? bin ids) :
    prevailing path? bin (fun g other => liesUnder path? g other) ids = ids :=
  h.prevailing_eq h.apart

theorem deepest_eq (h : IsNormal path? bin ids) :
    prevailing path? bin (fun u other => liesUnder path? other u) ids = ids :=
  h.prevailing_eq fun a ha b hb => h.apart b hb a ha

variable {kind : Hierarchy}

theorem combined_groups (h : IsNormal path? (Path.bin kind) ids) : combined kind path? ids [] = ids := by
  have hnone : prevailing path? (Path.bin kind) (fun u other => liesUnder path? other u) [] = [] := rfl
  rw [combined, h.topmost_eq, hnone, List.append_nil, List.filter_eq_self]
  simp

theorem combined_own (h : IsNormal path? (Path.bin kind) ids) : combined kind path? [] ids = ids := by
  have hnone : prevailing path? (Path.bin kind) (fun g other => liesUnder path? g other) [] = [] := rfl
  rw [combined, h.deepest_eq, hnone, List.filter_nil, List.nil_append]

/-- Each node of the groups goes for itself as the principal's own. -/
theorem combined_both (h : IsNormal path? (Path.bin kind) ids) : combined kind path? ids ids = ids := by
  have hgone : (ids.filter fun g => g ∉ ids ∧ ∀ u ∈ ids, ¬ liesUnder path? g u ∧ ¬ liesUnder path? u g) = [] := by
    rw [List.filter_eq_nil_iff]
    exact fun g hg hstays => (of_decide_eq_true hstays).1 hg
  rw [combined, h.topmost_eq, h.deepest_eq, hgone, List.nil_append]

end IsNormal

end Normal

/-! ### Directories that answer from a fixed table -/

/-- Whatever is asked, the answer has the rows of the table for what is asked; it may have others. -/
def AnswersFrom (paths : List NodeId → Except LookupError (PathTable NodeId)) (table : NodeId → Option String) : Prop :=
  ∀ ids, ∃ found, paths ids = .ok found ∧ ∀ id ∈ ids, found.lookup id = table id

/-- The path by which a node is compared with others; the root has its own, whatever the table says. -/
def pathIn (table : NodeId → Option String) (id : NodeId) : Option String :=
  if id == rootId then some Path.root else table id

theorem combineFrom_of_answersFrom {paths : List NodeId → Except LookupError (PathTable NodeId)}
    {table : NodeId → Option String} (h : AnswersFrom paths table) (kind : Hierarchy) (groupIds userIds : List NodeId) :
    combineFrom rootId paths kind groupIds userIds = .ok (combined kind (pathIn table) groupIds userIds) := by
  obtain ⟨found, hfound, hrows⟩ := h (groupIds ++ userIds).eraseDups
  rw [combineFrom_of_paths hfound kind]
  refine congrArg _ (combined_congr kind fun id hid => ?_)
  rw [PathTable.pathFrom?, pathIn, hrows id (List.mem_eraseDups.mpr hid)]

theorem ofId_beq_iff (id : NodeId) (item : Item) : (Item.ofId id == item) = true ↔ item.node? = some id := by
  show Item.same (Item.ofId id) item = true ↔ _
  rw [Item.same, Item.node?_ofId]
  cases item.node? with
  | none => exact ⟨nofun, nofun⟩
  | some m => exact beq_iff_eq.trans ⟨fun h => congrArg some h.symm, fun h => (Option.some.inj h).symm⟩

/-- A row is about its node in whatever way it spells it. -/
theorem lookup_idRows (rows : PathTable Item) (id : NodeId) :
    (PathSource.idRows rows).lookup id = rows.lookup (Item.ofId id) := by
  induction rows with
  | nil => rfl
  | cons row rows ih =>
      rw [PathSource.idRows] at ih ⊢
      rw [List.filterMap_cons, List.lookup_cons, ← ih]
      have hbeq := ofId_beq_iff id row.1
      cases hnode : row.1.node? with
      | none =>
          have hne : (Item.ofId id == row.1) = false := by
            rw [Bool.eq_false_iff, Ne, hbeq, hnode]
            exact nofun
          rw [hne]
          rfl
      | some m =>
          have heq : (Item.ofId id == row.1) = (id == m) := by
            rw [Bool.eq_iff_iff, hbeq, hnode, Option.some_inj, beq_iff_eq, eq_comm]
          rw [heq]
          rfl

/-- The rows that a fixed table gives for nodes. -/
theorem idRows_filterMap (rows : PathTable Item) (ids : List NodeId) :
    PathSource.idRows ((ids.map Item.ofId).eraseDups.filterMap fun item => (rows.lookup item).map fun path => (item, path)) =
      ids.eraseDups.filterMap fun id => (rows.lookup (Item.ofId id)).map fun path => (id, path) := by
  rw [eraseDups_map Item.ofId_beq_ofId, List.filterMap_map, PathSource.idRows, List.filterMap_filterMap]
  refine List.filterMap_congr fun id _ => ?_
  rw [Function.comp]
  cases rows.lookup (Item.ofId id) <;> rfl

theorem fixedPaths_of_isKey (rows : PathTable Item) {items : List Item} (h : items.all Item.isKey = true) :
    FixedTable.paths { rows } items =
      .ok (items.eraseDups.filterMap fun item => (rows.lookup item).map fun path => (item, path)) := by
  show (if !items.all Item.isKey then Except.error LookupError.noKey else Except.ok _) = _
  rw [h]
  rfl

/-- A fixed table that is in order answers from its rows. -/
theorem answersFrom_fixed (rows : PathTable Item) (answersAll : Bool) (kind : Hierarchy) :
    AnswersFrom ((PathSource.fixed { rows, answersAll }).paths kind) fun id => rows.lookup (Item.ofId id) := by
  intro ids
  cases answersAll with
  | true => exact ⟨PathSource.idRows rows, rfl, fun id _ => lookup_idRows rows id⟩
  | false =>
      have hkeys : (ids.map Item.ofId).all Item.isKey = true := by
        rw [List.all_map, List.all_eq_true]
        exact fun id _ => rfl
      have hpaths : (PathSource.fixed { rows }).paths kind ids =
          (FixedTable.paths { rows } (ids.map Item.ofId)).map PathSource.idRows := rfl
      refine ⟨_, ?_, fun id hid => lookup_filterMap _ (.inl (List.mem_eraseDups.mpr hid))⟩
      rw [hpaths, fixedPaths_of_isKey rows hkeys, ← idRows_filterMap]
      rfl

/-- Combined start nodes are a normal form. With paths from any fixed table, no node comes out twice and none lies under
another; nothing comes out exactly if no declared node counts, that is, has a path, or is the root, and does not lie
under the recycle bin; and what has come out comes out again, in the same order, when it is declared by groups, as a
principal's own or as both. -/
theorem combination_is_normal_form {paths : List NodeId → Except LookupError (PathTable NodeId)}
    {table : NodeId → Option String} (h : AnswersFrom paths table) (kind : Hierarchy) (groupIds userIds : List NodeId) :
    ∃ starts, combineFrom rootId paths kind groupIds userIds = .ok starts ∧
      starts.Nodup ∧
      (∀ a ∈ starts, ∀ b ∈ starts, ¬ liesUnder (pathIn table) a b) ∧
      (starts = [] ↔ ∀ id ∈ groupIds ++ userIds, ¬ isValid (pathIn table) (Path.bin kind) id) ∧
      combineFrom rootId paths kind starts [] = .ok starts ∧
      combineFrom rootId paths kind [] starts = .ok starts ∧
      combineFrom rootId paths kind starts starts = .ok starts := by
  have hnormal := isNormal_combined kind (pathIn table) groupIds userIds
  refine ⟨_, combineFrom_of_answersFrom h kind groupIds userIds, hnormal.nodup, hnormal.apart, combined_eq_nil_iff,
    ?_, ?_, ?_⟩
  · rw [combineFrom_of_answersFrom h, hnormal.combined_groups]
  · rw [combineFrom_of_answersFrom h, hnormal.combined_own]
  · rw [combineFrom_of_answersFrom h, hnormal.combined_both]

/-- A table of texts that are no paths of any tree, as the empty text and delimiters in a row. -/
theorem combination_is_normal_form_odd :
    let rows : PathTable Item :=
      [(.ofId 5, ""), (.ofId 6, ",,"), (.ofId 7, ",,,1"), (.ofId 8, "-1,-20,8"), (.ofId 9, "-1,-20")]
    let paths := (PathSource.fixed { rows }).paths .content
    AnswersFrom paths (fun id => rows.lookup (.ofId id)) ∧
      combineFrom rootId paths .content [7, 6, 9] [8, 5] = .ok [9, 5] ∧
      combineFrom rootId paths .content [9, 5] [9, 5] = .ok [9, 5] := by
  intro rows paths
  have hanswers : AnswersFrom paths fun id => rows.lookup (.ofId id) := answersFrom_fixed rows false .content
  obtain ⟨starts, hstarts, -, -, -, -, -, hboth⟩ := combination_is_normal_form hanswers .content [7, 6, 9] [8, 5]
  have hfive : combineFrom rootId paths .content [7, 6, 9] [8, 5] = .ok [9, 5] := by decide +kernel
  cases hfive.symm.trans hstarts
  exact ⟨hanswers, hfive, hboth⟩

end StartNodes.Scope
