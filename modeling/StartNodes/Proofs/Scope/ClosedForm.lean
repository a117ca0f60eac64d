import StartNodes.Proofs.Scope.Combine
import StartNodes.Scope.Lookup

/-!
The combination of start nodes in closed form. Three loops take nodes up and drop them as they come; what they come to
can be said of all declared nodes at once: of the groups' nodes those that lie under no other, of the principal's own
those under which no other lies, and of the former only those that touch none of the latter. So nothing but the order
of the result depends on the order and the number of mentions.
-/

namespace StartNodes.Scope

variable {ι : Type} {path? path?' : ι → Option String} {bin : String} {ids ids' groupIds userIds : List ι}

/-! ### Nodes by their names -/

/-- Whether a node counts: it has a path, which does not lie under that of the recycle bin. -/
def isValid (path? : ι → Option String) (bin : String) (id : ι) : Bool :=
  (path? id).any fun path => !Path.isUnder path bin

/-- Whether the path of a node lies under that of another; both have to have one. -/
def liesUnder (path? : ι → Option String) (a b : ι) : Bool :=
  (path? a).any fun path => (path? b).any fun above => Path.isUnder path above

/-- A node with its path, if it has one. -/
def placed (path? : ι → Option String) (id : ι) : Placed ι :=
  ⟨id, (path? id).getD ""⟩

theorem isUnder_placed {a b : ι} (ha : isValid path? bin a = true) (hb : isValid path? bin b = true) :
    (placed path? a).isUnder (placed path? b) = liesUnder path? a b := by
  obtain ⟨pa, hpa, -⟩ := (Option.any_eq_true _ _).mp ha
  obtain ⟨pb, hpb, -⟩ := (Option.any_eq_true _ _).mp hb
  simp [placed, liesUnder, Placed.isUnder, hpa, hpb]

variable [BEq ι]

theorem valid_eq_map (path? : ι → Option String) (bin : String) (ids : List ι) :
    valid path? bin ids = (ids.eraseDups.filter (isValid path? bin)).map (placed path?) := by
  rw [valid, ← List.filterMap_eq_map, List.filterMap_filter]
  refine List.filterMap_congr fun id _ => ?_
  cases hpath : path? id with
  | none => simp [isValid, hpath]
  | some path => cases hbin : Path.isUnder path bin <;> simp [isValid, placed, hpath, hbin]

/-- The first mentions of the nodes that count and yield to no other that counts. -/
def prevailing (path? : ι → Option String) (bin : String) (yields : ι → ι → Bool) (ids : List ι) : List ι :=
  ids.eraseDups.filter fun id =>
    isValid path? bin id ∧ ∀ other ∈ ids, isValid path? bin other → ¬ yields id other

variable [LawfulBEq ι]

theorem mem_prevailing {yields : ι → ι → Bool} {id : ι} :
    id ∈ prevailing path? bin yields ids ↔
      id ∈ ids ∧ isValid path? bin id ∧ ∀ other ∈ ids, isValid path? bin other → ¬ yields id other := by
  rw [prevailing, List.mem_filter, List.mem_eraseDups, decide_eq_true_eq]

/-- A reduction of valid nodes, by their names. -/
theorem filter_valid_eq_map {test : Placed ι → Placed ι → Bool} {yields : ι → ι → Bool}
    (h : ∀ a b, isValid path? bin a = true → isValid path? bin b = true →
      test (placed path? a) (placed path? b) = yields a b) :
    ((valid path? bin ids).filter fun x => !(valid path? bin ids).any fun y => test x y) =
      (prevailing path? bin yields ids).map (placed path?) := by
  rw [valid_eq_map, List.filter_map, List.filter_filter, prevailing]
  refine congrArg _ (List.filter_congr fun id _ => ?_)
  rw [Bool.eq_iff_iff, decide_eq_true_eq, Bool.and_eq_true, and_comm]
  refine and_congr_right fun hid => ?_
  simp only [Function.comp, Bool.not_eq_true', List.any_eq_false, List.mem_map, List.mem_filter, List.mem_eraseDups]
  constructor
  · intro hall other hother hvalid
    rw [← h id other hid hvalid]
    exact hall _ ⟨other, ⟨hother, hvalid⟩, rfl⟩
  · rintro hall _ ⟨other, ⟨hother, hvalid⟩, rfl⟩
    rw [h id other hid hvalid]
    exact hall other hother hvalid

/-! ### The combination -/

theorem stays_placed_iff {a b : ι} (ha : isValid path? bin a = true) (hb : isValid path? bin b = true) :
    (placed path? a).stays (placed path? b) = true ↔ a ≠ b ∧ ¬ liesUnder path? a b ∧ ¬ liesUnder path? b a := by
  rw [Placed.stays_iff, Placed.Apart, isUnder_placed ha hb, isUnder_placed hb ha, Bool.not_eq_true, Bool.not_eq_true]
  rfl

/-- The combined start nodes, of all declared nodes at once. -/
def combined (kind : Hierarchy) (path? : ι → Option String) (groupIds userIds : List ι) : List ι :=
  let top := prevailing path? (Path.bin kind) (fun g other => liesUnder path? g other) groupIds
  let own := prevailing path? (Path.bin kind) (fun u other => liesUnder path? other u) userIds
  (top.filter fun g => g ∉ own ∧ ∀ u ∈ own, ¬ liesUnder path? g u ∧ ¬ liesUnder path? u g) ++ own

theorem combine_eq_combined (kind : Hierarchy) (path? : ι → Option String) (groupIds userIds : List ι) :
    combine kind path? groupIds userIds = combined kind path? groupIds userIds := by
  have htop : topmost (valid path? (Path.bin kind) groupIds) =
      (prevailing path? (Path.bin kind) (fun g other => liesUnder path? g other) groupIds).map (placed path?) := by
    rw [topmost_eq_filter]
    exact filter_valid_eq_map fun _ _ => isUnder_placed
  have hown : deepest (valid path? (Path.bin kind) userIds) =
      (prevailing path? (Path.bin kind) (fun u other => liesUnder path? other u) userIds).map (placed path?) := by
    rw [deepest_eq_filter]
    exact filter_valid_eq_map fun _ _ ha hb => isUnder_placed hb ha
  have hnames : ∀ l : List ι, (l.map (placed path?)).map Placed.id = l := by
    intro l
    rw [List.map_map]
    exact List.map_id' l
  rw [combine, foldl_replace_eq_filter (pairwise_apart_deepest path? _ userIds), htop, hown, List.filter_map,
    List.map_append, hnames, hnames, combined]
  congr 1
  refine List.filter_congr fun g hg => ?_
  rw [Bool.eq_iff_iff, decide_eq_true_eq, Function.comp, List.all_eq_true]
  rw [List.forall_mem_map]
  have hg := (mem_prevailing.mp hg).2.1
  constructor
  · intro hall
    refine ⟨fun hmem => ((stays_placed_iff hg hg).mp (hall g hmem)).1 rfl, fun u hu => ?_⟩
    exact ((stays_placed_iff hg (mem_prevailing.mp hu).2.1).mp (hall u hu)).2
  · rintro ⟨hmem, hall⟩ u hu
    refine (stays_placed_iff hg (mem_prevailing.mp hu).2.1).mpr ⟨?_, hall u hu⟩
    rintro rfl
    exact hmem hu

theorem nodup_prevailing (path? : ι → Option String) (bin : String) (yields : ι → ι → Bool) (ids : List ι) :
    (prevailing path? bin yields ids).Nodup :=
  (nodup_eraseDups ids).filter _

/-- No start node comes out twice. -/
theorem nodup_combined (kind : Hierarchy) (path? : ι → Option String) (groupIds userIds : List ι) :
    (combined kind path? groupIds userIds).Nodup := by
  refine List.Nodup.append ((nodup_prevailing path? _ _ groupIds).filter _) (nodup_prevailing path? _ _ userIds) ?_
  intro id htop hown
  exact (of_decide_eq_true (List.mem_filter.mp htop).2).1 hown

/-! ### Declarations in any order -/

/-- Which nodes prevail does not depend on the order and the number of mentions. -/
theorem mem_prevailing_congr (bin : String) {yields yields' : ι → ι → Bool} (hids : ∀ id, id ∈ ids ↔ id ∈ ids')
    (hpath : ∀ id ∈ ids, path? id = path?' id) (hyields : ∀ a ∈ ids, ∀ b ∈ ids, yields a b = yields' a b) (id : ι) :
    id ∈ prevailing path? bin yields ids ↔ id ∈ prevailing path?' bin yields' ids' := by
  have hvalid : ∀ id ∈ ids, isValid path? bin id = isValid path?' bin id := fun id hid => by
    rw [isValid, isValid, hpath id hid]
  rw [mem_prevailing, mem_prevailing, ← hids]
  refine and_congr_right fun hid => ?_
  rw [hvalid id hid]
  refine and_congr_right fun _ => forall_congr' fun other => ?_
  rw [← hids]
  refine forall_congr' fun hother => ?_
  rw [hvalid other hother, hyields id hid other hother]

/-- Nor does the set of the combined start nodes. -/
theorem mem_combined_congr {groupIds' userIds' : List ι} (hgroups : ∀ id, id ∈ groupIds ↔ id ∈ groupIds')
    (hown : ∀ id, id ∈ userIds ↔ id ∈ userIds') (hpath : ∀ id ∈ groupIds ++ userIds, path? id = path?' id)
    (kind : Hierarchy) (id : ι) :
    id ∈ combined kind path? groupIds userIds ↔ id ∈ combined kind path?' groupIds' userIds' := by
  have hgroup : ∀ id ∈ groupIds, path? id = path?' id := fun id hid => hpath id (List.mem_append_left _ hid)
  have huser : ∀ id ∈ userIds, path? id = path?' id := fun id hid => hpath id (List.mem_append_right _ hid)
  have hunder : ∀ {a b}, path? a = path?' a → path? b = path?' b → liesUnder path? a b = liesUnder path?' a b := by
    intro a b ha hb
    rw [liesUnder, liesUnder, ha, hb]
  have htop := mem_prevailing_congr (Path.bin kind) hgroups hgroup fun a ha b hb => hunder (hgroup a ha) (hgroup b hb)
  have hdeep := mem_prevailing_congr (Path.bin kind) hown huser fun a ha b hb => hunder (huser b hb) (huser a ha)
  rw [combined, combined]
  simp only [List.mem_append, List.mem_filter, decide_eq_true_eq]
  refine or_congr ?_ (hdeep id)
  rw [htop id, hdeep id]
  refine and_congr_right fun htop' => and_congr_right fun _ => forall_congr' fun u => ?_
  rw [hdeep u]
  refine forall_congr' fun hu => ?_
  have hg := hgroup id ((mem_prevailing.mp ((htop id).mpr htop')).1)
  have hu := huser u ((mem_prevailing.mp ((hdeep u).mpr hu)).1)
  rw [hunder hg hu, hunder hu hg]

/-! ### What is asked -/

theorem eraseDups_eq_nil {l : List ι} : l.eraseDups = [] ↔ l = [] := by
  rw [List.eq_nil_iff_forall_not_mem, List.eq_nil_iff_forall_not_mem]
  simp only [List.mem_eraseDups]

/-- One question is asked, about all declared nodes, unless there are none. -/
theorem questions_eq (groupIds userIds : List ι) :
    questions groupIds userIds =
      if groupIds = [] ∧ userIds = [] then [] else [(groupIds ++ userIds).eraseDups] := by
  unfold questions declared
  simp only [List.isEmpty_iff, eraseDups_eq_nil, List.append_eq_nil_iff]

theorem combineFrom_eq (root : ι) (paths : List ι → Except LookupError (PathTable ι)) (kind : Hierarchy)
    (groupIds userIds : List ι) :
    combineFrom root paths kind groupIds userIds =
      if groupIds = [] ∧ userIds = [] then .ok []
      else (paths (groupIds ++ userIds).eraseDups).map fun table =>
        combined kind (table.pathFrom? root) groupIds userIds := by
  rw [combineFrom_eq_combine]
  simp only [List.isEmpty_iff, declared, eraseDups_eq_nil, List.append_eq_nil_iff, combine_eq_combined]
  split
  · next hempty =>
    rw [hempty.1, hempty.2]
    rfl
  · rfl

theorem combineFrom_of_paths {root : ι} {paths : List ι → Except LookupError (PathTable ι)} {table : PathTable ι}
    (h : paths (groupIds ++ userIds).eraseDups = .ok table) (kind : Hierarchy) :
    combineFrom root paths kind groupIds userIds = .ok (combined kind (table.pathFrom? root) groupIds userIds) := by
  rw [combineFrom_eq]
  split
  · next hempty =>
    rw [hempty.1, hempty.2]
    rfl
  · rw [h]
    rfl

theorem nodup_combineIds {source : PathSource} {kind : Hierarchy} {groupIds userIds starts : List NodeId}
    (h : combineIds source kind groupIds userIds = .ok starts) : starts.Nodup := by
  obtain ⟨path?, rfl⟩ := exists_eq_combine h
  rw [combine_eq_combined]
  exact nodup_combined kind path? groupIds userIds

/-- The combined start nodes, from whatever paths a source gives. The source is asked once, for the distinct declared
nodes in the order of their first mention, and not at all if none are declared; a failure of the source is all that can
fail. What comes out is said of all declared nodes at once, so as a set it is the same for declarations in another order
and with other repetitions. -/
theorem combination_in_closed_form (kind : Hierarchy) (paths : List NodeId → Except LookupError (PathTable NodeId))
    (groupIds userIds : List NodeId) :
    questions groupIds userIds = (if groupIds = [] ∧ userIds = [] then [] else [(groupIds ++ userIds).eraseDups]) ∧
      combineFrom rootId paths kind groupIds userIds =
        (if groupIds = [] ∧ userIds = [] then .ok []
        else (paths (groupIds ++ userIds).eraseDups).map fun table => combined kind table.path? groupIds userIds) ∧
      ∀ (groupIds' userIds' : List NodeId) (table table' : PathTable NodeId),
        (∀ id, id ∈ groupIds ↔ id ∈ groupIds') → (∀ id, id ∈ userIds ↔ id ∈ userIds') →
        paths (groupIds ++ userIds).eraseDups = .ok table → paths (groupIds' ++ userIds').eraseDups = .ok table' →
        (∀ id ∈ groupIds ++ userIds, table.path? id = table'.path? id) →
          ∃ starts starts', combineFrom rootId paths kind groupIds userIds = .ok starts ∧
            combineFrom rootId paths kind groupIds' userIds' = .ok starts' ∧ ∀ id, id ∈ starts ↔ id ∈ starts' := by
  refine ⟨questions_eq groupIds userIds, combineFrom_eq rootId paths kind groupIds userIds, ?_⟩
  intro groupIds' userIds' table table' hgroups hown htable htable' hpath
  refine ⟨combined kind table.path? groupIds userIds, combined kind table'.path? groupIds' userIds', ?_, ?_,
    mem_combined_congr hgroups hown hpath kind⟩
  · exact combineFrom_of_paths htable kind
  · exact combineFrom_of_paths htable' kind

/-- Of a chain of three nodes, which the groups name in the middle, at the end and at the start, the principal has the end
as its own: it stays, and so does the group's node elsewhere. The same nodes in another order, and named more than once,
come to the same. -/
theorem combination_in_closed_form_chain :
    let paths : List NodeId → Except LookupError (PathTable NodeId) := fun _ =>
      .ok [(1, "-1,1"), (2, "-1,1,2"), (3, "-1,1,2,3"), (4, "-1,4")]
    combineFrom rootId paths .content [2, 3, 1, 4] [3] = .ok [4, 3] ∧
      ∃ starts, combineFrom rootId paths .content [1, 4, 2, 1, 3, 4] [3, 3] = .ok starts ∧
        ∀ id, id ∈ [4, 3] ↔ id ∈ starts := by
  intro paths
  obtain ⟨-, hclosed, hany⟩ := combination_in_closed_form .content paths [2, 3, 1, 4] [3]
  have hgroups : ∀ id : NodeId, id ∈ [2, 3, 1, 4] ↔ id ∈ [1, 4, 2, 1, 3, 4] := fun id => by
    simp only [List.mem_cons, List.not_mem_nil, or_false]
    tauto
  obtain ⟨starts, starts', hstarts, hstarts', hsame⟩ :=
    hany [1, 4, 2, 1, 3, 4] [3, 3] _ _ hgroups (by simp) rfl rfl (fun _ _ => rfl)
  have hfour : combineFrom rootId paths .content [2, 3, 1, 4] [3] = .ok [4, 3] := hclosed.trans (by decide +kernel)
  cases hfour.symm.trans hstarts
  exact ⟨hfour, starts', hstarts', hsame⟩

end StartNodes.Scope
