import StartNodes.Proofs.Scope.Descent

/-!
What one more declared node does to access. A group's node may take the place of others only by lying above them, so
access is lost only where a node of the principal's own lies below the new one and replaces it in turn. A node of the
principal's own may give group nodes back that its other nodes had replaced, but nothing new outside its own subtree.
-/

namespace StartNodes

namespace Graph

variable {g : Graph NodeId} {kind : Hierarchy} {ids more groupIds userIds : List NodeId} {x id n : NodeId}

/-! ### One more node among those that are declared -/

/-- Some declared nodes, and the same with one more, at whatever place. -/
def OneMore (ids : List NodeId) (x : NodeId) (more : List NodeId) : Prop :=
  ∀ id, id ∈ more ↔ id = x ∨ id ∈ ids

theorem oneMore_insert (before after : List NodeId) (x : NodeId) : OneMore (before ++ after) x (before ++ x :: after) :=
  fun _ => List.perm_middle.mem_iff.trans List.mem_cons

theorem Counts.of_less (hmore : OneMore ids x more) (h : g.Counts kind ids id) : g.Counts kind more id :=
  ⟨(hmore id).mpr (.inr h.1), h.2⟩

theorem Counts.of_more (hmore : OneMore ids x more) (h : g.Counts kind more id) : id = x ∨ g.Counts kind ids id :=
  ((hmore id).mp h.1).imp_right fun hid => ⟨hid, h.2⟩

/-- A node that counts and yields to none that counts, in whichever order nodes yield to each other. -/
def Prevails (g : Graph NodeId) (kind : Hierarchy) (yields : NodeId → NodeId → Prop) (ids : List NodeId)
    (id : NodeId) : Prop :=
  g.Counts kind ids id ∧ ∀ other, g.Counts kind ids other → ¬ yields id other

/-- One more declared node leaves a node that prevails in its place, unless that yields to it; then it is the new node that
prevails. -/
theorem Prevails.of_less (yields : NodeId → NodeId → Prop) (hmore : OneMore ids x more)
    (htrans : ∀ {a b c}, yields a b → yields b c → yields a c) (hirrefl : ∀ a, ¬ yields a a)
    (h : g.Prevails kind yields ids id) :
    g.Prevails kind yields more id ∨ yields id x ∧ g.Prevails kind yields more x := by
  by_cases hx : g.Counts kind more x ∧ yields id x
  · refine .inr ⟨hx.2, hx.1, fun other hother hyields => ?_⟩
    rcases hother.of_more hmore with rfl | hother
    · exact hirrefl other hyields
    · exact h.2 other hother (htrans hx.2 hyields)
  · refine .inl ⟨h.1.of_less hmore, fun other hother hyields => ?_⟩
    rcases hother.of_more hmore with rfl | hold
    · exact hx ⟨hother, hyields⟩
    · exact h.2 other hold hyields

theorem IsTopmost.of_less (htree : g.IsTree rootId) (hmore : OneMore ids x more) (h : g.IsTopmost kind ids id) :
    g.IsTopmost kind more id ∨ g.IsBelow id x ∧ g.IsTopmost kind more x :=
  Prevails.of_less g.IsBelow hmore (fun hab hbc => hbc.trans hab) htree.not_isBelow_self h

theorem IsDeepest.of_less (htree : g.IsTree rootId) (hmore : OneMore ids x more) (h : g.IsDeepest kind ids id) :
    g.IsDeepest kind more id ∨ g.IsBelow x id ∧ g.IsDeepest kind more x :=
  Prevails.of_less (fun a b => g.IsBelow b a) hmore (fun hab hbc => hab.trans hbc) htree.not_isBelow_self h

theorem IsDeepest.of_more (hmore : OneMore ids x more) (h : g.IsDeepest kind more id) :
    id = x ∨ g.IsDeepest kind ids id :=
  (h.1.of_more hmore).imp_right fun hid => ⟨hid, fun other hother => h.2 other (hother.of_less hmore)⟩

/-! ### What the scope reaches -/

/-- A node is reached from one at which the scope begins. -/
def InScope (g : Graph NodeId) (kind : Hierarchy) (groupIds userIds : List NodeId) (n : NodeId) : Prop :=
  ∃ start, g.IsStart kind groupIds userIds start ∧ g.Reaches start n

/-- A topmost group node is a start, or one of the principal's own nodes reaches it or lies below it. -/
theorem IsTopmost.isStart (h : g.IsTopmost kind groupIds id)
    (habove : ¬ ∃ own, g.IsDeepest kind userIds own ∧ g.Reaches own id)
    (hbelow : ∀ own, g.IsDeepest kind userIds own → ¬ g.IsBelow own id) : g.IsStart kind groupIds userIds id := by
  refine .inr ⟨h, fun own hown => ⟨?_, fun hunder => ?_, hbelow own hown⟩⟩
  · rintro rfl
    exact habove ⟨id, hown, Relation.ReflTransGen.refl⟩
  · exact habove ⟨own, hown, hunder.to_reflTransGen⟩

/-- One more group node takes nothing away, unless it lies above a deepest own node. -/
theorem InScope.of_less_groups (htree : g.IsTree rootId) (hmore : OneMore groupIds x more)
    (hx : ∀ own, g.IsDeepest kind userIds own → ¬ g.IsBelow own x) (h : g.InScope kind groupIds userIds n) :
    g.InScope kind more userIds n := by
  obtain ⟨start, hdeep | ⟨htop, hapart⟩, hreaches⟩ := h
  · exact ⟨start, .inl hdeep, hreaches⟩
  rcases htop.of_less htree hmore with htop | ⟨hbelow, htop⟩
  · exact ⟨start, .inr ⟨htop, hapart⟩, hreaches⟩
  -- the new node has taken the place of `start`; where it does not stay, an own node above it stands for it
  have hfrom : g.Reaches x n := hbelow.to_reflTransGen.trans hreaches
  by_cases habove : ∃ own, g.IsDeepest kind userIds own ∧ g.Reaches own x
  · obtain ⟨own, hown, hown_x⟩ := habove
    exact ⟨own, .inl hown, hown_x.trans hfrom⟩
  · exact ⟨x, htop.isStart habove hx, hfrom⟩

/-- One more node of the principal's own brings in nothing that it does not reach itself. -/
theorem InScope.of_more_own (htree : g.IsTree rootId) (hmore : OneMore userIds x more)
    (h : g.InScope kind groupIds more n) : g.InScope kind groupIds userIds n ∨ g.Reaches x n := by
  obtain ⟨start, hdeep | ⟨htop, hapart⟩, hreaches⟩ := h
  · rcases hdeep.of_more hmore with rfl | hdeep
    · exact .inr hreaches
    · exact .inl ⟨start, .inl hdeep, hreaches⟩
  left
  by_cases habove : ∃ own, g.IsDeepest kind userIds own ∧ g.Reaches own start
  · obtain ⟨own, hown, hown_start⟩ := habove
    exact ⟨own, .inl hown, hown_start.trans hreaches⟩
  refine ⟨start, htop.isStart habove fun own hown hbelow => ?_, hreaches⟩
  -- an own node below `start` that does not stay has the new node below it, and that stays
  rcases hown.of_less htree hmore with hown | ⟨hx, hdeep⟩
  · exact (hapart own hown).2.2 hbelow
  · exact (hapart x hdeep).2.2 (hbelow.trans hx)

end Graph

/-! ### Access by current paths -/

/-- Start nodes give access to a node by the path that it has in a directory. -/
def Directory.GrantsAccess (d : Directory NodeId) (kind : Hierarchy) (starts : List NodeId) (n : NodeId) : Prop :=
  ∃ path, d.path? kind n = .ok (some path) ∧ Scope.hasPathAccess path starts (Path.bin kind) = .ok true

namespace Scope

open StartNodes.Graph Decimal

variable {d : Directory NodeId} {kind : Hierarchy}

theorem grantsAccess_iff (h : (d.tree kind).IsTreeOf kind)
    (hshort : ∀ x ∈ (d.tree kind).nodeIds, digitCount x ≤ maxDigits) (starts : List NodeId) (n : NodeId) :
    d.GrantsAccess kind starts n ↔
      n ∈ (d.tree kind).nodeIds ∧ ¬ (d.tree kind).IsBelow n kind.binId ∧ ∃ start ∈ starts, (d.tree kind).Reaches start n := by
  by_cases hn : n ∈ (d.tree kind).nodeIds
  swap
  · refine ⟨fun ⟨path, hpath, _⟩ => ?_, fun hin => absurd hin.1 hn⟩
    rw [Directory.path?_of_not_mem hn] at hpath
    cases hpath
  obtain ⟨chain, hchain⟩ := h.exists_lineage hn
  have hpath := Directory.path?_of_lineage h.toIsTree hchain
  have hplaced : (⟨n, Path.join chain⟩ : Placed NodeId).IsIn (d.tree kind) := ⟨chain, hchain, rfl⟩
  obtain ⟨answer, hanswer, hiff⟩ :=
    hasPathAccess_iff h hplaced (fun x hx => hshort x (hx.source_mem h.toWellFormed hn)) starts
  rw [and_iff_right hn, ← hiff]
  constructor
  · rintro ⟨path, hpath', haccess⟩
    cases hpath.symm.trans hpath'
    exact Except.ok.inj (hanswer.symm.trans haccess)
  · rintro rfl
    exact ⟨_, hpath, hanswer⟩

/-- The combination of start nodes gives access to the nodes in their scope that do not lie below the recycle bin. -/
theorem exists_combineIds_grantsAccess (h : (d.tree kind).IsTreeOf kind)
    (hshort : ∀ x ∈ (d.tree kind).nodeIds, digitCount x ≤ maxDigits) (groupIds userIds : List NodeId) :
    ∃ starts, combineIds (.trees (.plain d)) kind groupIds userIds = .ok starts ∧
      ∀ n, d.GrantsAccess kind starts n ↔
        n ∈ (d.tree kind).nodeIds ∧ ¬ (d.tree kind).IsBelow n kind.binId ∧ (d.tree kind).InScope kind groupIds userIds n := by
  obtain ⟨starts, hstarts, hmem⟩ := combineIds_trees h groupIds userIds
  refine ⟨starts, hstarts, fun n => ?_⟩
  rw [grantsAccess_iff h hshort, InScope]
  simp only [hmem]

/-- Whatever edits have been tried on the directory, one more start node of the groups, at whatever place, takes no access
away, unless it lies above a deepest start node of the principal's own; so it takes none away where no node of the
principal's own counts. -/
theorem access_grows_with_group_starts (edits : List (Hierarchy × Edit NodeId)) (kind : Hierarchy)
    (before after userIds : List NodeId) (x : NodeId) :
    let d := (Directory.seeded : Directory NodeId).after edits
    let g := d.tree kind
    let source := PathSource.trees (.plain d)
    (∀ id ∈ g.nodeIds, digitCount id ≤ maxDigits) →
      ∃ starts more,
        combineIds source kind (before ++ after) userIds = .ok starts ∧
        combineIds source kind (before ++ x :: after) userIds = .ok more ∧
        ((∀ own, g.IsDeepest kind userIds own → ¬ g.IsBelow own x) →
          ∀ n, d.GrantsAccess kind starts n → d.GrantsAccess kind more n) ∧
        ((∀ id, ¬ g.Counts kind userIds id) → ∀ n, d.GrantsAccess kind starts n → d.GrantsAccess kind more n) := by
  intro d g source hshort
  have htree : g.IsTreeOf kind := Directory.hasTrees_after_seeded edits kind
  obtain ⟨starts, hstarts, hfew⟩ := exists_combineIds_grantsAccess htree hshort (before ++ after) userIds
  obtain ⟨more, hmore, hmany⟩ := exists_combineIds_grantsAccess htree hshort (before ++ x :: after) userIds
  have hgrows : (∀ own, g.IsDeepest kind userIds own → ¬ g.IsBelow own x) →
      ∀ n, d.GrantsAccess kind starts n → d.GrantsAccess kind more n := by
    intro hx n hn
    obtain ⟨hmem, hbin, hscope⟩ := (hfew n).mp hn
    exact (hmany n).mpr ⟨hmem, hbin, hscope.of_less_groups htree.toIsTree (oneMore_insert before after x) hx⟩
  exact ⟨starts, more, hstarts, hmore, hgrows, fun hnone => hgrows fun own hown => absurd hown.1 (hnone own)⟩

/-- A group's node goes to the one above it, and a node of the principal's own elsewhere does not stand in the way. -/
theorem access_grows_with_group_starts_nested :
    let d := (Directory.seeded : Directory NodeId).after
      [(.content, .add 10 rootId), (.content, .add 20 10), (.content, .add 30 20), (.content, .add 40 rootId)]
    (∀ id ∈ (d.tree .content).nodeIds, digitCount id ≤ maxDigits) ∧
      (∀ own, (d.tree .content).IsDeepest .content [40] own → ¬ (d.tree .content).IsBelow own 10) ∧
      combineIds (.trees (.plain d)) .content [20] [40] = .ok [20, 40] ∧
      combineIds (.trees (.plain d)) .content [20, 10] [40] = .ok [10, 40] ∧
      d.GrantsAccess .content [20, 40] 30 ∧ d.GrantsAccess .content [10, 40] 30 := by
  intro d
  have hshort : ∀ id ∈ (d.tree .content).nodeIds, digitCount id ≤ maxDigits := by decide
  have htree : (d.tree .content).IsTreeOf .content := Directory.hasTrees_after_seeded _ .content
  have hapart : ∀ own, (d.tree .content).IsDeepest .content [40] own → ¬ (d.tree .content).IsBelow own 10 := by
    intro own hown hbelow
    rw [List.mem_singleton.mp hown.1.1] at hbelow
    exact not_isBelow_of_not_mem_subtree htree.toWellFormed (by decide) (by decide) hbelow
  have hfew : combineIds (.trees (.plain d)) .content [20] [40] = .ok [20, 40] := by decide +kernel
  have hmany : combineIds (.trees (.plain d)) .content [20, 10] [40] = .ok [10, 40] := by decide +kernel
  have haccess : d.GrantsAccess .content [20, 40] 30 := ⟨"-1,10,20,30", by rfl, by rfl⟩
  obtain ⟨starts, more, hstarts, hmore, hgrows, -⟩ :=
    access_grows_with_group_starts _ .content [20] [] [40] 10 hshort
  cases hfew.symm.trans hstarts
  cases hmany.symm.trans hmore
  exact ⟨hshort, hapart, hfew, hmany, haccess, hgrows hapart 30 haccess⟩

/-- Whatever edits have been tried on the directory, one more start node of the principal's own, at whatever place, gives
access to nothing but itself and what lies below it. -/
theorem access_by_own_start_is_below_it (edits : List (Hierarchy × Edit NodeId)) (kind : Hierarchy)
    (groupIds before after : List NodeId) (x : NodeId) :
    let d := (Directory.seeded : Directory NodeId).after edits
    let g := d.tree kind
    let source := PathSource.trees (.plain d)
    (∀ id ∈ g.nodeIds, digitCount id ≤ maxDigits) →
      ∃ starts more,
        combineIds source kind groupIds (before ++ after) = .ok starts ∧
        combineIds source kind groupIds (before ++ x :: after) = .ok more ∧
        ∀ n, d.GrantsAccess kind more n → d.GrantsAccess kind starts n ∨ n = x ∨ g.IsBelow n x := by
  intro d g source hshort
  have htree : g.IsTreeOf kind := Directory.hasTrees_after_seeded edits kind
  obtain ⟨starts, hstarts, hfew⟩ := exists_combineIds_grantsAccess htree hshort groupIds (before ++ after)
  obtain ⟨more, hmore, hmany⟩ := exists_combineIds_grantsAccess htree hshort groupIds (before ++ x :: after)
  refine ⟨starts, more, hstarts, hmore, fun n hn => ?_⟩
  obtain ⟨hmem, hbin, hscope⟩ := (hmany n).mp hn
  rcases hscope.of_more_own htree.toIsTree (oneMore_insert before after x) with hscope | hreaches
  · exact .inl ((hfew n).mpr ⟨hmem, hbin, hscope⟩)
  · exact .inr (reaches_iff_eq_or_isBelow.mp hreaches)

/-- A deeper node of the principal's own gives back a group's node that the one above both had replaced: no new access. -/
theorem access_by_own_start_is_below_it_revived :
    let d := (Directory.seeded : Directory NodeId).after
      [(.content, .add 10 rootId), (.content, .add 20 10), (.content, .add 30 20), (.content, .add 40 10)]
    (∀ id ∈ (d.tree .content).nodeIds, digitCount id ≤ maxDigits) ∧
      combineIds (.trees (.plain d)) .content [40] [10] = .ok [10] ∧
      combineIds (.trees (.plain d)) .content [40] [10, 30] = .ok [40, 30] ∧
      d.GrantsAccess .content [40, 30] 40 ∧ d.GrantsAccess .content [10] 40 := by
  intro d
  have hshort : ∀ id ∈ (d.tree .content).nodeIds, digitCount id ≤ maxDigits := by decide
  have htree : (d.tree .content).IsTreeOf .content := Directory.hasTrees_after_seeded _ .content
  have hfew : combineIds (.trees (.plain d)) .content [40] [10] = .ok [10] := by decide +kernel
  have hmany : combineIds (.trees (.plain d)) .content [40] [10, 30] = .ok [40, 30] := by decide +kernel
  have haccess : d.GrantsAccess .content [40, 30] 40 := ⟨"-1,10,40", by rfl, by rfl⟩
  obtain ⟨starts, more, hstarts, hmore, hbelow⟩ :=
    access_by_own_start_is_below_it _ .content [40] [10] [] 30 hshort
  cases hfew.symm.trans hstarts
  cases hmany.symm.trans hmore
  refine ⟨hshort, hfew, hmany, haccess, (hbelow 40 haccess).resolve_right ?_⟩
  rintro (heq | hunder)
  · exact absurd heq (by decide)
  · exact not_isBelow_of_not_mem_subtree htree.toWellFormed (by decide) (by decide) hunder

end Scope

end StartNodes
