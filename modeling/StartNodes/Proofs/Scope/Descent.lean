import StartNodes.Proofs.Directory.Paths
import StartNodes.Proofs.Scope.Combine
import StartNodes.Proofs.Scope.Spelling
import StartNodes.Scope.Lookup

/-!
Scopes in terms of trees. Where paths are those of nodes in a tree, the tests on their texts are tests of descent: the
reductions compare nodes by which lies below which, and start nodes give access to what they reach.
-/

namespace StartNodes

namespace Graph

/-- A declared node that counts in a hierarchy: it is in the tree and does not lie below the recycle bin. -/
def Counts (g : Graph NodeId) (kind : Hierarchy) (declared : List NodeId) (id : NodeId) : Prop :=
  id ∈ declared ∧ id ∈ g.nodeIds ∧ ¬ g.IsBelow id kind.binId

/-- A declared node that counts, and below which no other lies that counts. -/
def IsDeepest (g : Graph NodeId) (kind : Hierarchy) (declared : List NodeId) (id : NodeId) : Prop :=
  g.Counts kind declared id ∧ ∀ other, g.Counts kind declared other → ¬ g.IsBelow other id

/-- A declared node that counts, and above which no other lies that counts. -/
def IsTopmost (g : Graph NodeId) (kind : Hierarchy) (declared : List NodeId) (id : NodeId) : Prop :=
  g.Counts kind declared id ∧ ∀ other, g.Counts kind declared other → ¬ g.IsBelow id other

/-- A node at which the scope begins that two lists of declared nodes make up, the groups' and the principal's own. -/
def IsStart (g : Graph NodeId) (kind : Hierarchy) (groupIds userIds : List NodeId) (id : NodeId) : Prop :=
  g.IsDeepest kind userIds id ∨
    g.IsTopmost kind groupIds id ∧
      ∀ own, g.IsDeepest kind userIds own → id ≠ own ∧ ¬ g.IsBelow id own ∧ ¬ g.IsBelow own id

/-- A start node is in the tree and does not lie below the recycle bin. -/
theorem IsStart.stands {g : Graph NodeId} {kind : Hierarchy} {groupIds userIds : List NodeId} {id : NodeId}
    (h : g.IsStart kind groupIds userIds id) : id ∈ g.nodeIds ∧ ¬ g.IsBelow id kind.binId := by
  rcases h with hdeepest | ⟨htopmost, -⟩
  · exact hdeepest.1.2
  · exact htopmost.1.2

end Graph

namespace Directory

open StartNodes.Graph

variable {d : Directory NodeId} {kind : Hierarchy}

/-- The table of paths that are asked for lists those of the nodes that are there, and no others. -/
theorem paths_eq_ok (h : (d.tree kind).IsTree rootId) (ids : List NodeId) :
    ∃ table, d.paths kind ids = .ok table ∧
      ∀ id, (id ∈ ids → d.path? kind id = .ok (table.lookup id)) ∧ (id ∉ ids → table.lookup id = none) :=
  paths_of_path? fun id _ => (exists_path?_iff h.toWellFormed id).mpr fun hstray => hstray.2 (h.reaches id hstray.1)

/-- A table need not list the root, whose path is known. -/
theorem path?_eq_pathFrom? (h : (d.tree kind).IsTree rootId) {table : PathTable NodeId} {id : NodeId}
    (hlisted : id ≠ rootId → d.path? kind id = .ok (table.lookup id)) :
    d.path? kind id = .ok (table.pathFrom? rootId id) := by
  rw [PathTable.pathFrom?]
  by_cases hroot : id = rootId
  · rw [hroot, beq_self_eq_true, if_pos rfl, path?_of_lineage h Lineage.start, join_root]
    rfl
  · rw [beq_eq_false_iff_ne.mpr hroot, if_neg Bool.false_ne_true]
    exact hlisted hroot

end Directory

namespace Scope

open StartNodes.Graph Decimal

/-- A node of a tree with its path there. -/
def Placed.IsIn (n : Placed NodeId) (g : Graph NodeId) : Prop :=
  ∃ chain, g.Lineage rootId n.id chain ∧ n.path = Path.join chain

section Tree

variable {g : Graph NodeId} {kind : Hierarchy}

theorem exists_placed (h : g.IsTree rootId) {id : NodeId} (hid : id ∈ g.nodeIds) :
    ∃ n : Placed NodeId, n.id = id ∧ n.IsIn g := by
  obtain ⟨chain, hchain⟩ := h.exists_lineage hid
  exact ⟨⟨id, Path.join chain⟩, rfl, chain, hchain, rfl⟩

theorem isUnder_iff_isBelow (h : g.IsTree rootId) {a b : Placed NodeId} (ha : a.IsIn g) (hb : b.IsIn g) :
    a.isUnder b = true ↔ g.IsBelow a.id b.id := by
  obtain ⟨ca, hca, hpa⟩ := ha
  obtain ⟨cb, hcb, hpb⟩ := hb
  rw [Placed.isUnder, hpa, hpb, Path.isUnder_join hca.ne_nil hcb.ne_nil, h.lineage_prefix_ne_iff hca hcb]

theorem isUnder_eq_false_iff (h : g.IsTree rootId) {a b : Placed NodeId} (ha : a.IsIn g) (hb : b.IsIn g) :
    a.isUnder b = false ↔ ¬ g.IsBelow a.id b.id := by
  rw [Bool.eq_false_iff, Ne, isUnder_iff_isBelow h ha hb]

theorem path_eq_iff (h : g.IsTree rootId) {a b : Placed NodeId} (ha : a.IsIn g) (hb : b.IsIn g) :
    a.path = b.path ↔ a.id = b.id := by
  obtain ⟨ca, hca, hpa⟩ := ha
  obtain ⟨cb, hcb, hpb⟩ := hb
  rw [hpa, hpb]
  constructor
  · intro hpath
    have hchain := Path.join_injective hca.ne_nil hcb.ne_nil hpath
    exact hca.target_unique (hchain ▸ hcb)
  · intro hid
    rw [h.lineage_unique hca (hid ▸ hcb)]

/-- A node is reached from another exactly if its path is the other's or lies under it. -/
theorem reaches_iff_path (h : g.IsTree rootId) {a b : Placed NodeId} (ha : a.IsIn g) (hb : b.IsIn g) :
    g.Reaches b.id a.id ↔ a.path = b.path ∨ a.isUnder b = true := by
  rw [reaches_iff_eq_or_isBelow, path_eq_iff h ha hb, isUnder_iff_isBelow h ha hb]

theorem isUnder_bin_iff (h : g.IsTreeOf kind) {n : Placed NodeId} (hn : n.IsIn g) :
    Path.isUnder n.path (Path.bin kind) = true ↔ g.IsBelow n.id kind.binId := by
  obtain ⟨chain, hchain, hpath⟩ := hn
  have hbin : g.Lineage rootId kind.binId [rootId, kind.binId] := Lineage.start.child h.hasEdge_bin
  rw [hpath, Path.bin, Path.isUnder_join hchain.ne_nil hbin.ne_nil, h.lineage_prefix_ne_iff hchain hbin]

/-- Start nodes give access to a node that one of them reaches, unless the node lies below the recycle bin. -/
theorem hasPathAccess_iff (h : g.IsTreeOf kind) {n : Placed NodeId} (hn : n.IsIn g)
    (hshort : ∀ x, g.Reaches x n.id → digitCount x ≤ maxDigits) (starts : List NodeId) :
    ∃ answer, hasPathAccess n.path starts (Path.bin kind) = .ok answer ∧
      (answer = true ↔ ¬ g.IsBelow n.id kind.binId ∧ ∃ start ∈ starts, g.Reaches start n.id) := by
  have hbin := isUnder_bin_iff h hn
  obtain ⟨chain, hchain, hpath⟩ := hn
  have hread : Path.ids n.path = .ok chain := by
    rw [hpath]
    exact Path.ids_join hchain.ne_nil fun x hx => hshort x ((h.mem_lineage_iff hchain).mp hx)
  have hcovers : Covers starts chain ↔ ∃ start ∈ starts, g.Reaches start n.id := by
    simp only [Covers, h.mem_lineage_iff hchain]
    refine ⟨fun hcase => hcase.elim (fun hroot => ⟨rootId, hroot, ?_⟩) id, Or.inr⟩
    exact h.reaches n.id (h.mem_of_lineage hchain)
  refine ⟨_, hasPathAccess_of_ids hread starts (Path.bin kind), ?_⟩
  rw [decide_eq_true_iff, hbin, hcovers, and_comm]

end Tree

/-! ### Combination -/

variable {d : Directory NodeId} {kind : Hierarchy} {path? : NodeId → Option String} {ids : List NodeId}

theorem mem_valid_iff (h : (d.tree kind).IsTreeOf kind) (hpath : ∀ id ∈ ids, d.path? kind id = .ok (path? id))
    {n : Placed NodeId} :
    n ∈ valid path? (Path.bin kind) ids ↔ (d.tree kind).Counts kind ids n.id ∧ n.IsIn (d.tree kind) := by
  rw [mem_valid]
  constructor
  · rintro ⟨hid, hsome, hbin⟩
    have hasked := hpath n.id hid
    rw [hsome] at hasked
    by_cases hmem : n.id ∈ (d.tree kind).nodeIds
    · obtain ⟨chain, hchain⟩ := h.exists_lineage hmem
      have hin : n.IsIn (d.tree kind) := by
        rw [Directory.path?_of_lineage h.toIsTree hchain] at hasked
        exact ⟨chain, hchain, (Option.some.inj (Except.ok.inj hasked)).symm⟩
      rw [Bool.eq_false_iff, Ne, isUnder_bin_iff h hin] at hbin
      exact ⟨⟨hid, hmem, hbin⟩, hin⟩
    · rw [Directory.path?_of_not_mem hmem] at hasked
      cases hasked
  · rintro ⟨⟨hid, _, hbelow⟩, hin⟩
    have hbin := Bool.eq_false_iff.mpr (mt (isUnder_bin_iff h hin).mp hbelow)
    obtain ⟨chain, hchain, hjoin⟩ := hin
    have hasked := hpath n.id hid
    rw [Directory.path?_of_lineage h.toIsTree hchain, ← hjoin] at hasked
    exact ⟨hid, (Except.ok.inj hasked).symm, hbin⟩

/-- Nodes that count and yield to none that counts, where a test of paths tells which node yields to which. -/
theorem mem_valid_and_forall_iff (h : (d.tree kind).IsTreeOf kind)
    (hpath : ∀ id ∈ ids, d.path? kind id = .ok (path? id)) (test : Placed NodeId → Placed NodeId → Bool)
    (yields : NodeId → NodeId → Prop)
    (htest : ∀ {a b}, a.IsIn (d.tree kind) → b.IsIn (d.tree kind) → (test a b = false ↔ ¬ yields a.id b.id))
    {n : Placed NodeId} :
    (n ∈ valid path? (Path.bin kind) ids ∧ ∀ m ∈ valid path? (Path.bin kind) ids, test n m = false) ↔
      ((d.tree kind).Counts kind ids n.id ∧ ∀ other, (d.tree kind).Counts kind ids other → ¬ yields n.id other) ∧
        n.IsIn (d.tree kind) := by
  rw [mem_valid_iff h hpath, and_right_comm]
  refine and_congr_left fun hin => and_congr_right fun _ => ⟨fun hall other hother => ?_, fun hall m hm => ?_⟩
  · obtain ⟨m, rfl, hm⟩ := exists_placed h.toIsTree hother.2.1
    rw [← htest hin hm]
    exact hall m ((mem_valid_iff h hpath).mpr ⟨hother, hm⟩)
  · obtain ⟨hcounts, hm⟩ := (mem_valid_iff h hpath).mp hm
    rw [htest hin hm]
    exact hall m.id hcounts

theorem mem_deepest_iff (h : (d.tree kind).IsTreeOf kind) (hpath : ∀ id ∈ ids, d.path? kind id = .ok (path? id))
    {n : Placed NodeId} :
    n ∈ deepest (valid path? (Path.bin kind) ids) ↔ (d.tree kind).IsDeepest kind ids n.id ∧ n.IsIn (d.tree kind) := by
  rw [mem_deepest]
  exact mem_valid_and_forall_iff h hpath (fun a b => b.isUnder a) (fun id other => (d.tree kind).IsBelow other id)
    fun ha hb => isUnder_eq_false_iff h.toIsTree hb ha

theorem mem_topmost_iff (h : (d.tree kind).IsTreeOf kind) (hpath : ∀ id ∈ ids, d.path? kind id = .ok (path? id))
    {n : Placed NodeId} :
    n ∈ topmost (valid path? (Path.bin kind) ids) ↔ (d.tree kind).IsTopmost kind ids n.id ∧ n.IsIn (d.tree kind) := by
  rw [mem_topmost]
  exact mem_valid_and_forall_iff h hpath (fun a b => a.isUnder b) (fun id other => (d.tree kind).IsBelow id other)
    fun ha hb => isUnder_eq_false_iff h.toIsTree ha hb

/-- With paths from a tree, combining start nodes gives the nodes at which the scope begins. -/
theorem mem_combine_iff (h : (d.tree kind).IsTreeOf kind) {groupIds userIds : List NodeId}
    (hpath : ∀ id ∈ groupIds ++ userIds, d.path? kind id = .ok (path? id)) {id : NodeId} :
    id ∈ combine kind path? groupIds userIds ↔ (d.tree kind).IsStart kind groupIds userIds id := by
  have hgroup : ∀ id ∈ groupIds, d.path? kind id = .ok (path? id) := fun id hid =>
    hpath id (List.mem_append_left _ hid)
  have huser : ∀ id ∈ userIds, d.path? kind id = .ok (path? id) := fun id hid => hpath id (List.mem_append_right _ hid)
  have hapart : ∀ {a b : Placed NodeId}, a.IsIn (d.tree kind) → b.IsIn (d.tree kind) →
      (a.Apart b ↔ a.id ≠ b.id ∧ ¬ (d.tree kind).IsBelow a.id b.id ∧ ¬ (d.tree kind).IsBelow b.id a.id) := by
    intro a b ha hb
    rw [Placed.Apart, isUnder_eq_false_iff h.toIsTree ha hb, isUnder_eq_false_iff h.toIsTree hb ha]
  rw [mem_combine, Graph.IsStart]
  constructor
  · rintro ⟨n, rfl, hn | ⟨hn, hall⟩⟩
    · exact Or.inl ((mem_deepest_iff h huser).mp hn).1
    · obtain ⟨htop, hin⟩ := (mem_topmost_iff h hgroup).mp hn
      refine Or.inr ⟨htop, fun own hown => ?_⟩
      obtain ⟨m, rfl, hm⟩ := exists_placed h.toIsTree hown.1.2.1
      exact (hapart hin hm).mp (hall m ((mem_deepest_iff h huser).mpr ⟨hown, hm⟩))
  · rintro (hdeep | ⟨htop, hall⟩)
    · obtain ⟨n, rfl, hn⟩ := exists_placed h.toIsTree hdeep.1.2.1
      exact ⟨n, rfl, Or.inl ((mem_deepest_iff h huser).mpr ⟨hdeep, hn⟩)⟩
    · obtain ⟨n, rfl, hn⟩ := exists_placed h.toIsTree htop.1.2.1
      refine ⟨n, rfl, Or.inr ⟨(mem_topmost_iff h hgroup).mpr ⟨htop, hn⟩, fun m hm => ?_⟩⟩
      obtain ⟨hown, hm⟩ := (mem_deepest_iff h huser).mp hm
      exact (hapart hn hm).mpr (hall m.id hown)

/-- Combining start nodes with paths from the trees of a directory is never refused. -/
theorem combineIds_trees (h : (d.tree kind).IsTreeOf kind) (groupIds userIds : List NodeId) :
    ∃ starts, combineIds (.trees (.plain d)) kind groupIds userIds = .ok starts ∧
      ∀ id, id ∈ starts ↔ (d.tree kind).IsStart kind groupIds userIds id := by
  obtain ⟨table, htable, hrows⟩ := Directory.paths_eq_ok h.toIsTree (declared groupIds userIds)
  have hfrom : ∀ id ∈ groupIds ++ userIds, d.path? kind id = .ok (PathTable.pathFrom? table rootId id) :=
    fun id hid => Directory.path?_eq_pathFrom? h.toIsTree fun _ => (hrows id).1 (List.mem_eraseDups.mpr hid)
  refine ⟨combine kind (PathTable.pathFrom? table rootId) groupIds userIds, ?_, fun id => mem_combine_iff h hfrom⟩
  have hpaths : (PathSource.trees (.plain d)).paths kind (declared groupIds userIds) = .ok table := by
    rw [PathSource.paths, htable]
    rfl
  rw [combineIds, combineFrom_eq_combine]
  by_cases hnone : (declared groupIds userIds).isEmpty = true
  · rw [if_pos hnone]
    rw [List.isEmpty_iff] at hnone
    rw [hnone, Directory.paths] at htable
    cases htable
    rfl
  · rw [if_neg hnone, hpaths]
    rfl

end Scope

end StartNodes
