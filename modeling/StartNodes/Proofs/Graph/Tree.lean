import StartNodes.Proofs.Graph.Search

/-!
Trees: the root has no parent, every other node has exactly one, and the root reaches every node. A tree has no cycle,
and each of its nodes has one lineage, which the search for a shortest path finds. Lineages say which node lies below
which: that of a node begins with those of its ancestors and with no others.
-/

namespace StartNodes.Graph

variable {ι : Type} [BEq ι]

/-- A graph is a tree that hangs from a root. -/
structure IsTree (g : Graph ι) (root : ι) : Prop extends g.WellFormed where
  root_mem : root ∈ g.nodeIds
  parents_root : g.parents root = []
  parents_eq : ∀ id ∈ g.nodeIds, id ≠ root → ∃ parent, g.parents id = [parent]
  reaches : ∀ id ∈ g.nodeIds, g.Reaches root id

variable {g : Graph ι} {root : ι}

namespace IsTree

theorem exists_lineage (h : g.IsTree root) {id : ι} (hid : id ∈ g.nodeIds) : ∃ chain, g.Lineage root id chain :=
  exists_lineage_of_reaches (h.reaches id hid)

theorem mem_of_lineage (h : g.IsTree root) {id : ι} {chain : List ι} (hc : g.Lineage root id chain) :
    id ∈ g.nodeIds := by
  cases hc with
  | start => exact h.root_mem
  | child _ hedge => exact h.target_mem hedge

variable [LawfulBEq ι]

theorem not_hasEdge_root (h : g.IsTree root) {a : ι} : ¬ g.HasEdge a root := by
  rw [← mem_parents, h.parents_root]
  exact List.not_mem_nil

theorem not_isBelow_root (h : g.IsTree root) {a : ι} : ¬ g.IsBelow root a := by
  intro hbelow
  obtain ⟨_, _, hedge⟩ := Relation.TransGen.tail'_iff.mp hbelow
  exact h.not_hasEdge_root hedge

theorem eq_root_of_reaches (h : g.IsTree root) {a : ι} (hreaches : g.Reaches a root) : a = root := by
  rcases reaches_iff_eq_or_isBelow.mp hreaches with heq | hbelow
  · exact heq.symm
  · exact absurd hbelow h.not_isBelow_root

theorem parents_of_hasEdge (h : g.IsTree root) {a b : ι} (hedge : g.HasEdge a b) : g.parents b = [a] := by
  have hne : b ≠ root := by
    rintro rfl
    exact h.not_hasEdge_root hedge
  obtain ⟨parent, hparent⟩ := h.parents_eq b (h.target_mem hedge) hne
  have hmem := mem_parents.mpr hedge
  rw [hparent, List.mem_singleton] at hmem
  rw [hparent, hmem]

theorem parent_unique (h : g.IsTree root) {a b c : ι} (ha : g.HasEdge a c) (hb : g.HasEdge b c) : a = b := by
  have hparents := (h.parents_of_hasEdge ha).symm.trans (h.parents_of_hasEdge hb)
  exact List.singleton_inj.mp hparents

/-- What is below a child is below its parent or is the parent. -/
theorem reaches_parent (h : g.IsTree root) {a b c : ι} (hedge : g.HasEdge b c) (hbelow : g.IsBelow c a) :
    g.Reaches a b := by
  obtain ⟨b', hb', hedge'⟩ := Relation.TransGen.tail'_iff.mp hbelow
  rwa [h.parent_unique hedge hedge']

/-- No node of a tree lies below itself. -/
theorem not_isBelow_self (h : g.IsTree root) (id : ι) : ¬ g.IsBelow id id := by
  intro hcycle
  -- going up from a node on a cycle one stays on the cycle, and so does not come to the root
  have hroot : ∀ x, g.Reaches root x → ¬ g.IsBelow x x := by
    intro x hx
    induction hx with
    | refl => exact h.not_isBelow_root
    | tail _ hedge ih => exact fun hbelow => ih (Relation.TransGen.head' hedge (h.reaches_parent hedge hbelow))
  exact hroot id (h.reaches id (hcycle.target_mem h.toWellFormed)) hcycle

theorem ne_of_isBelow (h : g.IsTree root) {a b : ι} (hbelow : g.IsBelow a b) : a ≠ b := by
  rintro rfl
  exact h.not_isBelow_self a hbelow

theorem not_isBelow_of_reaches (h : g.IsTree root) {a b : ι} (hreaches : g.Reaches a b) : ¬ g.IsBelow a b :=
  fun hbelow => h.not_isBelow_self a (Relation.TransGen.trans_right hreaches hbelow)

/-! ### Lineages -/

theorem lineage_unique (h : g.IsTree root) {id : ι} {chain chain' : List ι} (hc : g.Lineage root id chain)
    (hc' : g.Lineage root id chain') : chain = chain' := by
  induction hc generalizing chain' with
  | start =>
      cases hc' with
      | start => rfl
      | child _ hedge => exact absurd hedge h.not_hasEdge_root
  | child _ hedge ih =>
      cases hc' with
      | start => exact absurd hedge h.not_hasEdge_root
      | child hp' hedge' =>
          rw [h.parent_unique hedge hedge'] at ih
          rw [ih hp']

/-- The search for a shortest path from the root gives a node's lineage. -/
theorem shortestPath_of_lineage (h : g.IsTree root) {id : ι} {chain : List ι} (hc : g.Lineage root id chain) :
    g.shortestPath root id = .ok chain := by
  obtain ⟨chain', hpath, hc'⟩ := exists_shortestPath h.toWellFormed h.root_mem hc.reaches
  rw [hpath, h.lineage_unique hc hc']

theorem mem_lineage_iff (h : g.IsTree root) {id x : ι} {chain : List ι} (hc : g.Lineage root id chain) :
    x ∈ chain ↔ g.Reaches x id := by
  refine ⟨fun hx => (hc.between x hx).2, fun hx => ?_⟩
  induction hc with
  | start =>
      rw [h.eq_root_of_reaches hx]
      exact List.mem_singleton_self root
  | child _ hedge ih =>
      rcases reaches_iff_eq_or_isBelow.mp hx with rfl | hbelow
      · exact List.mem_append_right _ (List.mem_singleton_self _)
      · exact List.mem_append_left _ (ih (h.reaches_parent hedge hbelow))

theorem nodup_lineage (h : g.IsTree root) {id : ι} {chain : List ι} (hc : g.Lineage root id chain) : chain.Nodup := by
  induction hc with
  | start => exact List.nodup_singleton root
  | child hp hedge ih =>
      refine List.Nodup.append ih (List.nodup_singleton _) (List.disjoint_singleton.mpr ?_)
      intro hmem
      exact h.not_isBelow_of_reaches ((h.mem_lineage_iff hp).mp hmem) (Relation.TransGen.single hedge)

/-- The lineage of a node begins with another exactly if the other node reaches it. -/
theorem lineage_prefix_iff (h : g.IsTree root) {a b : ι} {ca cb : List ι} (ha : g.Lineage root a ca)
    (hb : g.Lineage root b cb) : cb <+: ca ↔ g.Reaches b a := by
  constructor
  · rintro ⟨rest, rfl⟩
    exact (ha.between b (List.mem_append_left _ hb.mem)).2
  · intro hreaches
    induction hreaches generalizing ca with
    | refl => exact h.lineage_unique ha hb ▸ List.prefix_refl cb
    | tail _ hedge ih =>
        cases ha with
        | start => exact absurd hedge h.not_hasEdge_root
        | child hp hedge' =>
            rw [h.parent_unique hedge hedge'] at ih
            exact (ih hp).trans (List.prefix_append _ _)

/-- The lineage of a node properly begins with another exactly if the node lies below the other. -/
theorem lineage_prefix_ne_iff (h : g.IsTree root) {a b : ι} {ca cb : List ι} (ha : g.Lineage root a ca)
    (hb : g.Lineage root b cb) : cb <+: ca ∧ cb ≠ ca ↔ g.IsBelow a b := by
  rw [h.lineage_prefix_iff ha hb, reaches_iff_eq_or_isBelow]
  constructor
  · rintro ⟨rfl | hbelow, hne⟩
    · exact absurd (h.lineage_unique hb ha) hne
    · exact hbelow
  · intro hbelow
    refine ⟨Or.inr hbelow, ?_⟩
    rintro rfl
    exact h.ne_of_isBelow hbelow (ha.target_unique hb)

end IsTree

end StartNodes.Graph
