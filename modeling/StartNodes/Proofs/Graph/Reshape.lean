import StartNodes.Proofs.Graph.Tree

/-!
Trees stay trees when a leaf is hung under a node, when a subtree is hung under a node outside it, and when a subtree
is taken away. A way down that does not pass the node at which the tree is changed is still there afterwards.
-/

namespace StartNodes.Graph

variable {ι : Type} [BEq ι] [LawfulBEq ι] {g g' : Graph ι} {root id parent old : ι}

omit [BEq ι] [LawfulBEq ι] in
theorem Reaches.mono (hedges : ∀ a b, g.HasEdge a b → g'.HasEdge a b) {a b : ι} (h : g.Reaches a b) :
    g'.Reaches a b := by
  induction h with
  | refl => exact Relation.ReflTransGen.refl
  | tail _ hedge ih => exact ih.tail (hedges _ _ hedge)

omit [BEq ι] [LawfulBEq ι] in
/-- A lineage down to a node that another does not reach does not pass that other node. -/
theorem Lineage.avoid (hedges : ∀ a b, g.HasEdge a b → ¬ g.Reaches id b → g'.HasEdge a b) {a b : ι} {chain : List ι}
    (h : g.Lineage a b chain) (hb : ¬ g.Reaches id b) : g'.Lineage a b chain :=
  h.keep fun x y _ hedge hy => hedges x y hedge fun hreaches => hb (hreaches.trans hy)

omit [BEq ι] [LawfulBEq ι] in
theorem Reaches.avoid (hedges : ∀ a b, g.HasEdge a b → ¬ g.Reaches id b → g'.HasEdge a b) {a b : ι}
    (h : g.Reaches a b) (hb : ¬ g.Reaches id b) : g'.Reaches a b := by
  obtain ⟨chain, hchain⟩ := exists_lineage_of_reaches h
  exact (hchain.avoid hedges hb).reaches

/-- A lineage from a node that has no way back to it does not pass an edge to the node. -/
theorem IsTree.lineage_below (h : g.IsTree root) (hedges : ∀ a b, g.HasEdge a b → b ≠ id → g'.HasEdge a b) {x : ι}
    {chain : List ι} (hx : g.Lineage id x chain) : g'.Lineage id x chain := by
  refine hx.keep fun a b ha hedge _ => hedges a b hedge ?_
  rintro rfl
  exact h.not_isBelow_of_reaches ha (Relation.TransGen.single hedge)

theorem IsTree.reaches_below (h : g.IsTree root) (hedges : ∀ a b, g.HasEdge a b → b ≠ id → g'.HasEdge a b) {x : ι}
    (hx : g.Reaches id x) : g'.Reaches id x := by
  obtain ⟨chain, hchain⟩ := exists_lineage_of_reaches hx
  exact (h.lineage_below hedges hchain).reaches

/-- Every edge but those to the node that is hung elsewhere stays. -/
theorem hasEdge_reparent {a b : ι} (hedge : g.HasEdge a b) (hb : b ≠ id) :
    ((g.removeEdge old id).addEdge parent id).HasEdge a b :=
  hasEdge_addEdge.mpr (Or.inl (hasEdge_removeEdge.mpr ⟨hedge, fun heq => hb heq.2⟩))

/-- Every edge but those to what a node reaches stays when that is taken away. -/
theorem hasEdge_prune {ids : List ι} (hids : ∀ x, x ∈ ids ↔ g.Reaches id x) {a b : ι} (hedge : g.HasEdge a b)
    (hb : ¬ g.Reaches id b) : (g.removeNodes ids).HasEdge a b := by
  rw [hasEdge_removeNodes, hids, hids]
  exact ⟨hedge, fun ha => hb (ha.tail hedge), hb⟩

namespace IsTree

omit [LawfulBEq ι] in
theorem not_hasEdge_of_not_mem (h : g.IsTree root) (hid : id ∉ g.nodeIds) : ¬ g.HasEdge parent id :=
  fun hedge => hid (h.target_mem hedge)

/-- Once a node is detached from its parent, no edge leads to it. -/
theorem not_hasEdge_removeEdge (h : g.IsTree root) (hold : g.HasEdge old id) :
    ¬ (g.removeEdge old id).HasEdge parent id := by
  rw [hasEdge_removeEdge]
  rintro ⟨hedge, hne⟩
  exact hne ⟨h.parent_unique hedge hold, rfl⟩

/-- A new node under a node of a tree. -/
theorem addEdge (h : g.IsTree root) (hid : id ∉ g.nodeIds) (hparent : parent ∈ g.nodeIds) :
    (g.addEdge parent id).IsTree root := by
  have hnew : ¬ g.HasEdge parent id := h.not_hasEdge_of_not_mem hid
  have hkept : ∀ a b, g.HasEdge a b → (g.addEdge parent id).HasEdge a b :=
    fun a b hedge => hasEdge_addEdge.mpr (Or.inl hedge)
  have hparents : g.parents id = [] := by
    rw [List.eq_nil_iff_forall_not_mem]
    intro a ha
    exact hid (h.target_mem (mem_parents.mp ha))
  have hmem : ∀ x ∈ (g.addEdge parent id).nodeIds, x = id ∨ x ≠ id ∧ x ∈ g.nodeIds := by
    intro x hx
    rcases mem_nodeIds_addEdge.mp hx with hx | rfl | rfl
    · exact Or.inr ⟨fun heq => hid (heq ▸ hx), hx⟩
    · exact Or.inr ⟨fun heq => hid (heq ▸ hparent), hparent⟩
    · exact Or.inl rfl
  refine ⟨h.toWellFormed.addEdge parent id [], mem_nodeIds_addEdge.mpr (Or.inl h.root_mem), ?_, ?_, ?_⟩
  · rw [parents_addEdge_of_ne hnew _ (fun heq => hid (heq ▸ h.root_mem)), h.parents_root]
  · intro x hx hne
    rcases hmem x hx with rfl | ⟨hxid, hx⟩
    · exact ⟨parent, by rw [parents_addEdge_self hnew, hparents, List.nil_append]⟩
    · rw [parents_addEdge_of_ne hnew _ hxid]
      exact h.parents_eq x hx hne
  · intro x hx
    rcases hmem x hx with rfl | ⟨_, hx⟩
    · exact ((h.reaches parent hparent).mono hkept).tail (hasEdge_addEdge.mpr (Or.inr ⟨rfl, rfl⟩))
    · exact (h.reaches x hx).mono hkept

/-- A node taken from its parent and hung, with its subtree, under a node outside the subtree. -/
theorem reparent (h : g.IsTree root) (hold : g.HasEdge old id) (hparent : parent ∈ g.nodeIds)
    (hout : ¬ g.Reaches id parent) : ((g.removeEdge old id).addEdge parent id).IsTree root := by
  have hid : id ∈ g.nodeIds := h.target_mem hold
  have hroot : root ≠ id := by
    rintro rfl
    exact h.not_hasEdge_root hold
  have hnew : ¬ (g.removeEdge old id).HasEdge parent id := h.not_hasEdge_removeEdge hold
  have hkept : ∀ a b, g.HasEdge a b → b ≠ id → ((g.removeEdge old id).addEdge parent id).HasEdge a b :=
    fun a b => hasEdge_reparent
  have hmem : ∀ x, x ∈ ((g.removeEdge old id).addEdge parent id).nodeIds → x ∈ g.nodeIds := by
    intro x hx
    rcases mem_nodeIds_addEdge.mp hx with hx | rfl | rfl
    · exact hx
    · exact hparent
    · exact hid
  have houtside : ∀ x, x ∈ g.nodeIds → ¬ g.Reaches id x →
      ((g.removeEdge old id).addEdge parent id).Reaches root x := by
    intro x hx hno
    refine (h.reaches x hx).avoid (fun a b hedge hb => hkept a b hedge ?_) hno
    rintro rfl
    exact hb Relation.ReflTransGen.refl
  refine ⟨(h.toWellFormed.removeEdge old id).addEdge parent id [], mem_nodeIds_addEdge.mpr (Or.inl h.root_mem), ?_, ?_, ?_⟩
  · rw [parents_addEdge_of_ne hnew _ hroot, parents_removeEdge_of_ne _ hroot, h.parents_root]
  · intro x hx hne
    by_cases hxid : x = id
    · refine ⟨parent, ?_⟩
      rw [hxid, parents_addEdge_self hnew, parents_removeEdge_self, h.parents_of_hasEdge hold]
      simp
    · rw [parents_addEdge_of_ne hnew _ hxid, parents_removeEdge_of_ne _ hxid]
      exact h.parents_eq x (hmem x hx) hne
  · intro x hx
    by_cases hbelow : g.Reaches id x
    · have hdown := h.reaches_below hkept hbelow
      exact ((houtside parent hparent hout).tail (hasEdge_addEdge.mpr (Or.inr ⟨rfl, rfl⟩))).trans hdown
    · exact houtside x (hmem x hx) hbelow

/-- A tree without a node and all that the node reaches. -/
theorem removeNodes (h : g.IsTree root) (hne : id ≠ root) {ids : List ι} (hids : ∀ x, x ∈ ids ↔ g.Reaches id x) :
    (g.removeNodes ids).IsTree root := by
  have hroot : ¬ g.Reaches id root := fun hreaches => hne (h.eq_root_of_reaches hreaches)
  have hkept : ∀ a b, g.HasEdge a b → ¬ g.Reaches id b → (g.removeNodes ids).HasEdge a b :=
    fun a b => hasEdge_prune hids
  refine ⟨h.toWellFormed.removeNodes ids, ?_, ?_, ?_, ?_⟩
  · rw [mem_nodeIds_removeNodes, hids]
    exact ⟨h.root_mem, hroot⟩
  · rw [parents_removeNodes g (mt (hids root).mp hroot), h.parents_root]
    rfl
  · intro x hx hxroot
    obtain ⟨hx, hout⟩ := mem_nodeIds_removeNodes.mp hx
    obtain ⟨p, hp⟩ := h.parents_eq x hx hxroot
    have hedge : g.HasEdge p x := mem_parents.mp (hp ▸ List.mem_singleton_self p)
    have hpout : p ∉ ids := by
      rw [hids] at hout ⊢
      exact fun hreaches => hout (hreaches.tail hedge)
    refine ⟨p, ?_⟩
    rw [parents_removeNodes g hout, hp]
    simp [hpout]
  · intro x hx
    obtain ⟨hx, hout⟩ := mem_nodeIds_removeNodes.mp hx
    exact (h.reaches x hx).avoid hkept (mt (hids x).mpr hout)

end IsTree

end StartNodes.Graph
