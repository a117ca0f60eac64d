import StartNodes.Graph.Basic
import Mathlib.Data.List.Nodup
import Mathlib.Logic.Relation

/-!
Nodes and edges of a graph as a set and a relation, and what each change of a graph does to them. A walk along edges
makes a node reach another; a node lies below another if the walk has at least one edge.
-/

namespace StartNodes.Graph

variable {ι : Type}

/-- An edge leads from one node to another. -/
def HasEdge (g : Graph ι) (source target : ι) : Prop :=
  ∃ e ∈ g.edges, e.source = source ∧ e.target = target

/-- A node is another, or edges lead down to it from that one. -/
def Reaches (g : Graph ι) (source target : ι) : Prop :=
  Relation.ReflTransGen g.HasEdge source target

/-- Edges lead down to a node from another; the node is a strict descendant. -/
def IsBelow (g : Graph ι) (id ancestor : ι) : Prop :=
  Relation.TransGen g.HasEdge ancestor id

/-- Nodes are listed once, and every edge leads from a listed node to a listed node. -/
structure WellFormed (g : Graph ι) : Prop where
  nodup : g.nodeIds.Nodup
  source_mem : ∀ {a b : ι}, g.HasEdge a b → a ∈ g.nodeIds
  target_mem : ∀ {a b : ι}, g.HasEdge a b → b ∈ g.nodeIds

theorem reaches_iff_eq_or_isBelow {g : Graph ι} {a b : ι} : g.Reaches a b ↔ b = a ∨ g.IsBelow b a :=
  Relation.reflTransGen_iff_eq_or_transGen

theorem IsBelow.target_mem {g : Graph ι} (h : g.WellFormed) {a b : ι} (hb : g.IsBelow b a) : b ∈ g.nodeIds := by
  obtain ⟨_, _, hedge⟩ := Relation.TransGen.tail'_iff.mp hb
  exact h.target_mem hedge

theorem IsBelow.source_mem {g : Graph ι} (h : g.WellFormed) {a b : ι} (hb : g.IsBelow b a) : a ∈ g.nodeIds := by
  obtain ⟨_, hedge, _⟩ := Relation.TransGen.head'_iff.mp hb
  exact h.source_mem hedge

theorem Reaches.source_mem {g : Graph ι} (h : g.WellFormed) {a b : ι} (hreaches : g.Reaches a b) (hb : b ∈ g.nodeIds) :
    a ∈ g.nodeIds := by
  rcases reaches_iff_eq_or_isBelow.mp hreaches with rfl | hbelow
  · exact hb
  · exact hbelow.source_mem h

theorem hasEdge_of_edges_eq {g g' : Graph ι} (h : g'.edges = g.edges) {a b : ι} : g'.HasEdge a b ↔ g.HasEdge a b := by
  rw [HasEdge, h, HasEdge]

section Changes

variable [BEq ι]

theorem edges_addNode (g : Graph ι) (id : ι) (attributes : Attributes) : (g.addNode id attributes).edges = g.edges := by
  unfold addNode
  split <;> rfl

theorem nodeIds_addEdge (g : Graph ι) (a b : ι) (attributes : Attributes) :
    (g.addEdge a b attributes).nodeIds = ((g.addNode a).addNode b).nodeIds := by
  unfold addEdge
  simp only
  split <;> rfl

theorem nodeIds_removeNodes (g : Graph ι) (ids : List ι) :
    (g.removeNodes ids).nodeIds = g.nodeIds.filter fun id => !ids.contains id := by
  simp only [nodeIds, removeNodes, List.filter_map]
  rfl

theorem parents_removeEdge_self (g : Graph ι) (a b : ι) :
    (g.removeEdge a b).parents b = (g.parents b).filter (· != a) := by
  simp only [parents, removeEdge, List.filter_filter, List.filter_map]
  apply congrArg
  apply List.filter_congr
  intro e _
  simp only [Edge.joins, Function.comp, bne]
  cases e.source == a <;> cases e.target == b <;> rfl

end Changes

variable [BEq ι] [LawfulBEq ι]

@[simp]
theorem mem_children {g : Graph ι} {a b : ι} : b ∈ g.children a ↔ g.HasEdge a b := by
  simp [children, HasEdge, and_assoc]

@[simp]
theorem mem_parents {g : Graph ι} {a b : ι} : a ∈ g.parents b ↔ g.HasEdge a b := by
  simp only [parents, HasEdge, List.mem_map, List.mem_filter, beq_iff_eq]
  exact ⟨fun ⟨e, ⟨he, ht⟩, hs⟩ => ⟨e, he, hs, ht⟩, fun ⟨e, he, hs, ht⟩ => ⟨e, ⟨he, ht⟩, hs⟩⟩

@[simp]
theorem hasNode_iff {g : Graph ι} {id : ι} : g.hasNode id = true ↔ id ∈ g.nodeIds := by
  simp [hasNode, nodeIds]

theorem joins_iff {e : Edge ι} {a b : ι} : e.joins a b = true ↔ e.source = a ∧ e.target = b := by
  simp [Edge.joins]

theorem any_joins_iff {g : Graph ι} {a b : ι} : (g.edges.any fun e => e.joins a b) = true ↔ g.HasEdge a b := by
  simp [HasEdge, joins_iff]

/-! ### Adding -/

theorem nodeIds_addNode_of_mem {g : Graph ι} {id : ι} (h : id ∈ g.nodeIds) (attributes : Attributes) :
    (g.addNode id attributes).nodeIds = g.nodeIds := by
  rw [addNode, if_pos (hasNode_iff.mpr h), nodeIds, List.map_map, nodeIds]
  apply List.map_congr_left
  intro n _
  simp only [Function.comp]
  split <;> rfl

theorem nodeIds_addNode_of_not_mem {g : Graph ι} {id : ι} (h : id ∉ g.nodeIds) (attributes : Attributes) :
    (g.addNode id attributes).nodeIds = g.nodeIds ++ [id] := by
  rw [addNode, if_neg (mt hasNode_iff.mp h)]
  simp [nodeIds]

/-- An edge between two nodes that are there brings in no node. -/
theorem nodeIds_addEdge_of_mem {g : Graph ι} {a b : ι} (ha : a ∈ g.nodeIds) (hb : b ∈ g.nodeIds)
    (attributes : Attributes) : (g.addEdge a b attributes).nodeIds = g.nodeIds := by
  rw [nodeIds_addEdge, nodeIds_addNode_of_mem, nodeIds_addNode_of_mem ha]
  rwa [nodeIds_addNode_of_mem ha]

theorem mem_nodeIds_addNode {g : Graph ι} {id x : ι} {attributes : Attributes} :
    x ∈ (g.addNode id attributes).nodeIds ↔ x ∈ g.nodeIds ∨ x = id := by
  by_cases h : id ∈ g.nodeIds
  · rw [nodeIds_addNode_of_mem h]
    exact ⟨Or.inl, fun hx => hx.elim (fun hx => hx) fun hx => hx ▸ h⟩
  · rw [nodeIds_addNode_of_not_mem h, List.mem_append, List.mem_singleton]

theorem nodup_addNode {g : Graph ι} (h : g.nodeIds.Nodup) (id : ι) (attributes : Attributes) :
    (g.addNode id attributes).nodeIds.Nodup := by
  by_cases hid : id ∈ g.nodeIds
  · rwa [nodeIds_addNode_of_mem hid]
  · rw [nodeIds_addNode_of_not_mem hid]
    exact List.Nodup.append h (List.nodup_singleton id) (List.disjoint_singleton.mpr hid)

theorem edges_addEdge_of_not_hasEdge {g : Graph ι} {a b : ι} (h : ¬ g.HasEdge a b) (attributes : Attributes) :
    (g.addEdge a b attributes).edges = g.edges ++ [⟨a, b, attributes⟩] := by
  have hany : ¬ (((g.addNode a).addNode b).edges.any fun e => e.joins a b) = true := by
    rw [any_joins_iff, hasEdge_of_edges_eq (edges_addNode _ _ _), hasEdge_of_edges_eq (edges_addNode _ _ _)]
    exact h
  unfold addEdge
  simp only
  rw [if_neg hany]
  simp only [edges_addNode]

theorem hasEdge_addEdge {g : Graph ι} {a b x y : ι} {attributes : Attributes} :
    (g.addEdge a b attributes).HasEdge x y ↔ g.HasEdge x y ∨ x = a ∧ y = b := by
  by_cases h : g.HasEdge a b
  · have hany : (((g.addNode a).addNode b).edges.any fun e => e.joins a b) = true := by
      rw [any_joins_iff, hasEdge_of_edges_eq (edges_addNode _ _ _), hasEdge_of_edges_eq (edges_addNode _ _ _)]
      exact h
    -- an edge that is there takes over the attributes and keeps its ends
    have hends : ∀ e : Edge ι,
        (if e.joins a b then { e with attributes := e.attributes.merge attributes } else e).source = e.source ∧
        (if e.joins a b then { e with attributes := e.attributes.merge attributes } else e).target = e.target := by
      intro e
      split <;> exact ⟨rfl, rfl⟩
    have hsame : (g.addEdge a b attributes).HasEdge x y ↔ g.HasEdge x y := by
      unfold addEdge
      simp only
      rw [if_pos hany]
      simp only [HasEdge, List.mem_map, edges_addNode]
      constructor
      · rintro ⟨_, ⟨e, he, rfl⟩, hs, ht⟩
        exact ⟨e, he, (hends e).1.symm.trans hs, (hends e).2.symm.trans ht⟩
      · rintro ⟨e, he, hs, ht⟩
        exact ⟨_, ⟨e, he, rfl⟩, (hends e).1.trans hs, (hends e).2.trans ht⟩
    rw [hsame]
    exact ⟨Or.inl, fun hxy => hxy.elim (fun hxy => hxy) fun ⟨hx, hy⟩ => hx ▸ hy ▸ h⟩
  · rw [HasEdge, edges_addEdge_of_not_hasEdge h]
    simp only [List.mem_append, List.mem_singleton]
    constructor
    · rintro ⟨e, he | rfl, hs, ht⟩
      · exact Or.inl ⟨e, he, hs, ht⟩
      · exact Or.inr ⟨hs.symm, ht.symm⟩
    · rintro (⟨e, he, hs, ht⟩ | ⟨rfl, rfl⟩)
      · exact ⟨e, Or.inl he, hs, ht⟩
      · exact ⟨_, Or.inr rfl, rfl, rfl⟩

theorem parents_addEdge_self {g : Graph ι} {a b : ι} (h : ¬ g.HasEdge a b) (attributes : Attributes) :
    (g.addEdge a b attributes).parents b = g.parents b ++ [a] := by
  simp [parents, edges_addEdge_of_not_hasEdge h]

theorem parents_addEdge_of_ne {g : Graph ι} {a b c : ι} (h : ¬ g.HasEdge a b) (attributes : Attributes) (hc : c ≠ b) :
    (g.addEdge a b attributes).parents c = g.parents c := by
  simp [parents, edges_addEdge_of_not_hasEdge h, hc.symm]

theorem mem_nodeIds_addEdge {g : Graph ι} {a b x : ι} {attributes : Attributes} :
    x ∈ (g.addEdge a b attributes).nodeIds ↔ x ∈ g.nodeIds ∨ x = a ∨ x = b := by
  rw [nodeIds_addEdge, mem_nodeIds_addNode, mem_nodeIds_addNode, or_assoc]

theorem WellFormed.addEdge {g : Graph ι} (h : g.WellFormed) (a b : ι) (attributes : Attributes) :
    (g.addEdge a b attributes).WellFormed where
  nodup := by
    rw [nodeIds_addEdge]
    exact nodup_addNode (nodup_addNode h.nodup a []) b []
  source_mem := by
    intro x y hedge
    rw [mem_nodeIds_addEdge]
    rcases hasEdge_addEdge.mp hedge with hxy | ⟨hx, _⟩
    · exact Or.inl (h.source_mem hxy)
    · exact Or.inr (Or.inl hx)
  target_mem := by
    intro x y hedge
    rw [mem_nodeIds_addEdge]
    rcases hasEdge_addEdge.mp hedge with hxy | ⟨_, hy⟩
    · exact Or.inl (h.target_mem hxy)
    · exact Or.inr (Or.inr hy)

/-! ### Removing -/

theorem hasEdge_removeEdge {g : Graph ι} {a b x y : ι} :
    (g.removeEdge a b).HasEdge x y ↔ g.HasEdge x y ∧ ¬ (x = a ∧ y = b) := by
  simp only [HasEdge, removeEdge, List.mem_filter, Bool.not_eq_true']
  constructor
  · rintro ⟨e, ⟨he, hjoins⟩, rfl, rfl⟩
    refine ⟨⟨e, he, rfl, rfl⟩, fun hab => ?_⟩
    rw [joins_iff.mpr hab] at hjoins
    cases hjoins
  · rintro ⟨⟨e, he, rfl, rfl⟩, hne⟩
    exact ⟨e, ⟨he, Bool.eq_false_iff.mpr (mt joins_iff.mp hne)⟩, rfl, rfl⟩

theorem parents_removeEdge_of_ne (g : Graph ι) {a b c : ι} (hc : c ≠ b) :
    (g.removeEdge a b).parents c = g.parents c := by
  simp only [parents, removeEdge, List.filter_filter]
  apply congrArg
  apply List.filter_congr
  intro e _
  by_cases ht : e.target = c
  · simp [Edge.joins, ht, hc]
  · simp [ht]

/-- A node that stays keeps the parents that stay. -/
theorem parents_removeNodes (g : Graph ι) {ids : List ι} {c : ι} (hc : c ∉ ids) :
    (g.removeNodes ids).parents c = (g.parents c).filter fun a => !ids.contains a := by
  simp only [parents, removeNodes, List.filter_filter, List.filter_map]
  apply congrArg
  apply List.filter_congr
  intro e _
  by_cases ht : e.target = c
  · simp [ht, hc]
  · simp [beq_eq_false_iff_ne.mpr ht]

theorem mem_nodeIds_removeNodes {g : Graph ι} {ids : List ι} {x : ι} :
    x ∈ (g.removeNodes ids).nodeIds ↔ x ∈ g.nodeIds ∧ x ∉ ids := by
  simp [nodeIds_removeNodes]

theorem hasEdge_removeNodes {g : Graph ι} {ids : List ι} {x y : ι} :
    (g.removeNodes ids).HasEdge x y ↔ g.HasEdge x y ∧ x ∉ ids ∧ y ∉ ids := by
  simp only [HasEdge, removeNodes, List.mem_filter, Bool.and_eq_true, Bool.not_eq_true', List.contains_eq_mem,
    decide_eq_false_iff_not]
  constructor
  · rintro ⟨e, ⟨he, hs, ht⟩, rfl, rfl⟩
    exact ⟨⟨e, he, rfl, rfl⟩, hs, ht⟩
  · rintro ⟨⟨e, he, rfl, rfl⟩, hs, ht⟩
    exact ⟨e, ⟨he, hs, ht⟩, rfl, rfl⟩

theorem WellFormed.removeEdge {g : Graph ι} (h : g.WellFormed) (a b : ι) : (g.removeEdge a b).WellFormed where
  nodup := h.nodup
  source_mem hedge := h.source_mem (hasEdge_removeEdge.mp hedge).1
  target_mem hedge := h.target_mem (hasEdge_removeEdge.mp hedge).1

theorem WellFormed.removeNodes {g : Graph ι} (h : g.WellFormed) (ids : List ι) : (g.removeNodes ids).WellFormed where
  nodup := by
    rw [nodeIds_removeNodes]
    exact h.nodup.filter _
  source_mem hedge := by
    obtain ⟨hedge, hs, _⟩ := hasEdge_removeNodes.mp hedge
    exact mem_nodeIds_removeNodes.mpr ⟨h.source_mem hedge, hs⟩
  target_mem hedge := by
    obtain ⟨hedge, _, ht⟩ := hasEdge_removeNodes.mp hedge
    exact mem_nodeIds_removeNodes.mpr ⟨h.target_mem hedge, ht⟩

end StartNodes.Graph
