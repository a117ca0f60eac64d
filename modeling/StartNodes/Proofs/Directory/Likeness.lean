import StartNodes.Proofs.Directory.Ancestry
import StartNodes.Directory.Snapshot

/-!
Graphs that differ only in how the edges of different nodes are interleaved. A snapshot lists the edges of a graph node by
node, so this is how a graph that has been read from a snapshot may differ from the graph that was written. No edit and no
path tells two such trees apart, and both are written in the same way.
-/

namespace StartNodes

namespace Graph

/-- Two graphs have the same nodes in the same order, and every node has the same outgoing edges in the same order. -/
structure Like (g h : Graph NodeId) : Prop where
  nodes : g.nodes = h.nodes
  attributes : g.attributes = h.attributes
  outgoing : ∀ id, g.edges.filter (fun e => e.source == id) = h.edges.filter (fun e => e.source == id)

variable {g h k : Graph NodeId}

namespace Like

theorem refl (g : Graph NodeId) : g.Like g :=
  ⟨rfl, rfl, fun _ => rfl⟩

theorem symm (hl : g.Like h) : h.Like g :=
  ⟨hl.nodes.symm, hl.attributes.symm, fun id => (hl.outgoing id).symm⟩

theorem trans (hl : g.Like h) (hr : h.Like k) : g.Like k :=
  ⟨hl.nodes.trans hr.nodes, hl.attributes.trans hr.attributes, fun id => (hl.outgoing id).trans (hr.outgoing id)⟩

/-! ### What cannot be told apart -/

theorem nodeIds_eq (hl : g.Like h) : g.nodeIds = h.nodeIds := by
  rw [nodeIds, hl.nodes, nodeIds]

theorem hasNode_eq (hl : g.Like h) (id : NodeId) : g.hasNode id = h.hasNode id := by
  rw [hasNode, hl.nodes, hasNode]

theorem children_eq (hl : g.Like h) : g.children = h.children := by
  funext id
  rw [children, hl.outgoing, children]

theorem hasEdge_iff (hl : g.Like h) {a b : NodeId} : g.HasEdge a b ↔ h.HasEdge a b := by
  rw [← mem_children, hl.children_eq, mem_children]

theorem meet_eq (hl : g.Like h) (fuel : Nat) (frontier seen : List NodeId) :
    g.meet fuel frontier seen = h.meet fuel frontier seen := by
  induction fuel generalizing frontier seen with
  | zero => rfl
  | succ fuel ih => simp only [meet, hl.children_eq, ih]

theorem subtree_eq (hl : g.Like h) (id : NodeId) : g.subtree id = h.subtree id := by
  rw [subtree, subtree, hl.meet_eq, hl.nodes]

theorem lineage (hl : g.Like h) {source id : NodeId} {chain : List NodeId} (hc : g.Lineage source id chain) :
    h.Lineage source id chain :=
  hc.keep fun _ _ _ hedge _ => hl.hasEdge_iff.mp hedge

/-- In trees every node has the same parents: there is at most one. -/
theorem parents_eq {root : NodeId} (hl : g.Like h) (hg : g.IsTree root) (hh : h.IsTree root) (id : NodeId) :
    g.parents id = h.parents id := by
  by_cases hparent : ∃ parent, g.HasEdge parent id
  · obtain ⟨parent, hedge⟩ := hparent
    rw [hg.parents_of_hasEdge hedge, hh.parents_of_hasEdge (hl.hasEdge_iff.mp hedge)]
  · have hnone : ∀ parent, ¬ g.HasEdge parent id := fun parent hedge => hparent ⟨parent, hedge⟩
    rw [List.eq_nil_iff_forall_not_mem.mpr fun a ha => hnone a (mem_parents.mp ha),
      List.eq_nil_iff_forall_not_mem.mpr fun a ha => hnone a (hl.hasEdge_iff.mpr (mem_parents.mp ha))]

/-- Both graphs are written in the same way. -/
theorem toJson_eq (hl : g.Like h) : g.toJson = h.toJson := by
  have hgrouped : g.groupedEdges = h.groupedEdges := by
    rw [groupedEdges, groupedEdges, hl.nodes]
    exact List.flatMap_congr fun n _ => by rw [hl.outgoing]
  rw [toJson, toJson, hl.nodes, hl.attributes, hgrouped]

/-! ### Changes -/

theorem addNode (hl : g.Like h) (id : NodeId) (attributes : Attributes) :
    (g.addNode id attributes).Like (h.addNode id attributes) := by
  refine ⟨?_, ?_, fun x => ?_⟩
  · unfold Graph.addNode
    rw [hl.hasNode_eq]
    split
    · exact congrArg (List.map _) hl.nodes
    · exact congrArg (· ++ _) hl.nodes
  · unfold Graph.addNode
    split <;> split <;> exact hl.attributes
  · rw [edges_addNode, edges_addNode, hl.outgoing]

theorem addEdge (hl : g.Like h) (a b : NodeId) (hnew : ¬ g.HasEdge a b) : (g.addEdge a b).Like (h.addEdge a b) := by
  have hends := (hl.addNode a []).addNode b []
  have hnew' := mt hl.hasEdge_iff.mpr hnew
  refine ⟨?_, ?_, fun x => ?_⟩
  · unfold Graph.addEdge
    simp only
    split <;> split <;> exact hends.nodes
  · unfold Graph.addEdge
    simp only
    split <;> split <;> exact hends.attributes
  · rw [edges_addEdge_of_not_hasEdge hnew, edges_addEdge_of_not_hasEdge hnew', List.filter_append, List.filter_append,
      hl.outgoing]

/-- Edges taken out of both graphs by the same test. -/
theorem filter_edges (hl : g.Like h) (keep : Edge NodeId → Bool) (id : NodeId) :
    (g.edges.filter keep).filter (fun e => e.source == id) = (h.edges.filter keep).filter fun e => e.source == id := by
  rw [List.filter_comm, hl.outgoing, List.filter_comm]

theorem removeEdge (hl : g.Like h) (a b : NodeId) : (g.removeEdge a b).Like (h.removeEdge a b) :=
  ⟨hl.nodes, hl.attributes, hl.filter_edges _⟩

theorem removeNodes (hl : g.Like h) (ids : List NodeId) : (g.removeNodes ids).Like (h.removeNodes ids) :=
  ⟨congrArg (List.filter _) hl.nodes, hl.attributes, hl.filter_edges _⟩

/-! ### Edits -/

variable {kind : Hierarchy}

theorem add (hl : g.Like h) (hg : g.IsTreeOf kind) (id parent : NodeId) :
    (g.add kind id parent).1 = (h.add kind id parent).1 ∧
      (g.add kind id parent).2.Like (h.add kind id parent).2 := by
  unfold Graph.add newRefusal?
  rw [hl.hasNode_eq, hl.hasNode_eq]
  by_cases hreserved : id ∈ kind.reserved
  · rw [if_pos (contains_reserved.mpr hreserved)]
    exact ⟨rfl, hl⟩
  rw [if_neg (mt contains_reserved.mp hreserved)]
  by_cases hid : h.hasNode id = true
  · rw [if_pos hid]
    exact ⟨rfl, hl⟩
  rw [if_neg hid]
  have hnew : ¬ g.HasEdge parent id := hg.not_hasEdge_of_not_mem (mt hasNode_iff.mpr (hl.hasNode_eq id ▸ hid))
  simp only
  split
  · exact ⟨rfl, hl⟩
  · exact ⟨rfl, hl.addEdge parent id hnew⟩

theorem move (hl : g.Like h) (hg : g.IsTreeOf kind) (hh : h.IsTreeOf kind) (id parent : NodeId) :
    (g.move kind id parent).1 = (h.move kind id parent).1 ∧
      (g.move kind id parent).2.Like (h.move kind id parent).2 := by
  unfold Graph.move
  rw [hl.hasNode_eq, hl.hasNode_eq, hl.subtree_eq, hl.parents_eq hg.toIsTree hh.toIsTree]
  split
  · exact ⟨rfl, hl⟩
  split
  · exact ⟨rfl, hl⟩
  split
  · exact ⟨rfl, hl⟩
  split
  · exact ⟨rfl, hl⟩
  split
  · exact ⟨rfl, hl⟩
  · next old others hparents =>
    have hold : g.HasEdge old id := hl.hasEdge_iff.mpr (mem_parents.mp (hparents ▸ List.mem_cons_self))
    exact ⟨rfl, (hl.removeEdge old id).addEdge parent id (hg.not_hasEdge_removeEdge hold)⟩

theorem remove (hl : g.Like h) (id : NodeId) :
    (g.remove kind id).1 = (h.remove kind id).1 ∧ (g.remove kind id).2.Like (h.remove kind id).2 := by
  unfold Graph.remove
  rw [hl.hasNode_eq, hl.subtree_eq]
  split
  · exact ⟨rfl, hl⟩
  split
  · exact ⟨rfl, hl⟩
  · exact ⟨rfl, hl.removeNodes _⟩

/-- An edit of two trees that are like each other ends in the same way, and they stay so. -/
theorem edit (hl : g.Like h) (hg : g.IsTreeOf kind) (hh : h.IsTreeOf kind) (e : Edit NodeId) :
    (g.edit kind e).1 = (h.edit kind e).1 ∧ (g.edit kind e).2.Like (h.edit kind e).2 := by
  cases e with
  | add id parent => exact hl.add hg id parent
  | move id parent => exact hl.move hg hh id parent
  | trash id => exact hl.move hg hh id kind.binId
  | remove id => exact hl.remove id

end Like

end Graph

namespace Directory

open StartNodes.Graph

variable {d d' : Directory NodeId}

/-- Two directories have graphs that are like each other. -/
def Like (d d' : Directory NodeId) : Prop :=
  ∀ kind, (d.tree kind).Like (d'.tree kind)

namespace Like

theorem refl (d : Directory NodeId) : d.Like d :=
  fun _ => Graph.Like.refl _

theorem symm (hl : d.Like d') : d'.Like d :=
  fun kind => (hl kind).symm

theorem trans {d'' : Directory NodeId} (hl : d.Like d') (hr : d'.Like d'') : d.Like d'' :=
  fun kind => (hl kind).trans (hr kind)

theorem path?_eq (hl : d.Like d') (h : d.HasTrees) (h' : d'.HasTrees) (kind : Hierarchy) (id : NodeId) :
    d.path? kind id = d'.path? kind id := by
  by_cases hid : id ∈ (d.tree kind).nodeIds
  · obtain ⟨chain, hchain⟩ := (h kind).exists_lineage hid
    rw [path?_of_lineage (h kind).toIsTree hchain, path?_of_lineage (h' kind).toIsTree ((hl kind).lineage hchain)]
  · rw [path?_of_not_mem hid, path?_of_not_mem ((hl kind).nodeIds_eq ▸ hid)]

theorem paths_eq (hl : d.Like d') (h : d.HasTrees) (h' : d'.HasTrees) (kind : Hierarchy) (ids : List NodeId) :
    d.paths kind ids = d'.paths kind ids := by
  induction ids with
  | nil => rfl
  | cons id ids ih => rw [paths, paths, hl.path?_eq h h', ih]

theorem save_eq (hl : d.Like d') : d.save = d'.save := by
  have hsections : (fun kind : Hierarchy => (kind.name, (d.tree kind).toJson)) =
      fun kind => (kind.name, (d'.tree kind).toJson) :=
    funext fun kind => by rw [(hl kind).toJson_eq]
  rw [save, save, toJson, toJson, hsections]

theorem setTree (hl : d.Like d') (kind : Hierarchy) {g g' : Graph NodeId} (hg : g.Like g') :
    (d.setTree kind g).Like (d'.setTree kind g') := by
  intro other
  by_cases hother : kind = other
  · subst hother
    rwa [tree_setTree, tree_setTree]
  · rw [tree_setTree_of_ne hother, tree_setTree_of_ne hother]
    exact hl other

/-- An edit of two directories that are like each other ends in the same way, and they stay so. -/
theorem edit (hl : d.Like d') (h : d.HasTrees) (h' : d'.HasTrees) (kind : Hierarchy) (e : Edit NodeId) :
    (d.edit kind e).1 = (d'.edit kind e).1 ∧ (d.edit kind e).2.Like (d'.edit kind e).2 := by
  obtain ⟨houtcome, hgraph⟩ := (hl kind).edit (h kind) (h' kind) e
  exact ⟨houtcome, hl.setTree kind hgraph⟩

end Like

end Directory

end StartNodes
