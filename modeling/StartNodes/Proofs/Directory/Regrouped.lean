import StartNodes.Proofs.Directory.Likeness
import StartNodes.Proofs.Json.RoundTrip

/-!
What loading a saved directory gives. A snapshot lists the edges of a graph grouped by their sources, and reading it adds
its nodes and edges one at a time, so the graph that is read has the nodes as they were and the edges in groups. For a
tree this is a graph like the one that was written.
-/

namespace StartNodes

open Decimal

namespace Graph

variable {g : Graph NodeId}

/-- The graph with its edges grouped by their sources, as a snapshot lists them. -/
def regrouped (g : Graph NodeId) : Graph NodeId :=
  { g with edges := g.groupedEdges }

/-- What a snapshot keeps as it is: a graph whose nodes are not too long to be read and that carries no attributes. -/
structure IsStorable (g : Graph NodeId) : Prop where
  short : ∀ id ∈ g.nodeIds, digitCount id ≤ maxDigits
  bare : g.attributes = .obj []
  bare_nodes : ∀ n ∈ g.nodes, n.attributes = []
  bare_edges : ∀ e ∈ g.edges, e.attributes = []

/-! ### Edges in groups -/

theorem groupedEdges_eq (g : Graph NodeId) :
    g.groupedEdges = g.nodeIds.flatMap fun id => g.edges.filter fun e => e.source == id := by
  rw [groupedEdges, nodeIds, List.flatMap_map]
  refine List.flatMap_congr fun n _ => ?_
  conv_rhs => rw [← List.map_id (g.edges.filter fun e => e.source == n.id)]
  refine List.map_congr_left fun e he => ?_
  rw [← beq_iff_eq.mp (List.mem_filter.mp he).2]
  rfl

theorem WellFormed.source_mem_of_mem (h : g.WellFormed) : ∀ e ∈ g.edges, e.source ∈ g.nodeIds :=
  fun e he => h.source_mem ⟨e, he, rfl, rfl⟩

theorem WellFormed.groupedEdges_perm (h : g.WellFormed) : g.groupedEdges.Perm g.edges := by
  rw [groupedEdges_eq]
  exact flatMap_filter_perm Edge.source h.nodup h.source_mem_of_mem

/-- Grouping its edges makes a graph like the one it was. -/
theorem WellFormed.like_regrouped (h : g.WellFormed) : g.Like g.regrouped := by
  refine ⟨rfl, rfl, fun id => ?_⟩
  rw [regrouped, groupedEdges_eq]
  exact (filter_flatMap_filter Edge.source h.nodup h.source_mem_of_mem id).symm

theorem IsTree.regrouped {root : NodeId} (h : g.IsTree root) : g.regrouped.IsTree root := by
  have hl := h.toWellFormed.like_regrouped
  have hparents : ∀ id, (g.regrouped.parents id).Perm (g.parents id) :=
    fun id => (h.toWellFormed.groupedEdges_perm.filter _).map _
  refine ⟨⟨h.nodup, ?_, ?_⟩, h.root_mem, ?_, fun id hid hne => ?_, fun id hid => ?_⟩
  · exact fun hedge => h.source_mem (hl.hasEdge_iff.mpr hedge)
  · exact fun hedge => h.target_mem (hl.hasEdge_iff.mpr hedge)
  · exact List.perm_nil.mp (h.parents_root ▸ hparents root)
  · obtain ⟨parent, hparent⟩ := h.parents_eq id hid hne
    exact ⟨parent, List.perm_singleton.mp (hparent ▸ hparents id)⟩
  · exact (h.reaches id hid).mono fun a b => hl.hasEdge_iff.mp

theorem IsTreeOf.regrouped {kind : Hierarchy} (h : g.IsTreeOf kind) : g.regrouped.IsTreeOf kind := by
  have htree := h.toIsTree.regrouped
  refine ⟨htree, ?_⟩
  rw [← h.toWellFormed.like_regrouped.parents_eq h.toIsTree htree]
  exact h.parents_bin

/-- No two edges of a tree have the same ends: a node has one parent at most. -/
theorem IsTree.pairwise_ends {root : NodeId} (h : g.IsTree root) :
    g.edges.Pairwise fun e f => ¬ (e.source = f.source ∧ e.target = f.target) := by
  have hnodup : (g.edges.map Edge.target).Nodup := by
    rw [List.nodup_iff_count_le_one]
    intro id
    have hcount : (g.edges.map Edge.target).count id = (g.parents id).length := by
      rw [parents, List.length_map, ← List.countP_eq_length_filter, List.count, List.countP_map]
      rfl
    rw [hcount]
    by_cases hid : ∃ parent, g.HasEdge parent id
    · obtain ⟨parent, hedge⟩ := hid
      rw [h.parents_of_hasEdge hedge, List.length_singleton]
    · rw [List.eq_nil_iff_forall_not_mem.mpr fun a ha => hid ⟨a, mem_parents.mp ha⟩]
      exact Nat.zero_le 1
  rw [List.nodup_iff_pairwise_ne, List.pairwise_map] at hnodup
  exact hnodup.imp fun hne hends => hne hends.2

/-! ### Reading back -/

theorem addNode_of_mem {id : NodeId} (hid : id ∈ g.nodeIds) : g.addNode id = g := by
  have hsame : ∀ n ∈ g.nodes, (if n.id == id then { n with attributes := n.attributes.merge [] } else n) = n :=
    fun n _ => ite_self n
  rw [addNode, if_pos (hasNode_iff.mpr hid), List.map_congr_left hsame, List.map_id']

theorem addEdge_of_mem {a b : NodeId} (ha : a ∈ g.nodeIds) (hb : b ∈ g.nodeIds) (hnew : ¬ g.HasEdge a b) :
    g.addEdge a b = { g with edges := g.edges ++ [⟨a, b, []⟩] } := by
  unfold addEdge
  simp only
  rw [addNode_of_mem ha, addNode_of_mem hb, if_neg (mt any_joins_iff.mp hnew)]

theorem readNode_nodeJson (g : Graph NodeId) (index : Nat) {n : Node NodeId} (hn : n.attributes = []) :
    g.readNode index (nodeJson n) = .ok (g.addNode n.id) := by
  rw [nodeJson, hn]
  rfl

theorem readLink_linkJson (g : Graph NodeId) {e : Edge NodeId} (he : e.attributes = []) :
    g.readLink (linkJson e) = .ok (g.addEdge e.source e.target) := by
  rw [linkJson, he]
  rfl

/-- Nodes that are told apart are read one behind the other. -/
theorem foldlM_readNode {nodes : List (Node NodeId)} (hbare : ∀ n ∈ nodes, n.attributes = []) (first : Nat)
    (hnodup : (g.nodeIds ++ nodes.map Node.id).Nodup) :
    ((nodes.map nodeJson).zipIdx first).foldlM (fun soFar row => readNode soFar row.2 row.1) g =
      .ok { g with nodes := g.nodes ++ nodes } := by
  induction nodes generalizing g first with
  | nil =>
    rw [List.append_nil]
    rfl
  | cons n nodes ih =>
    obtain ⟨hn, hbare⟩ := List.forall_mem_cons.mp hbare
    have hnew : n.id ∉ g.nodeIds :=
      fun hmem => (List.nodup_append.mp hnodup).2.2 _ hmem _ List.mem_cons_self rfl
    have hadded : g.addNode n.id = { g with nodes := g.nodes ++ [n] } := by
      rw [addNode, if_neg (mt hasNode_iff.mp hnew), ← hn]
    rw [List.map_cons, List.zipIdx_cons, List.foldlM_cons, readNode_nodeJson g first hn, hadded]
    have hrest : ((nodes.map nodeJson).zipIdx (first + 1)).foldlM (fun soFar row => readNode soFar row.2 row.1)
        { g with nodes := g.nodes ++ [n] } = .ok { g with nodes := (g.nodes ++ [n]) ++ nodes } := by
      refine ih hbare (first + 1) ?_
      rwa [nodeIds, List.map_append, List.map_singleton, List.append_assoc, List.singleton_append]
    rw [List.append_cons g.nodes n nodes]
    exact hrest

/-- Edges between nodes that are there, no two with the same ends, are read one behind the other. -/
theorem foldlM_readLink {edges : List (Edge NodeId)} (hbare : ∀ e ∈ edges, e.attributes = []) (first : Nat)
    (hends : ∀ e ∈ edges, e.source ∈ g.nodeIds ∧ e.target ∈ g.nodeIds)
    (hapart : (g.edges ++ edges).Pairwise fun e f => ¬ (e.source = f.source ∧ e.target = f.target)) :
    ((edges.map linkJson).zipIdx first).foldlM (fun soFar row => readLink soFar row.1) g =
      .ok { g with edges := g.edges ++ edges } := by
  induction edges generalizing g first with
  | nil =>
    rw [List.append_nil]
    rfl
  | cons e edges ih =>
    obtain ⟨he, hbare⟩ := List.forall_mem_cons.mp hbare
    obtain ⟨⟨hsource, htarget⟩, hends⟩ := List.forall_mem_cons.mp hends
    have hnew : ¬ g.HasEdge e.source e.target := by
      rintro ⟨f, hf, hs, ht⟩
      exact (List.pairwise_append.mp hapart).2.2 f hf e List.mem_cons_self ⟨hs, ht⟩
    have hadded : g.addEdge e.source e.target = { g with edges := g.edges ++ [e] } := by
      rw [addEdge_of_mem hsource htarget hnew, ← he]
    rw [List.map_cons, List.zipIdx_cons, List.foldlM_cons, readLink_linkJson g he, hadded]
    have hrest : ((edges.map linkJson).zipIdx (first + 1)).foldlM (fun soFar row => readLink soFar row.1)
        { g with edges := g.edges ++ [e] } = .ok { g with edges := (g.edges ++ [e]) ++ edges } := by
      refine ih hbare (first + 1) hends ?_
      rwa [List.append_assoc, List.singleton_append]
    rw [List.append_cons g.edges e edges]
    exact hrest

/-- A tree without attributes reads back from its section with its edges in groups. -/
theorem ofJson_toJson {root : NodeId} (htree : g.IsTree root) (h : g.IsStorable) :
    ofJson g.toJson = .ok g.regrouped := by
  have hperm := htree.toWellFormed.groupedEdges_perm
  have hnodes : listed readNode { attributes := g.attributes } (.arr (g.nodes.map nodeJson)) =
      .ok { nodes := g.nodes, attributes := g.attributes } :=
    foldlM_readNode h.bare_nodes 0 htree.nodup
  have hlinks : listed (fun g _ value => g.readLink value) { nodes := g.nodes, attributes := g.attributes }
      (.arr (g.groupedEdges.map linkJson)) = .ok g.regrouped := by
    refine foldlM_readLink (fun e he => h.bare_edges e (hperm.mem_iff.mp he)) 0 (fun e he => ?_) ?_
    · have hedge : g.HasEdge e.source e.target := ⟨e, hperm.mem_iff.mp he, rfl, rfl⟩
      exact ⟨htree.source_mem hedge, htree.target_mem hedge⟩
    · exact hperm.symm.pairwise htree.pairwise_ends fun hne hends => hne ⟨hends.1.symm, hends.2.symm⟩
  show (listed readNode { attributes := g.attributes } (.arr (g.nodes.map nodeJson)) >>= fun soFar : Graph NodeId =>
    listed (fun g _ value => g.readLink value) soFar (.arr (g.groupedEdges.map linkJson))) = _
  rw [hnodes]
  exact hlinks

/-! ### The text -/

theorem fits_snapshotRules {digits : Nat} (h : digits ≤ maxDigits) : Json.Fits Directory.snapshotRules digits :=
  ⟨h, nofun⟩

theorem legible_int {depth : Nat} (hdepth : depth ≤ Directory.snapshotRules.maxDepth) {id : NodeId}
    (h : digitCount id ≤ maxDigits) : Json.Legible Directory.snapshotRules depth (NodeName.toJson id) :=
  .int hdepth (fits_snapshotRules h)

/-- The section of a tree can be read at the depth at which it stands in a snapshot. -/
theorem IsStorable.legible (h : g.IsStorable) (hg : g.WellFormed) :
    Json.Legible Directory.snapshotRules 1 g.toJson := by
  have hnode : ∀ item ∈ g.nodes.map nodeJson, Json.Legible Directory.snapshotRules 3 item := by
    intro item hitem
    obtain ⟨n, hn, rfl⟩ := List.mem_map.mp hitem
    rw [nodeJson, h.bare_nodes n hn, List.nil_append]
    refine .obj_of_keys ["id"] (by decide) rfl (by decide) (by decide) fun m hm => ?_
    rw [List.mem_singleton.mp hm]
    exact legible_int (by decide) (h.short n.id (List.mem_map_of_mem hn))
  have hlink : ∀ item ∈ g.groupedEdges.map linkJson, Json.Legible Directory.snapshotRules 3 item := by
    intro item hitem
    obtain ⟨e, he, rfl⟩ := List.mem_map.mp hitem
    have he := hg.groupedEdges_perm.mem_iff.mp he
    have hedge : g.HasEdge e.source e.target := ⟨e, he, rfl, rfl⟩
    rw [linkJson, h.bare_edges e he, List.nil_append]
    refine .obj_of_keys ["source", "target"] (by decide) rfl (by decide) (by decide) ?_
    rw [List.forall_mem_cons, List.forall_mem_singleton]
    exact ⟨legible_int (by decide) (h.short _ (hg.source_mem hedge)),
      legible_int (by decide) (h.short _ (hg.target_mem hedge))⟩
  refine .obj_of_keys ["directed", "multigraph", "graph", "nodes", "links"] (by decide) rfl (by decide) (by decide) ?_
  rw [h.bare]
  simp only [List.forall_mem_cons]
  exact ⟨.bool (by decide) true, .bool (by decide) false, .obj (by decide) (by decide) nofun nofun,
    .arr (by decide) hnode, .arr (by decide) hlink, nofun⟩

end Graph

namespace Directory

open StartNodes.Graph

variable {d : Directory NodeId}

/-- What a snapshot keeps as it is: a directory of trees that a snapshot can hold. -/
structure IsStorable (d : Directory NodeId) : Prop where
  trees : d.HasTrees
  storable : ∀ kind, (d.tree kind).IsStorable

/-- The directory with its edges grouped by their sources. -/
def regrouped (d : Directory NodeId) : Directory NodeId :=
  ⟨d.content.regrouped, d.media.regrouped⟩

theorem tree_regrouped (d : Directory NodeId) (kind : Hierarchy) :
    d.regrouped.tree kind = (d.tree kind).regrouped := by
  cases kind <;> rfl

theorem IsStorable.legible (h : d.IsStorable) : Json.Legible snapshotRules 0 d.toJson := by
  refine .obj_of_keys ["CONTENT", "MEDIA"] (by decide) rfl (by decide) (by decide) ?_
  simp only [Hierarchy.all, List.map_cons, List.map_nil, List.forall_mem_cons]
  exact ⟨(h.storable .content).legible (h.trees .content).toWellFormed,
    (h.storable .media).legible (h.trees .media).toWellFormed, nofun⟩

theorem loadSection_toJson (h : d.IsStorable) (other : Directory NodeId) (kind : Hierarchy) :
    other.loadSection d.toJson kind = .ok (other.setTree kind (d.tree kind).regrouped) := by
  have hsection : sectionOf? d.toJson kind = .ok (some (d.tree kind).toJson) := by
    cases kind <;> rfl
  have hread : Graph.ofJson (d.tree kind).toJson = .ok (d.tree kind).regrouped :=
    ofJson_toJson (h.trees kind).toIsTree (h.storable kind)
  rw [loadSection, hsection]
  show (Graph.ofJson (d.tree kind).toJson >>= fun g => pure (other.setTree kind g)) = _
  rw [hread]
  rfl

/-- Whatever directory a saved directory is loaded into becomes the saved one, with its edges in groups. -/
theorem load_save (h : d.IsStorable) (other : Directory NodeId) : other.load d.save = (none, d.regrouped) := by
  rw [load, save, Json.read_write h.legible]
  simp only [Hierarchy.all, loadSections, loadSection_toJson h]
  rfl

theorem IsStorable.like_regrouped (h : d.IsStorable) : d.Like d.regrouped := by
  intro kind
  rw [tree_regrouped]
  exact (h.trees kind).toWellFormed.like_regrouped

theorem IsStorable.regrouped (h : d.IsStorable) : d.regrouped.IsStorable := by
  refine ⟨fun kind => ?_, fun kind => ?_⟩
  · rw [tree_regrouped]
    exact (h.trees kind).regrouped
  · rw [tree_regrouped]
    have hperm := (h.trees kind).toWellFormed.groupedEdges_perm
    have hs := h.storable kind
    exact ⟨hs.short, hs.bare, hs.bare_nodes, fun e he => hs.bare_edges e (hperm.mem_iff.mp he)⟩

end Directory

end StartNodes
