import StartNodes.Proofs.Directory.Edits
import StartNodes.Proofs.Path.Codec

/-!
Paths and descent. The path of a node in a tree is its lineage, joined, so paths can stand for nodes: the path under
which a node lies says which nodes lie above it.
-/

namespace StartNodes.Directory

open StartNodes.Graph Decimal

section Congr

variable {ι : Type} [BEq ι] [NodeName ι] {kind : Hierarchy} {d d' : Directory ι}

theorem path?_congr (h : d'.tree kind = d.tree kind) (id : ι) : d'.path? kind id = d.path? kind id := by
  unfold path?
  rw [h]

/-- A table of paths depends on the paths of the nodes that are asked for. -/
theorem paths_eq_of_path? {ids : List ι} (h : ∀ id ∈ ids, d'.path? kind id = d.path? kind id) :
    d'.paths kind ids = d.paths kind ids := by
  induction ids with
  | nil => rfl
  | cons id ids ih =>
      obtain ⟨hid, hids⟩ := List.forall_mem_cons.mp h
      rw [paths, paths, hid, ih hids]

theorem paths_congr (h : d'.tree kind = d.tree kind) (ids : List ι) : d'.paths kind ids = d.paths kind ids :=
  paths_eq_of_path? fun id _ => path?_congr h id

end Congr

variable {d : Directory NodeId} {kind : Hierarchy}

/-- The path of a node in a tree is its lineage, joined. -/
theorem path?_of_lineage (h : (d.tree kind).IsTree rootId) {id : NodeId} {chain : List NodeId}
    (hc : (d.tree kind).Lineage rootId id chain) : d.path? kind id = .ok (some (Path.join chain)) := by
  have hpath : (d.tree kind).shortestPath NodeName.root id = .ok chain := h.shortestPath_of_lineage hc
  unfold path?
  simp only
  rw [if_pos (hasNode_iff.mpr (h.mem_of_lineage hc)), hpath]
  rfl

theorem path?_of_not_mem {id : NodeId} (hid : id ∉ (d.tree kind).nodeIds) : d.path? kind id = .ok none := by
  unfold path?
  simp only
  rw [if_neg (mt hasNode_iff.mp hid)]

/-- A node that has a path is in the tree, and the path is its lineage, joined. -/
theorem exists_lineage_of_path? (h : (d.tree kind).IsTree rootId) {id : NodeId} {path : String}
    (hpath : d.path? kind id = .ok (some path)) :
    ∃ chain, (d.tree kind).Lineage rootId id chain ∧ path = Path.join chain := by
  by_cases hid : id ∈ (d.tree kind).nodeIds
  · obtain ⟨chain, hchain⟩ := h.exists_lineage hid
    rw [path?_of_lineage h hchain] at hpath
    exact ⟨chain, hchain, (Option.some.inj (Except.ok.inj hpath)).symm⟩
  · rw [path?_of_not_mem hid] at hpath
    cases hpath

theorem join_root : Path.join [rootId] = "-1" := by
  rw [Path.join_singleton]
  decide

/-- In a directory whose nodes are not too long to be read, none above a node is. -/
theorem digitCount_le_of_reaches (edits : List (Hierarchy × Edit NodeId)) {id x : NodeId}
    (hall : ∀ x ∈ (((seeded : Directory NodeId).after edits).tree kind).nodeIds, digitCount x ≤ maxDigits)
    (hid : id ∈ (((seeded : Directory NodeId).after edits).tree kind).nodeIds)
    (hx : (((seeded : Directory NodeId).after edits).tree kind).Reaches x id) : digitCount x ≤ maxDigits :=
  hall x (hx.source_mem (hasTrees_after_seeded edits kind).toWellFormed hid)

/-- Whatever edits have been tried on the directory, the path of a node spells its descent: the root's is `-1`, every
other's is that of its parent with the node behind it. It reads back as the nodes from the root down to the node, as
long as none of them is too long to be read; no other node has the same path; and one path is under another exactly
if the one node lies below the other. -/
theorem path_spells_descent (edits : List (Hierarchy × Edit NodeId)) (kind : Hierarchy) (a b : NodeId) :
    let d := (seeded : Directory NodeId).after edits
    let g := d.tree kind
    a ∈ g.nodeIds → b ∈ g.nodeIds → (∀ x, g.Reaches x a → digitCount x ≤ maxDigits) →
      ∃ pa pb, d.path? kind a = .ok (some pa) ∧ d.path? kind b = .ok (some pb) ∧
        (a = rootId → pa = "-1") ∧
        (∀ parent, g.HasEdge parent a →
          ∃ pp, d.path? kind parent = .ok (some pp) ∧ pa = pp ++ "," ++ Decimal.ofInt a) ∧
        (∃ chain, Path.ids pa = .ok chain ∧ chain.Nodup ∧ chain.head? = some rootId ∧ chain.getLast? = some a ∧
          chain.IsChain g.HasEdge ∧ ∀ x, x ∈ chain ↔ x = a ∨ g.IsBelow a x) ∧
        (pa = pb → a = b) ∧
        (Path.isUnder pa pb = true ↔ g.IsBelow a b) := by
  intro d g ha hb hshort
  have htree : g.IsTree rootId := (hasTrees_after_seeded edits kind).toIsTree
  obtain ⟨ca, hca⟩ := htree.exists_lineage ha
  obtain ⟨cb, hcb⟩ := htree.exists_lineage hb
  refine ⟨Path.join ca, Path.join cb, path?_of_lineage htree hca, path?_of_lineage htree hcb, ?_, ?_, ?_, ?_, ?_⟩
  · rintro rfl
    rw [htree.lineage_unique hca Lineage.start, join_root]
  · intro parent hedge
    obtain ⟨cp, hcp⟩ := htree.exists_lineage (htree.source_mem hedge)
    refine ⟨Path.join cp, path?_of_lineage htree hcp, ?_⟩
    rw [htree.lineage_unique hca (hcp.child hedge), Path.join_append_singleton hcp.ne_nil]
  · have hread : Path.ids (Path.join ca) = .ok ca :=
      Path.ids_join hca.ne_nil fun x hx => hshort x ((htree.mem_lineage_iff hca).mp hx)
    refine ⟨ca, hread, htree.nodup_lineage hca, hca.head?, hca.getLast?, hca.isChain, fun x => ?_⟩
    rw [htree.mem_lineage_iff hca, reaches_iff_eq_or_isBelow, eq_comm]
  · intro heq
    have hchain := Path.join_injective hca.ne_nil hcb.ne_nil heq
    exact hca.target_unique (hchain ▸ hcb)
  · rw [Path.isUnder_join hca.ne_nil hcb.ne_nil, htree.lineage_prefix_ne_iff hca hcb]

/-- A node below another whose decimal form its own continues. -/
theorem path_spells_descent_nested :
    let d := (seeded : Directory NodeId).after [(.content, .add 12 rootId), (.content, .add 123 12)]
    (∀ x, (d.tree .content).Reaches x 123 → digitCount x ≤ maxDigits) ∧
      ∃ pa pb, d.path? .content 123 = .ok (some pa) ∧ d.path? .content 12 = .ok (some pb) ∧
        pa = pb ++ "," ++ Decimal.ofInt 123 ∧ pa ≠ pb ∧ Path.isUnder pa pb = true := by
  intro d
  have ha : 123 ∈ (d.tree .content).nodeIds := by decide
  have hb : 12 ∈ (d.tree .content).nodeIds := by decide
  have hall : ∀ x ∈ (d.tree .content).nodeIds, digitCount x ≤ maxDigits := by decide
  have hshort : ∀ x, (d.tree .content).Reaches x 123 → digitCount x ≤ maxDigits :=
    fun x => digitCount_le_of_reaches _ hall ha
  have hedge : (d.tree .content).HasEdge 12 123 := mem_children.mp (by decide)
  obtain ⟨pa, pb, hpa, hpb, _, hparent, _, hinjective, hunder⟩ := path_spells_descent _ .content 123 12 ha hb hshort
  refine ⟨hshort, pa, pb, hpa, hpb, ?_, ?_, hunder.mpr (Relation.TransGen.single hedge)⟩
  · obtain ⟨pp, hpp, hspelt⟩ := hparent 12 hedge
    have hsame : pp = pb := Option.some.inj (Except.ok.inj (hpp.symm.trans hpb))
    rwa [hsame] at hspelt
  · intro heq
    exact absurd (hinjective heq) (by decide)

end StartNodes.Directory
