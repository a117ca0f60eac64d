import StartNodes.Proofs.Directory.Ancestry

/-!
What an accepted edit does to paths. A path is looked up anew each time, but it is the lineage of its node, and an edit
cuts and joins at one node only: lineages that do not pass that node stay, and the others are the lineage of the new
parent followed by the part that begins at the node.
-/

namespace StartNodes.Directory

open StartNodes.Graph

variable {d d' : Directory NodeId} {kind : Hierarchy} {id parent m : NodeId}

/-- The node has been hung, as a leaf, under the parent. -/
structure Hung (d d' : Directory NodeId) (kind : Hierarchy) (id parent : NodeId) : Prop where
  new : d.path? kind id = .ok none
  path : ∃ above, d.path? kind parent = .ok (some above) ∧
    d'.path? kind id = .ok (some (above ++ "," ++ Decimal.ofInt id))
  others : ∀ m, m ≠ id → d'.path? kind m = d.path? kind m

/-- The node has been taken from the parent that it had and hung, with all that is below it, under another. -/
structure Rehung (d d' : Directory NodeId) (kind : Hierarchy) (id parent : NodeId) : Prop where
  /-- Of the path of each node that moves, the part that begins at `id` stays and what is before it changes. -/
  below : ∃ old before above, (d.tree kind).HasEdge old id ∧ d.path? kind old = .ok (some before) ∧
    d.path? kind parent = .ok (some above) ∧ d'.path? kind parent = .ok (some above) ∧
    ∀ m, (d.tree kind).Reaches id m → ∃ rest, (d.tree kind).Lineage id m rest ∧
      d.path? kind m = .ok (some (before ++ "," ++ Path.join rest)) ∧
      d'.path? kind m = .ok (some (above ++ "," ++ Path.join rest))
  others : ∀ m, ¬ (d.tree kind).Reaches id m → d'.path? kind m = d.path? kind m
  nodes : (d'.tree kind).nodeIds = (d.tree kind).nodeIds
  nodup : (d'.tree kind).nodeIds.Nodup

/-- The node is gone, with all that was below it. -/
structure Pruned (d d' : Directory NodeId) (kind : Hierarchy) (id : NodeId) : Prop where
  gone : ∀ m, d'.path? kind m = .ok none ↔ d.path? kind m = .ok none ∨ (d.tree kind).Reaches id m
  others : ∀ m, ¬ (d.tree kind).Reaches id m → d'.path? kind m = d.path? kind m

/-- What becomes of the paths of a hierarchy by an edit that is accepted. -/
def Rewritten (d d' : Directory NodeId) (kind : Hierarchy) : Edit NodeId → Prop
  | .add id parent => Hung d d' kind id parent
  | .move id parent => Rehung d d' kind id parent
  | .trash id => Rehung d d' kind id kind.binId
  | .remove id => Pruned d d' kind id

/-! ### Paths of two directories -/

theorem path?_eq_none_iff (h : (d.tree kind).IsTree rootId) :
    d.path? kind m = .ok none ↔ m ∉ (d.tree kind).nodeIds := by
  refine ⟨fun hnone hm => ?_, path?_of_not_mem⟩
  obtain ⟨chain, hchain⟩ := h.exists_lineage hm
  rw [path?_of_lineage h hchain] at hnone
  cases hnone

/-- A node that comes into no tree by the edit keeps its path if it keeps its lineage. -/
theorem path?_eq_of_keep (h : (d.tree kind).IsTree rootId) (h' : (d'.tree kind).IsTree rootId)
    (hmem : m ∈ (d'.tree kind).nodeIds → m ∈ (d.tree kind).nodeIds)
    (hkeep : ∀ chain, (d.tree kind).Lineage rootId m chain → (d'.tree kind).Lineage rootId m chain) :
    d'.path? kind m = d.path? kind m := by
  by_cases hm : m ∈ (d.tree kind).nodeIds
  · obtain ⟨chain, hchain⟩ := h.exists_lineage hm
    rw [path?_of_lineage h hchain, path?_of_lineage h' (hkeep chain hchain)]
  · rw [path?_of_not_mem hm, path?_of_not_mem (mt hmem hm)]

/-- The path of a node is that of a node above it with what follows on the way down. -/
theorem path?_of_below (h : (d.tree kind).IsTree rootId) {above rest : List NodeId}
    (habove : (d.tree kind).Lineage rootId parent above) (hedge : (d.tree kind).HasEdge parent id)
    (hrest : (d.tree kind).Lineage id m rest) :
    d.path? kind m = .ok (some (Path.join above ++ "," ++ Path.join rest)) := by
  rw [path?_of_lineage h (habove.trans hedge hrest), Path.join_append habove.ne_nil hrest.ne_nil]

/-! ### Edits of a tree -/

theorem hung_of_addEdge (h : (d.tree kind).IsTree rootId) (h' : (d'.tree kind).IsTree rootId)
    (hid : id ∉ (d.tree kind).nodeIds) (hparent : parent ∈ (d.tree kind).nodeIds)
    (htree : d'.tree kind = (d.tree kind).addEdge parent id) : Hung d d' kind id parent := by
  have hkeep : ∀ m chain, (d.tree kind).Lineage rootId m chain → (d'.tree kind).Lineage rootId m chain := by
    intro m chain hchain
    rw [htree]
    exact hchain.keep fun _ _ _ hedge _ => hasEdge_addEdge.mpr (Or.inl hedge)
  obtain ⟨above, habove⟩ := h.exists_lineage hparent
  refine ⟨path?_of_not_mem hid, ⟨Path.join above, path?_of_lineage h habove, ?_⟩, fun m hm => ?_⟩
  · have hedge : (d'.tree kind).HasEdge parent id := by
      rw [htree]
      exact hasEdge_addEdge.mpr (Or.inr ⟨rfl, rfl⟩)
    rw [path?_of_below h' (hkeep parent above habove) hedge Lineage.start, Path.join_singleton]
  · refine path?_eq_of_keep h h' (fun hmem => ?_) (hkeep m)
    rw [htree] at hmem
    rcases mem_nodeIds_addEdge.mp hmem with hmem | rfl | rfl
    · exact hmem
    · exact hparent
    · exact absurd rfl hm

theorem rehung_of_reparent (h : (d.tree kind).IsTree rootId) (h' : (d'.tree kind).IsTree rootId) {old : NodeId}
    (hold : (d.tree kind).HasEdge old id) (hparent : parent ∈ (d.tree kind).nodeIds)
    (hout : ¬ (d.tree kind).Reaches id parent)
    (htree : d'.tree kind = ((d.tree kind).removeEdge old id).addEdge parent id) : Rehung d d' kind id parent := by
  have hid : id ∈ (d.tree kind).nodeIds := h.target_mem hold
  have hedges : ∀ a b, (d.tree kind).HasEdge a b → b ≠ id → (d'.tree kind).HasEdge a b := by
    intro a b hedge hb
    rw [htree]
    exact hasEdge_reparent hedge hb
  -- a lineage from the root that does not pass the node stays
  have hkeep : ∀ m, ¬ (d.tree kind).Reaches id m → ∀ chain, (d.tree kind).Lineage rootId m chain →
      (d'.tree kind).Lineage rootId m chain := by
    intro m hm chain hchain
    refine hchain.avoid (fun a b hedge hb => hedges a b hedge ?_) hm
    rintro rfl
    exact hb Relation.ReflTransGen.refl
  have hnodes : (d'.tree kind).nodeIds = (d.tree kind).nodeIds := by
    rw [htree]
    exact nodeIds_addEdge_of_mem (g := (d.tree kind).removeEdge old id) hparent hid []
  obtain ⟨before, hbefore⟩ := h.exists_lineage (h.source_mem hold)
  obtain ⟨above, habove⟩ := h.exists_lineage hparent
  have habove' := hkeep parent hout above habove
  have hedge : (d'.tree kind).HasEdge parent id := by
    rw [htree]
    exact hasEdge_addEdge.mpr (Or.inr ⟨rfl, rfl⟩)
  refine ⟨⟨old, Path.join before, Path.join above, hold, path?_of_lineage h hbefore, path?_of_lineage h habove,
    path?_of_lineage h' habove', fun m hm => ?_⟩, fun m hm => ?_, hnodes, h'.nodup⟩
  · obtain ⟨rest, hrest⟩ := exists_lineage_of_reaches hm
    exact ⟨rest, hrest, path?_of_below h hbefore hold hrest,
      path?_of_below h' habove' hedge (h.lineage_below hedges hrest)⟩
  · exact path?_eq_of_keep h h' (fun hmem => hnodes ▸ hmem) (hkeep m hm)

theorem pruned_of_removeNodes (h : (d.tree kind).IsTree rootId) (h' : (d'.tree kind).IsTree rootId)
    {ids : List NodeId} (hids : ∀ x, x ∈ ids ↔ (d.tree kind).Reaches id x)
    (htree : d'.tree kind = (d.tree kind).removeNodes ids) : Pruned d d' kind id := by
  have hmem : ∀ m, m ∈ (d'.tree kind).nodeIds ↔ m ∈ (d.tree kind).nodeIds ∧ ¬ (d.tree kind).Reaches id m := by
    intro m
    rw [htree, mem_nodeIds_removeNodes, hids]
  refine ⟨fun m => ?_, fun m hm => ?_⟩
  · rw [path?_eq_none_iff h, path?_eq_none_iff h', hmem, not_and_or, not_not]
  · refine path?_eq_of_keep h h' (fun hm => ((hmem m).mp hm).1) fun chain hchain => ?_
    rw [htree]
    exact hchain.avoid (fun a b => hasEdge_prune hids) hm

/-- Nothing hangs from a node that is not there. -/
theorem pruned_of_not_mem (h : (d.tree kind).IsTree rootId) (hid : id ∉ (d.tree kind).nodeIds)
    (htree : d'.tree kind = d.tree kind) : Pruned d d' kind id := by
  have hnone : ∀ m, (d.tree kind).Reaches id m → d.path? kind m = .ok none :=
    fun m hm => path?_of_not_mem fun hmem => hid (hm.source_mem h.toWellFormed hmem)
  refine ⟨fun m => ?_, fun m _ => path?_congr htree m⟩
  rw [path?_congr htree]
  exact ⟨Or.inl, fun hor => hor.elim (fun hm => hm) (hnone m)⟩

/-! ### Edits of a directory -/

variable {e : Edit NodeId}

theorem hung_of_add (h : d.HasTrees) (hok : (d.edit kind (.add id parent)).1 = .ok ()) :
    Hung d (d.edit kind (.add id parent)).2 kind id parent := by
  have h' := h.edit kind (.add id parent)
  obtain ⟨e, heq, _⟩ | ⟨_, hid, hparent, heq⟩ := add_cases kind (d.tree kind) id parent
  · exact nomatch (congrArg Prod.fst heq).symm.trans hok
  · refine hung_of_addEdge (h kind).toIsTree (h' kind).toIsTree hid hparent ?_
    exact (tree_edit d kind _).trans (congrArg Prod.snd heq)

/-- What is moved may be moved to where it is already, and from one place in the bin to another. -/
theorem rehung_of_move (h : d.HasTrees) (hok : (d.edit kind (.move id parent)).1 = .ok ()) :
    Rehung d (d.edit kind (.move id parent)).2 kind id parent := by
  have h' := h.edit kind (.move id parent)
  obtain ⟨e, heq, _⟩ | ⟨old, _, hid, hold, hparent, hout, heq⟩ := move_cases kind (d.tree kind) id parent
  · exact nomatch (congrArg Prod.fst heq).symm.trans hok
  · rw [mem_subtree_iff (h kind).toWellFormed hid] at hout
    refine rehung_of_reparent (h kind).toIsTree (h' kind).toIsTree hold hparent hout ?_
    exact (tree_edit d kind _).trans (congrArg Prod.snd heq)

theorem pruned_of_remove (h : d.HasTrees) (hok : (d.edit kind (.remove id)).1 = .ok ()) :
    Pruned d (d.edit kind (.remove id)).2 kind id := by
  have h' := h.edit kind (.remove id)
  have htree := tree_edit d kind (.remove id)
  obtain ⟨e, heq, _⟩ | ⟨hid, heq⟩ | ⟨_, hid, heq⟩ := remove_cases kind (d.tree kind) id
  · exact nomatch (congrArg Prod.fst heq).symm.trans hok
  · exact pruned_of_not_mem (h kind).toIsTree hid (htree.trans (congrArg Prod.snd heq))
  · have hids : ∀ x, x ∈ (d.tree kind).subtree id ↔ (d.tree kind).Reaches id x :=
      fun x => mem_subtree_iff (h kind).toWellFormed hid
    exact pruned_of_removeNodes (h kind).toIsTree (h' kind).toIsTree hids (htree.trans (congrArg Prod.snd heq))

/-- Whatever edits have been tried on the directory, an edit that is accepted changes these paths of its hierarchy and
none of the other. A new node has the path of its parent with the node behind it. A node that is moved, to the bin
or elsewhere, and each node below it has the path of the new parent followed by the part of its own path that began at
the moved node, and no node is lost or doubled. What is removed has no path any more, and nothing that was below it. -/
theorem paths_after_edit (edits : List (Hierarchy × Edit NodeId)) (kind : Hierarchy) (e : Edit NodeId) :
    let d := (seeded : Directory NodeId).after edits
    let d' := (d.edit kind e).2
    (d.edit kind e).1 = .ok () →
      Rewritten d d' kind e ∧ ∀ other, other ≠ kind → ∀ m, d'.path? other m = d.path? other m := by
  intro d d' hok
  have htrees : d.HasTrees := hasTrees_after_seeded edits
  refine ⟨?_, fun other hother m => path?_congr (tree_edit_of_ne d hother e) m⟩
  cases e with
  | add id parent => exact hung_of_add htrees hok
  | move id parent => exact rehung_of_move htrees hok
  | trash id => exact rehung_of_move htrees hok
  | remove id => exact pruned_of_remove htrees hok

/-- A node that is moved with another below it. -/
theorem paths_after_edit_move :
    let d := (seeded : Directory NodeId).after
      [(.content, .add 1 rootId), (.content, .add 2 rootId), (.content, .add 3 1), (.content, .add 4 3)]
    let d' := (d.edit .content (.move 3 2)).2
    (d.edit .content (.move 3 2)).1 = .ok () ∧ Rehung d d' .content 3 2 ∧
      d.path? .content 4 = .ok (some "-1,1,3,4") ∧ d'.path? .content 4 = .ok (some "-1,2,3,4") := by
  intro d d'
  have hok : (d.edit .content (.move 3 2)).1 = .ok () := by decide
  exact ⟨hok, (paths_after_edit _ .content (.move 3 2) hok).1, by decide, by decide⟩

end StartNodes.Directory
