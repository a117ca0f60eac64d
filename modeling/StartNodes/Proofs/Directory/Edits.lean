import StartNodes.Directory.Basic
import StartNodes.Proofs.Graph.Reshape
import StartNodes.Proofs.Graph.Subtree

/-!
What edits make of a directory. An edit of a hierarchy ends in one of five ways, and none of them takes the tree of
the hierarchy apart. So whatever has been tried on a directory, each hierarchy is a tree under its root with the
recycle bin as a child of the root.
-/

namespace StartNodes

namespace Graph

variable {kind : Hierarchy} {g g' : Graph NodeId}

/-- A tree with the root and the recycle bin of a hierarchy in their places. -/
structure IsTreeOf (g : Graph NodeId) (kind : Hierarchy) : Prop extends g.IsTree rootId where
  parents_bin : g.parents kind.binId = [rootId]

/-- How an edit of a hierarchy may end: with an outcome and the graph afterwards. -/
inductive Edited (kind : Hierarchy) (g : Graph NodeId) : Except (EditError NodeId) Unit → Graph NodeId → Prop where
  | refused (e : EditError NodeId)
      (horphan : ∀ id, e = .noParent id → id ∉ kind.reserved ∧ id ∈ g.nodeIds ∧ g.parents id = []) :
      Edited kind g (.error e) g
  | added {id parent : NodeId} (hreserved : id ∉ kind.reserved) (hid : id ∉ g.nodeIds) (hparent : parent ∈ g.nodeIds) :
      Edited kind g (.ok ()) (g.addEdge parent id)
  | moved {id parent old : NodeId} (hreserved : id ∉ kind.reserved) (hold : g.HasEdge old id)
      (hparent : parent ∈ g.nodeIds) (hout : parent ∉ g.subtree id) :
      Edited kind g (.ok ()) ((g.removeEdge old id).addEdge parent id)
  | removed {id : NodeId} (hreserved : id ∉ kind.reserved) (hid : id ∈ g.nodeIds) :
      Edited kind g (.ok ()) (g.removeNodes (g.subtree id))
  | unchanged : Edited kind g (.ok ()) g

theorem mem_reserved {id : NodeId} : id ∈ kind.reserved ↔ id = rootId ∨ id = kind.binId := by
  simp [Hierarchy.reserved]

theorem contains_reserved {id : NodeId} : (NodeName.reserved kind).contains id = true ↔ id ∈ kind.reserved := by
  rw [NodeName.reserved_nodeId, List.contains_iff_mem]

theorem not_hasNode_iff {id : NodeId} : (!g.hasNode id) = true ↔ id ∉ g.nodeIds := by
  rw [Bool.not_eq_true', Bool.eq_false_iff, Ne, hasNode_iff]

/-! ### What an edit does -/

/-- What is said of a refusal: a node that is refused for want of a parent is a node without a parent. -/
def Blames (kind : Hierarchy) (g : Graph NodeId) (e : EditError NodeId) : Prop :=
  ∀ id, e = .noParent id → id ∉ kind.reserved ∧ id ∈ g.nodeIds ∧ g.parents id = []

theorem add_of_new {id parent : NodeId} (hreserved : id ∉ kind.reserved) (hid : id ∉ g.nodeIds)
    (hparent : parent ∈ g.nodeIds) : g.add kind id parent = (.ok (), g.addEdge parent id) := by
  unfold add newRefusal?
  rw [if_neg (mt contains_reserved.mp hreserved), if_neg (mt hasNode_iff.mp hid)]
  simp only [if_neg (mt not_hasNode_iff.mp (not_not.mpr hparent))]

theorem add_cases (kind : Hierarchy) (g : Graph NodeId) (id parent : NodeId) :
    (∃ e, g.add kind id parent = (.error e, g) ∧ Blames kind g e) ∨
      id ∉ kind.reserved ∧ id ∉ g.nodeIds ∧ parent ∈ g.nodeIds ∧
        g.add kind id parent = (.ok (), g.addEdge parent id) := by
  by_cases hnew : id ∉ kind.reserved ∧ id ∉ g.nodeIds ∧ parent ∈ g.nodeIds
  · exact Or.inr ⟨hnew.1, hnew.2.1, hnew.2.2, add_of_new hnew.1 hnew.2.1 hnew.2.2⟩
  unfold add newRefusal?
  by_cases hreserved : id ∈ kind.reserved
  · rw [if_pos (contains_reserved.mpr hreserved)]
    exact Or.inl ⟨_, rfl, nofun⟩
  rw [if_neg (mt contains_reserved.mp hreserved)]
  by_cases hid : id ∈ g.nodeIds
  · rw [if_pos (hasNode_iff.mpr hid)]
    exact Or.inl ⟨_, rfl, nofun⟩
  have hparent : parent ∉ g.nodeIds := fun hparent => hnew ⟨hreserved, hid, hparent⟩
  rw [if_neg (mt hasNode_iff.mp hid)]
  simp only [if_pos (not_hasNode_iff.mpr hparent)]
  exact Or.inl ⟨_, rfl, nofun⟩

theorem move_cases (kind : Hierarchy) (g : Graph NodeId) (id parent : NodeId) :
    (∃ e, g.move kind id parent = (.error e, g) ∧ Blames kind g e) ∨
      ∃ old, id ∉ kind.reserved ∧ id ∈ g.nodeIds ∧ g.HasEdge old id ∧ parent ∈ g.nodeIds ∧ parent ∉ g.subtree id ∧
        g.move kind id parent = (.ok (), (g.removeEdge old id).addEdge parent id) := by
  unfold move
  by_cases hreserved : id ∈ kind.reserved
  · rw [if_pos (contains_reserved.mpr hreserved)]
    exact Or.inl ⟨_, rfl, nofun⟩
  rw [if_neg (mt contains_reserved.mp hreserved)]
  by_cases hid : id ∈ g.nodeIds
  swap
  · rw [if_pos (not_hasNode_iff.mpr hid)]
    exact Or.inl ⟨_, rfl, nofun⟩
  rw [if_neg (mt not_hasNode_iff.mp (not_not.mpr hid))]
  by_cases hparent : parent ∈ g.nodeIds
  swap
  · rw [if_pos (not_hasNode_iff.mpr hparent)]
    exact Or.inl ⟨_, rfl, nofun⟩
  rw [if_neg (mt not_hasNode_iff.mp (not_not.mpr hparent))]
  by_cases hout : parent ∈ g.subtree id
  · rw [if_pos (List.contains_iff_mem.mpr hout)]
    exact Or.inl ⟨_, rfl, nofun⟩
  rw [if_neg (mt List.contains_iff_mem.mp hout)]
  cases hparents : g.parents id with
  | nil =>
      refine Or.inl ⟨_, rfl, ?_⟩
      rintro _ ⟨⟩
      exact ⟨hreserved, hid, hparents⟩
  | cons old others =>
      have hold : g.HasEdge old id := mem_parents.mp (hparents ▸ List.mem_cons_self)
      exact Or.inr ⟨old, hreserved, hid, hold, hparent, hout, rfl⟩

theorem remove_cases (kind : Hierarchy) (g : Graph NodeId) (id : NodeId) :
    (∃ e, g.remove kind id = (.error e, g) ∧ Blames kind g e) ∨
      id ∉ g.nodeIds ∧ g.remove kind id = (.ok (), g) ∨
      id ∉ kind.reserved ∧ id ∈ g.nodeIds ∧ g.remove kind id = (.ok (), g.removeNodes (g.subtree id)) := by
  unfold remove
  by_cases hreserved : id ∈ kind.reserved
  · rw [if_pos (contains_reserved.mpr hreserved)]
    exact Or.inl ⟨_, rfl, nofun⟩
  rw [if_neg (mt contains_reserved.mp hreserved)]
  by_cases hid : id ∈ g.nodeIds
  · rw [if_neg (mt not_hasNode_iff.mp (not_not.mpr hid))]
    exact Or.inr (Or.inr ⟨hreserved, hid, rfl⟩)
  · rw [if_pos (not_hasNode_iff.mpr hid)]
    exact Or.inr (Or.inl ⟨hid, rfl⟩)

theorem edited_add (kind : Hierarchy) (g : Graph NodeId) (id parent : NodeId) :
    Edited kind g (g.add kind id parent).1 (g.add kind id parent).2 := by
  obtain ⟨e, heq, horphan⟩ | ⟨hreserved, hid, hparent, heq⟩ := add_cases kind g id parent
  · rw [heq]
    exact .refused e horphan
  · rw [heq]
    exact .added hreserved hid hparent

theorem edited_move (kind : Hierarchy) (g : Graph NodeId) (id parent : NodeId) :
    Edited kind g (g.move kind id parent).1 (g.move kind id parent).2 := by
  obtain ⟨e, heq, horphan⟩ | ⟨old, hreserved, _, hold, hparent, hout, heq⟩ := move_cases kind g id parent
  · rw [heq]
    exact .refused e horphan
  · rw [heq]
    exact .moved hreserved hold hparent hout

theorem edited_remove (kind : Hierarchy) (g : Graph NodeId) (id : NodeId) :
    Edited kind g (g.remove kind id).1 (g.remove kind id).2 := by
  obtain ⟨e, heq, horphan⟩ | ⟨_, heq⟩ | ⟨hreserved, hid, heq⟩ := remove_cases kind g id
  · rw [heq]
    exact .refused e horphan
  · rw [heq]
    exact .unchanged
  · rw [heq]
    exact .removed hreserved hid

theorem edited_edit (kind : Hierarchy) (g : Graph NodeId) (e : Edit NodeId) :
    Edited kind g (g.edit kind e).1 (g.edit kind e).2 := by
  cases e with
  | add id parent => exact edited_add kind g id parent
  | move id parent => exact edited_move kind g id parent
  | trash id => exact edited_move kind g id kind.binId
  | remove id => exact edited_remove kind g id

/-- A refused edit changes nothing. -/
theorem Edited.eq_of_error {e : EditError NodeId} (h : Edited kind g (.error e) g') : g' = g := by
  cases h with
  | refused => rfl

/-! ### The tree of a hierarchy -/

theorem isTree_addNode_root : (({} : Graph NodeId).addNode rootId).IsTree rootId := by
  have hnone : ∀ a b, ¬ (({} : Graph NodeId).addNode rootId).HasEdge a b := by
    rintro a b ⟨e, he, _⟩
    exact List.not_mem_nil he
  have hnodes : ∀ x, x ∈ (({} : Graph NodeId).addNode rootId).nodeIds → x = rootId := by
    intro x hx
    exact List.mem_singleton.mp hx
  refine ⟨⟨List.nodup_singleton rootId, ?_, ?_⟩, List.mem_singleton_self rootId, rfl, ?_, ?_⟩
  · exact fun hedge => absurd hedge (hnone _ _)
  · exact fun hedge => absurd hedge (hnone _ _)
  · exact fun id hid hne => absurd (hnodes id hid) hne
  · intro id hid
    rw [hnodes id hid]
    exact Relation.ReflTransGen.refl

theorem isTreeOf_seed (kind : Hierarchy) : (seed kind : Graph NodeId).IsTreeOf kind := by
  have hbin : kind.binId ∉ (({} : Graph NodeId).addNode rootId).nodeIds := by
    cases kind <;> decide
  refine ⟨isTree_addNode_root.addEdge hbin (isTree_addNode_root.root_mem), ?_⟩
  cases kind <;> rfl

namespace IsTreeOf

theorem hasEdge_bin (h : g.IsTreeOf kind) : g.HasEdge rootId kind.binId :=
  mem_parents.mp (h.parents_bin ▸ List.mem_singleton_self rootId)

theorem bin_mem (h : g.IsTreeOf kind) : kind.binId ∈ g.nodeIds :=
  h.target_mem h.hasEdge_bin

/-- A node that may be moved or removed lies above neither the root nor the recycle bin. -/
theorem not_reaches_reserved (h : g.IsTreeOf kind) {id x : NodeId} (hid : id ∉ kind.reserved)
    (hx : x ∈ kind.reserved) : ¬ g.Reaches id x := by
  have hroot : ¬ g.Reaches id rootId :=
    fun hreaches => hid (mem_reserved.mpr (Or.inl (h.eq_root_of_reaches hreaches)))
  rcases mem_reserved.mp hx with rfl | rfl
  · exact hroot
  · intro hreaches
    rcases reaches_iff_eq_or_isBelow.mp hreaches with heq | hbelow
    · exact hid (mem_reserved.mpr (Or.inr heq.symm))
    · exact hroot (h.reaches_parent h.hasEdge_bin hbelow)

/-- An edit leaves the tree of its hierarchy a tree of that hierarchy. -/
theorem edited (h : g.IsTreeOf kind) {outcome : Except (EditError NodeId) Unit} (he : Edited kind g outcome g') :
    g'.IsTreeOf kind := by
  cases he with
  | refused => exact h
  | unchanged => exact h
  | added hreserved hid hparent =>
      refine ⟨h.addEdge hid hparent, ?_⟩
      rw [parents_addEdge_of_ne (h.not_hasEdge_of_not_mem hid), h.parents_bin]
      rintro rfl
      exact hid h.bin_mem
  | @moved id parent old hreserved hold hparent hout =>
      have hbin : kind.binId ≠ id := by
        rintro rfl
        exact hreserved (mem_reserved.mpr (Or.inr rfl))
      rw [mem_subtree_iff h.toWellFormed (h.target_mem hold)] at hout
      have htree := h.reparent hold hparent hout
      refine ⟨htree, ?_⟩
      have hnew : ¬ (g.removeEdge old id).HasEdge parent id := h.not_hasEdge_removeEdge hold
      rw [parents_addEdge_of_ne hnew _ hbin, parents_removeEdge_of_ne _ hbin, h.parents_bin]
  | @removed id hreserved hid =>
      have hids : ∀ x, x ∈ g.subtree id ↔ g.Reaches id x := fun x => mem_subtree_iff h.toWellFormed hid
      have hkept : ∀ x ∈ kind.reserved, x ∉ g.subtree id := by
        intro x hx
        rw [hids]
        exact h.not_reaches_reserved hreserved hx
      have hroot := hkept rootId (mem_reserved.mpr (Or.inl rfl))
      refine ⟨h.removeNodes (fun heq => hreserved (mem_reserved.mpr (Or.inl heq))) hids, ?_⟩
      rw [parents_removeNodes g (hkept kind.binId (mem_reserved.mpr (Or.inr rfl))), h.parents_bin]
      simp [hroot]

/-- In the tree of a hierarchy, a node that may be moved has a parent to be detached from. -/
theorem outcome_ne_noParent (h : g.IsTreeOf kind) {outcome : Except (EditError NodeId) Unit}
    (he : Edited kind g outcome g') (id : NodeId) : outcome ≠ .error (.noParent id) := by
  rintro rfl
  cases he with
  | refused _ horphan =>
      obtain ⟨hreserved, hid, hnone⟩ := horphan id rfl
      obtain ⟨parent, hparent⟩ := h.parents_eq id hid fun heq => hreserved (mem_reserved.mpr (Or.inl heq))
      rw [hnone] at hparent
      cases hparent

end IsTreeOf

end Graph

namespace Directory

open StartNodes.Graph

/-- The directory after edits, each of one hierarchy; a refused edit does not keep the next from being tried. -/
def after (d : Directory NodeId) (edits : List (Hierarchy × Edit NodeId)) : Directory NodeId :=
  edits.foldl (fun d e => (d.edit e.1 e.2).2) d

theorem tree_edit (d : Directory NodeId) (kind : Hierarchy) (e : Edit NodeId) :
    (d.edit kind e).2.tree kind = ((d.tree kind).edit kind e).2 :=
  tree_setTree d kind _

theorem tree_edit_of_ne (d : Directory NodeId) {kind other : Hierarchy} (h : other ≠ kind) (e : Edit NodeId) :
    (d.edit kind e).2.tree other = d.tree other :=
  tree_setTree_of_ne h.symm d _

/-- A refused edit changes neither hierarchy. -/
theorem edit_eq_of_error {d : Directory NodeId} {kind : Hierarchy} {e : Edit NodeId} {err : EditError NodeId}
    (h : (d.edit kind e).1 = .error err) : (d.edit kind e).2 = d := by
  have hedited := edited_edit kind (d.tree kind) e
  have houtcome : ((d.tree kind).edit kind e).1 = .error err := h
  rw [houtcome] at hedited
  show d.setTree kind ((d.tree kind).edit kind e).2 = d
  rw [hedited.eq_of_error, setTree_tree]

/-- Each hierarchy of a directory is a tree with the root and the recycle bin in their places. -/
def HasTrees (d : Directory NodeId) : Prop :=
  ∀ kind, (d.tree kind).IsTreeOf kind

theorem hasTrees_seeded : (seeded : Directory NodeId).HasTrees := by
  intro kind
  cases kind with
  | content => exact isTreeOf_seed .content
  | media => exact isTreeOf_seed .media

theorem HasTrees.edit {d : Directory NodeId} (h : d.HasTrees) (kind : Hierarchy) (e : Edit NodeId) :
    (d.edit kind e).2.HasTrees := by
  intro other
  by_cases hother : other = kind
  · subst hother
    rw [tree_edit]
    exact (h other).edited (edited_edit other _ e)
  · rw [tree_edit_of_ne d hother]
    exact h other

theorem HasTrees.after {d : Directory NodeId} (h : d.HasTrees) (edits : List (Hierarchy × Edit NodeId)) :
    (d.after edits).HasTrees := by
  induction edits generalizing d with
  | nil => exact h
  | cons e edits ih => exact ih (h.edit e.1 e.2)

theorem hasTrees_after_seeded (edits : List (Hierarchy × Edit NodeId)) :
    ((seeded : Directory NodeId).after edits).HasTrees :=
  hasTrees_seeded.after edits

end Directory

end StartNodes
