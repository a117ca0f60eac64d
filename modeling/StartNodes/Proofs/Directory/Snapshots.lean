import StartNodes.Proofs.Directory.Edits
import StartNodes.Directory.Snapshot

/-!
What snapshots make of a directory. A snapshot may describe any directed graph, but it does so by adding nodes and edges
one at a time, which keeps nodes apart and gives every edge its two ends. So after any edits and snapshots the graphs of
a directory are well-formed, whether or not they are trees.
-/

namespace StartNodes

theorem exists_of_bind_eq_ok {ε α β : Type} {x : Except ε α} {f : α → Except ε β} {b : β} (h : x >>= f = .ok b) :
    ∃ a, x = .ok a ∧ f a = .ok b := by
  cases x with
  | error e => cases h
  | ok a => exact ⟨a, rfl, h⟩

theorem foldlM_keeps {ε α β : Type} {P : β → Prop} {f : β → α → Except ε β}
    (hstep : ∀ b a b', P b → f b a = .ok b' → P b') {l : List α} {b b' : β} (hb : P b) (h : l.foldlM f b = .ok b') :
    P b' := by
  induction l generalizing b with
  | nil => cases h; exact hb
  | cons a l ih =>
      rw [List.foldlM_cons] at h
      obtain ⟨b₁, hfirst, hrest⟩ := exists_of_bind_eq_ok h
      exact ih (hstep b a b₁ hb hfirst) hrest

namespace Graph

variable {g g' : Graph NodeId}

theorem wellFormed_empty (attributes : Json) : ({ attributes } : Graph NodeId).WellFormed :=
  ⟨List.nodup_nil, fun ⟨_, he, _⟩ => absurd he List.not_mem_nil, fun ⟨_, he, _⟩ => absurd he List.not_mem_nil⟩

theorem WellFormed.addNode (h : g.WellFormed) (id : NodeId) (attributes : Attributes) :
    (g.addNode id attributes).WellFormed where
  nodup := nodup_addNode h.nodup id attributes
  source_mem hedge :=
    mem_nodeIds_addNode.mpr (Or.inl (h.source_mem ((hasEdge_of_edges_eq (edges_addNode ..)).mp hedge)))
  target_mem hedge :=
    mem_nodeIds_addNode.mpr (Or.inl (h.target_mem ((hasEdge_of_edges_eq (edges_addNode ..)).mp hedge)))

theorem WellFormed.edited {kind : Hierarchy} {outcome : Except (EditError NodeId) Unit} (h : g.WellFormed)
    (he : Edited kind g outcome g') : g'.WellFormed := by
  cases he with
  | refused => exact h
  | unchanged => exact h
  | added _ _ _ => exact h.addEdge ..
  | moved _ _ _ _ => exact (h.removeEdge ..).addEdge ..
  | removed _ _ => exact h.removeNodes _

/-! ### Reading a section -/

theorem WellFormed.readNode (h : g.WellFormed) {index : Nat} {value : Json}
    (hread : g.readNode index value = .ok g') : g'.WellFormed := by
  unfold Graph.readNode at hread
  split at hread
  · simp only at hread
    split at hread
    · cases hread
    · obtain ⟨id, _, hadd⟩ := exists_of_bind_eq_ok hread
      cases hadd
      exact h.addNode ..
  · cases hread

theorem WellFormed.readLink (h : g.WellFormed) {value : Json} (hread : g.readLink value = .ok g') : g'.WellFormed := by
  unfold Graph.readLink at hread
  split at hread
  · obtain ⟨source, _, hread⟩ := exists_of_bind_eq_ok hread
    obtain ⟨target, _, hread⟩ := exists_of_bind_eq_ok hread
    simp only at hread
    split at hread
    · cases hread
    · obtain ⟨a, _, hread⟩ := exists_of_bind_eq_ok hread
      obtain ⟨b, _, hread⟩ := exists_of_bind_eq_ok hread
      cases hread
      exact h.addEdge ..
  · cases hread

/-- Whatever stands for a list, its items are read one after the other. -/
theorem listed_keeps {γ : Type} {P : γ → Prop} {item : γ → Nat → Json → Except SnapshotError γ}
    (hitem : ∀ c index value c', P c → item c index value = .ok c' → P c') {value : Json} {c c' : γ} (hc : P c)
    (h : listed item c value = .ok c') : P c' := by
  unfold listed at h
  split at h
  · exact foldlM_keeps (fun c row c' => hitem c row.2 row.1 c') hc h
  · exact foldlM_keeps (fun c m c' => hitem c 0 (.str m.1) c') hc h
  · exact foldlM_keeps (fun c single c' => hitem c 0 (.str single) c') hc h
  · cases h

theorem wellFormed_ofJson {value : Json} (h : ofJson value = .ok g) : g.WellFormed := by
  unfold ofJson at h
  split at h
  · obtain ⟨nodes, _, h⟩ := exists_of_bind_eq_ok h
    obtain ⟨g₁, hnodes, h⟩ := exists_of_bind_eq_ok h
    obtain ⟨links, _, hlinks⟩ := exists_of_bind_eq_ok h
    have hg₁ : g₁.WellFormed :=
      listed_keeps (fun _ _ _ _ hg => hg.readNode) (wellFormed_empty _) hnodes
    exact listed_keeps (fun _ _ _ _ hg => hg.readLink) hg₁ hlinks
  · cases h

end Graph

namespace Directory

open StartNodes.Graph

variable {d : Directory NodeId}

/-- Each graph of a directory is well-formed. -/
def IsWellFormed (d : Directory NodeId) : Prop :=
  ∀ kind, (d.tree kind).WellFormed

theorem HasTrees.isWellFormed (h : d.HasTrees) : d.IsWellFormed :=
  fun kind => (h kind).toWellFormed

namespace IsWellFormed

theorem setTree (h : d.IsWellFormed) (kind : Hierarchy) {g : Graph NodeId} (hg : g.WellFormed) :
    (d.setTree kind g).IsWellFormed := by
  intro other
  by_cases hother : kind = other
  · subst hother
    rwa [tree_setTree]
  · rw [tree_setTree_of_ne hother]
    exact h other

theorem edit (h : d.IsWellFormed) (kind : Hierarchy) (e : Edit NodeId) : (d.edit kind e).2.IsWellFormed :=
  h.setTree kind ((h kind).edited (edited_edit kind _ e))

theorem loadSection (h : d.IsWellFormed) {snapshot : Json} {kind : Hierarchy} {d' : Directory NodeId}
    (hload : d.loadSection snapshot kind = .ok d') : d'.IsWellFormed := by
  unfold Directory.loadSection at hload
  obtain ⟨found, _, hload⟩ := exists_of_bind_eq_ok hload
  cases found with
  | none =>
      cases hload
      exact h
  | some value =>
      obtain ⟨g, hg, hload⟩ := exists_of_bind_eq_ok hload
      cases hload
      exact h.setTree kind (wellFormed_ofJson hg)

theorem loadSections (h : d.IsWellFormed) (snapshot : Json) (kinds : List Hierarchy) :
    (d.loadSections snapshot kinds).2.IsWellFormed := by
  induction kinds generalizing d with
  | nil => exact h
  | cons kind kinds ih =>
      unfold Directory.loadSections
      cases hload : d.loadSection snapshot kind with
      | error e => exact h
      | ok d' => exact ih (h.loadSection hload)

theorem load (h : d.IsWellFormed) (text : String) : (d.load text).2.IsWellFormed := by
  unfold Directory.load
  cases Json.read snapshotRules text with
  | error e => exact h
  | ok snapshot => exact h.loadSections snapshot _

end IsWellFormed

/-! ### Edits and snapshots -/

/-- A change of a directory: an edit of one hierarchy, or a snapshot that is loaded. -/
inductive Change where
  | edit (kind : Hierarchy) (e : Edit NodeId)
  | load (text : String)

/-- The directory after a change; what a refused change has put in place stays in place. -/
def Change.apply (d : Directory NodeId) : Change → Directory NodeId
  | .edit kind e => (d.edit kind e).2
  | .load text => (d.load text).2

/-- The directory after changes, one after the other. -/
def afterChanges (d : Directory NodeId) (changes : List Change) : Directory NodeId :=
  changes.foldl Change.apply d

theorem IsWellFormed.afterChanges (h : d.IsWellFormed) (changes : List Change) :
    (d.afterChanges changes).IsWellFormed := by
  induction changes generalizing d with
  | nil => exact h
  | cons change changes ih =>
      cases change with
      | edit kind e => exact ih (h.edit kind e)
      | load text => exact ih (h.load text)

theorem afterChanges_edits (d : Directory NodeId) (edits : List (Hierarchy × Edit NodeId)) :
    d.afterChanges (edits.map fun e => .edit e.1 e.2) = d.after edits := by
  rw [Directory.afterChanges, List.foldl_map]
  rfl

end Directory

end StartNodes
