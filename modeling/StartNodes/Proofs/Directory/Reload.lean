import StartNodes.Proofs.Directory.Regrouped

/-!
Saving and loading in the course of edits. All that edits make of the seeded directory can be held in a snapshot, as long
as the nodes that are added are not too long to be read. So a run of edits may be interrupted at any point by saving the
directory and going on with another that the text has been loaded into: the trees of the two runs stay like each other,
edit by edit, and nothing tells the runs apart.
-/

namespace StartNodes

open Decimal

/-- The node that an edit is to add, if it is to add one. -/
def Edit.added? : Edit NodeId → Option NodeId
  | .add id _ => some id
  | _ => none

namespace Graph

variable {kind : Hierarchy} {g g' : Graph NodeId} {id parent x : NodeId}

/-! ### Nodes after an edit -/

theorem mem_nodeIds_add (hx : x ∈ (g.add kind id parent).2.nodeIds) : x ∈ g.nodeIds ∨ x = id := by
  obtain ⟨_, heq, _⟩ | ⟨_, _, hparent, heq⟩ := add_cases kind g id parent
  · rw [heq] at hx
    exact .inl hx
  · rw [heq] at hx
    rcases mem_nodeIds_addEdge.mp hx with hx | rfl | rfl
    · exact .inl hx
    · exact .inl hparent
    · exact .inr rfl

theorem mem_nodeIds_move (hx : x ∈ (g.move kind id parent).2.nodeIds) : x ∈ g.nodeIds := by
  obtain ⟨_, heq, _⟩ | ⟨_, _, hid, _, hparent, _, heq⟩ := move_cases kind g id parent
  · rwa [heq] at hx
  · rw [heq] at hx
    rcases mem_nodeIds_addEdge.mp hx with hx | rfl | rfl
    · exact hx
    · exact hparent
    · exact hid

theorem mem_nodeIds_remove (hx : x ∈ (g.remove kind id).2.nodeIds) : x ∈ g.nodeIds := by
  obtain ⟨_, heq, _⟩ | ⟨_, heq⟩ | ⟨_, _, heq⟩ := remove_cases kind g id
  · rwa [heq] at hx
  · rwa [heq] at hx
  · rw [heq] at hx
    exact (mem_nodeIds_removeNodes.mp hx).1

/-- An edit brings in no node but the one that it is to add. -/
theorem mem_nodeIds_edit {e : Edit NodeId} (hx : x ∈ (g.edit kind e).2.nodeIds) :
    x ∈ g.nodeIds ∨ e.added? = some x := by
  cases e with
  | add id parent => exact (mem_nodeIds_add hx).imp_right fun heq => congrArg some heq.symm
  | move id parent => exact .inl (mem_nodeIds_move hx)
  | trash id => exact .inl (mem_nodeIds_move hx)
  | remove id => exact .inl (mem_nodeIds_remove hx)

/-! ### What edits leave without attributes -/

theorem bare_addNode (h : ∀ n ∈ g.nodes, n.attributes = []) (id : NodeId) :
    ∀ n ∈ (g.addNode id).nodes, n.attributes = [] := by
  intro n hn
  unfold addNode at hn
  split at hn
  · obtain ⟨old, hold, rfl⟩ := List.mem_map.mp hn
    split <;> exact h old hold
  · rcases List.mem_append.mp hn with hn | hn
    · exact h n hn
    · rw [List.mem_singleton.mp hn]

theorem attributes_addNode (g : Graph NodeId) (id : NodeId) : (g.addNode id).attributes = g.attributes := by
  unfold addNode
  split <;> rfl

namespace IsStorable

theorem addEdge (h : g.IsStorable) (a b : NodeId) (hnew : ¬ g.HasEdge a b)
    (hshort : ∀ x ∈ (g.addEdge a b).nodeIds, digitCount x ≤ maxDigits) : (g.addEdge a b).IsStorable := by
  refine ⟨hshort, ?_, ?_, ?_⟩
  · unfold Graph.addEdge
    simp only
    split <;> exact (attributes_addNode _ b).trans ((attributes_addNode g a).trans h.bare)
  · have hnodes := bare_addNode (bare_addNode h.bare_nodes a) b
    unfold Graph.addEdge
    simp only
    split <;> exact hnodes
  · rw [edges_addEdge_of_not_hasEdge hnew]
    intro e he
    rcases List.mem_append.mp he with he | he
    · exact h.bare_edges e he
    · rw [List.mem_singleton.mp he]

theorem removeEdge (h : g.IsStorable) (a b : NodeId) : (g.removeEdge a b).IsStorable :=
  ⟨h.short, h.bare, h.bare_nodes, fun e he => h.bare_edges e (List.mem_of_mem_filter he)⟩

theorem edited (h : g.IsStorable) (hg : g.IsTreeOf kind) {outcome : Except (EditError NodeId) Unit}
    (he : Edited kind g outcome g') (hshort : ∀ x ∈ g'.nodeIds, digitCount x ≤ maxDigits) : g'.IsStorable := by
  cases he with
  | refused => exact h
  | unchanged => exact h
  | added _ hid _ => exact h.addEdge _ _ (hg.not_hasEdge_of_not_mem hid) hshort
  | @moved id parent old _ hold _ _ =>
    exact (h.removeEdge old id).addEdge parent id (hg.not_hasEdge_removeEdge hold) hshort
  | removed _ _ =>
    exact ⟨hshort, h.bare, fun n hn => h.bare_nodes n (List.mem_of_mem_filter hn),
      fun e he => h.bare_edges e (List.mem_of_mem_filter he)⟩

/-- Edits that add no node that is too long leave a tree such that a snapshot can hold it. -/
theorem edit (h : g.IsStorable) (hg : g.IsTreeOf kind) {e : Edit NodeId}
    (hadded : ∀ id, e.added? = some id → digitCount id ≤ maxDigits) : (g.edit kind e).2.IsStorable :=
  h.edited hg (edited_edit kind g e) fun x hx => (mem_nodeIds_edit hx).elim (h.short x) (hadded x)

end IsStorable

theorem seed_eq (kind : Hierarchy) : (seed kind : Graph NodeId) =
    { nodes := [⟨rootId, []⟩, ⟨kind.binId, []⟩], edges := [⟨rootId, kind.binId, []⟩] } := by
  cases kind <;> rfl

theorem isStorable_seed (kind : Hierarchy) : (seed kind : Graph NodeId).IsStorable := by
  refine ⟨?_, ?_, ?_, ?_⟩
  · cases kind <;> decide
  all_goals simp [seed_eq]

end Graph

namespace Directory

open StartNodes.Graph

variable {d d' : Directory NodeId}

theorem IsStorable.edit (h : d.IsStorable) (kind : Hierarchy) {e : Edit NodeId}
    (hadded : ∀ id, e.added? = some id → digitCount id ≤ maxDigits) : (d.edit kind e).2.IsStorable := by
  refine ⟨h.trees.edit kind e, fun other => ?_⟩
  by_cases hother : other = kind
  · subst hother
    rw [tree_edit]
    exact (h.storable other).edit (h.trees other) hadded
  · rw [tree_edit_of_ne d hother]
    exact h.storable other

theorem isStorable_seeded : (seeded : Directory NodeId).IsStorable := by
  refine ⟨hasTrees_seeded, fun kind => ?_⟩
  cases kind with
  | content => exact isStorable_seed .content
  | media => exact isStorable_seed .media

/-! ### Runs with reloads -/

/-- A step of a run: an edit of one hierarchy, or a save of the directory, whose text is loaded into another directory with
which the run goes on. -/
inductive Step where
  | edit (kind : Hierarchy) (e : Edit NodeId)
  | reload (other : Directory NodeId)

namespace Step

def isEdit : Step → Bool
  | .edit _ _ => true
  | .reload _ => false

/-- The directory with which a run goes on after a step. -/
def apply (d : Directory NodeId) : Step → Directory NodeId
  | .edit kind e => (d.edit kind e).2
  | .reload other => (other.load d.save).2

/-- How an edit ends; a reload has no outcome of its own. -/
def outcome? (d : Directory NodeId) : Step → Option (Except (EditError NodeId) Unit)
  | .edit kind e => some (d.edit kind e).1
  | .reload _ => none

/-- The step adds no node that is too long to be read. -/
def IsShort : Step → Prop
  | .edit _ e => ∀ id, e.added? = some id → digitCount id ≤ maxDigits
  | .reload _ => True

end Step

/-- The directory after the steps of a run. -/
def afterSteps (d : Directory NodeId) (steps : List Step) : Directory NodeId :=
  steps.foldl Step.apply d

/-- How the edits of a run end, in their order. -/
def outcomes (d : Directory NodeId) : List Step → List (Except (EditError NodeId) Unit)
  | [] => []
  | step :: steps => (step.outcome? d).toList ++ outcomes (step.apply d) steps

theorem IsStorable.apply (h : d.IsStorable) {step : Step} (hshort : step.IsShort) : (step.apply d).IsStorable := by
  cases step with
  | edit kind e => exact h.edit kind hshort
  | reload other =>
    rw [Step.apply, load_save h]
    exact h.regrouped

theorem IsStorable.afterSteps (h : d.IsStorable) {steps : List Step} (hshort : ∀ step ∈ steps, step.IsShort) :
    (d.afterSteps steps).IsStorable := by
  induction steps generalizing d with
  | nil => exact h
  | cons step steps ih =>
    obtain ⟨hstep, hshort⟩ := List.forall_mem_cons.mp hshort
    exact ih (h.apply hstep) hshort

/-- Runs of the same edits from directories like each other, one of them with reloads: their edits end in the same way, and
the directories are like each other in the end. -/
theorem Like.afterSteps (hl : d.Like d') (h : d.IsStorable) (h' : d'.IsStorable) {steps : List Step}
    (hshort : ∀ step ∈ steps, step.IsShort) :
    d.outcomes steps = d'.outcomes (steps.filter Step.isEdit) ∧
      (d.afterSteps steps).Like (d'.afterSteps (steps.filter Step.isEdit)) := by
  induction steps generalizing d d' with
  | nil => exact ⟨rfl, hl⟩
  | cons step steps ih =>
    obtain ⟨hstep, hrest⟩ := List.forall_mem_cons.mp hshort
    cases step with
    | edit kind e =>
      obtain ⟨houtcome, hafter⟩ := hl.edit h.trees h'.trees kind e
      obtain ⟨houtcomes, hlike⟩ := ih hafter (h.edit kind hstep) (h'.edit kind hstep) hrest
      rw [List.filter_cons_of_pos rfl]
      refine ⟨?_, hlike⟩
      rw [outcomes, outcomes, Step.outcome?, Step.outcome?, houtcome]
      exact congrArg _ houtcomes
    | reload other =>
      have hback : (Step.reload other).apply d = d.regrouped := congrArg Prod.snd (load_save h other)
      have hlike : d.regrouped.Like d' := h.like_regrouped.symm.trans hl
      rw [List.filter_cons_of_neg (by simp [Step.isEdit]), outcomes, Directory.afterSteps, List.foldl_cons, hback]
      exact ih hlike h.regrouped h' hrest

/-- Saving a directory and going on with another that the text is loaded into, at any points of a run of edits, changes
nothing: every edit ends as it does in the run without the reloads, and in the end both runs have the same nodes, paths
and tables of paths in both hierarchies and save the same text. A saved text is never refused, and whatever directory it
is loaded into saves that text again. -/
theorem reloads_change_nothing (steps : List Step) (hshort : ∀ step ∈ steps, step.IsShort) :
    let d := (seeded : Directory NodeId).afterSteps steps
    let plain := (seeded : Directory NodeId).afterSteps (steps.filter Step.isEdit)
    (seeded : Directory NodeId).outcomes steps = (seeded : Directory NodeId).outcomes (steps.filter Step.isEdit) ∧
      (∀ kind, (d.tree kind).nodeIds = (plain.tree kind).nodeIds ∧
        (∀ id, d.path? kind id = plain.path? kind id) ∧ ∀ ids, d.paths kind ids = plain.paths kind ids) ∧
      d.save = plain.save ∧
      ∀ other : Directory NodeId, (other.load d.save).1 = none ∧ (other.load d.save).2.save = d.save := by
  intro d plain
  have hd : d.IsStorable := isStorable_seeded.afterSteps hshort
  have hplain : plain.IsStorable :=
    isStorable_seeded.afterSteps fun step hstep => hshort step (List.mem_of_mem_filter hstep)
  obtain ⟨houtcomes, hlike⟩ := (Like.refl seeded).afterSteps isStorable_seeded isStorable_seeded hshort
  refine ⟨houtcomes, fun kind => ⟨(hlike kind).nodeIds_eq, fun id => ?_, fun ids => ?_⟩, hlike.save_eq, fun other => ?_⟩
  · exact hlike.path?_eq hd.trees hplain.trees kind id
  · exact hlike.paths_eq hd.trees hplain.trees kind ids
  · rw [load_save hd]
    exact ⟨rfl, hd.like_regrouped.save_eq.symm⟩

/-- A run in which a subtree goes to the recycle bin and comes back, and a node that has been removed is added again, with
reloads in between. -/
theorem reloads_change_nothing_between :
    let steps : List Step := [.edit .content (.add 7 rootId), .edit .content (.add 70 7), .reload seeded,
      .edit .content (.trash 7), .edit .content (.move 7 rootId), .reload seeded, .edit .content (.remove 70),
      .edit .content (.add 70 (-20)), .edit .content (.add 7 70)]
    (∀ step ∈ steps, step.IsShort) ∧
      (seeded : Directory NodeId).outcomes steps =
        [.ok (), .ok (), .ok (), .ok (), .ok (), .ok (), .error (.alreadyThere .content 7)] ∧
      ((seeded : Directory NodeId).afterSteps steps).path? .content 70 = .ok (some "-1,-20,70") := by
  intro steps
  have hshort : ∀ step ∈ steps, step.IsShort := by
    have hids : ∀ step ∈ steps, ∀ kind e, step = .edit kind e → ∀ id, e.added? = some id → id = 7 ∨ id = 70 := by
      simp [steps, Edit.added?]
    intro step hstep
    cases step with
    | reload => exact trivial
    | edit kind e =>
      intro id hid
      rcases hids _ hstep kind e rfl id hid with rfl | rfl <;> decide
  obtain ⟨houtcomes, hsame, -, -⟩ := reloads_change_nothing steps hshort
  refine ⟨hshort, ?_, ?_⟩
  · rw [houtcomes]
    rfl
  · rw [(hsame .content).2.1]
    rfl

end Directory

end StartNodes
