import StartNodes.Proofs.Decimal.Length
import StartNodes.Proofs.Directory.Edits

/-!
Edits and their reports. An edit is reported after it has been made, and a report that would name a node by too many digits
fails. So there are two ways for an edit to fail: it is refused and changes nothing, or it has been made and its report
fails. Whichever way, each hierarchy stays a tree. Where nodes are not too long, every edit that is accepted is reported.
-/

namespace StartNodes

open Decimal

namespace Graph

variable {kind : Hierarchy} {g : Graph NodeId} {e : Edit NodeId}

/-! ### Reports -/

theorem report_eq_ok_iff {outcome : Except (EditError NodeId) Unit} :
    g.report kind e outcome = .ok () ↔ outcome = .ok () ∧ ∀ id ∈ g.reported kind e, digitCount id ≤ maxDigits := by
  cases outcome with
  | error err => exact iff_of_false nofun fun h => nomatch h.1
  | ok =>
    rw [report]
    simp only [List.all_eq_true, NodeName.isWritable_nodeId, isWritable_iff, true_and]
    split
    · next hshort => exact iff_of_true rfl hshort
    · next hlong => exact iff_of_false nofun hlong

theorem error_of_report_refused {outcome : Except (EditError NodeId) Unit} {err : EditError NodeId}
    (h : g.report kind e outcome = .error (.refused err)) : outcome = .error err := by
  cases outcome with
  | ok =>
    rw [report] at h
    split at h <;> cases h
  | error other =>
    rw [report, Except.error.injEq] at h
    split at h
    · cases h
      rfl
    · cases h

/-- The report of an accepted edit names nodes that are in the tree before it or after it. -/
theorem mem_nodeIds_of_reported (h : g.WellFormed) (hok : (g.edit kind e).1 = .ok ()) {x : NodeId}
    (hx : x ∈ g.reported kind e) : x ∈ g.nodeIds ∨ x ∈ (g.edit kind e).2.nodeIds := by
  have hmoved : ∀ {id parent : NodeId}, (g.move kind id parent).1 = .ok () →
      x ∈ id :: (g.parents id).take 1 ++ [parent] → x ∈ g.nodeIds := by
    intro id parent hok hx
    obtain ⟨err, heq, -⟩ | ⟨old, -, hid, -, hparent, -⟩ := move_cases kind g id parent
    · rw [heq] at hok
      cases hok
    · rcases List.mem_append.mp hx with hx | hx
      · rcases List.mem_cons.mp hx with rfl | hx
        · exact hid
        · exact h.source_mem (mem_parents.mp (List.mem_of_mem_take hx))
      · rwa [List.mem_singleton.mp hx]
  cases e with
  | add id parent =>
    obtain ⟨err, heq, -⟩ | ⟨-, -, hparent, heq⟩ := add_cases kind g id parent
    · rw [edit, heq] at hok
      cases hok
    · rw [edit, heq]
      simp only [reported, List.mem_cons, List.not_mem_nil, or_false] at hx
      rcases hx with rfl | rfl
      · exact .inr (mem_nodeIds_addEdge.mpr (.inr (.inr rfl)))
      · exact .inl hparent
  | move id parent => exact .inl (hmoved hok hx)
  | trash id => exact .inl (hmoved hok hx)
  | remove id =>
    rw [reported] at hx
    split at hx
    · next hid => exact .inl (List.mem_singleton.mp hx ▸ hasNode_iff.mp hid)
    · cases hx

end Graph

namespace Directory

open StartNodes.Graph

variable {d : Directory NodeId} {kind : Hierarchy} {e : Edit NodeId}

@[simp]
theorem editAndReport_snd (d : Directory NodeId) (kind : Hierarchy) (e : Edit NodeId) :
    (d.editAndReport kind e).2 = (d.edit kind e).2 := rfl

/-- Where no node is too long, neither before an edit nor after it, an edit that is accepted is reported. -/
theorem editAndReport_eq_ok_iff (h : (d.tree kind).WellFormed) (hbefore : ∀ x ∈ (d.tree kind).nodeIds, digitCount x ≤ maxDigits)
    (hafter : ∀ x ∈ ((d.edit kind e).2.tree kind).nodeIds, digitCount x ≤ maxDigits) :
    (d.editAndReport kind e).1 = .ok () ↔ (d.edit kind e).1 = .ok () := by
  rw [tree_edit] at hafter
  refine report_eq_ok_iff.trans (and_iff_left_of_imp fun hok x hx => ?_)
  exact (mem_nodeIds_of_reported h hok hx).elim (hbefore x) (hafter x)

/-- An edit that fails has not been made, unless it is one that is accepted and its report names a node that is too long. -/
theorem editAndReport_of_error {f : EditFailure NodeId} (h : (d.editAndReport kind e).1 = .error f) :
    (d.editAndReport kind e).2 = d ∨
      (d.edit kind e).1 = .ok () ∧ ∃ id ∈ (d.tree kind).reported kind e, maxDigits < digitCount id := by
  cases hedit : (d.edit kind e).1 with
  | error err => exact .inl (edit_eq_of_error hedit)
  | ok =>
    refine .inr ⟨rfl, ?_⟩
    by_contra hlong
    have hshort : ∀ id ∈ (d.tree kind).reported kind e, digitCount id ≤ maxDigits :=
      fun id hid => Nat.le_of_not_lt fun hlt => hlong ⟨id, hid, hlt⟩
    have hok : (d.editAndReport kind e).1 = .ok () := report_eq_ok_iff.mpr ⟨hedit, hshort⟩
    exact nomatch hok.symm.trans h

/-- Edits that are reported, each of one hierarchy; one that fails does not keep the next from being tried. -/
def afterReported (d : Directory NodeId) (edits : List (Hierarchy × Edit NodeId)) : Directory NodeId :=
  edits.foldl (fun d e => (d.editAndReport e.1 e.2).2) d

theorem afterReported_eq (d : Directory NodeId) (edits : List (Hierarchy × Edit NodeId)) :
    d.afterReported edits = d.after edits := rfl

/-- Whatever edits have been tried on the directory, each hierarchy is a tree without a cycle, with the recycle bin
as a child of the root. A further edit leaves the other hierarchy as it is and does not miss a parent to detach a node
from; if it fails, it changes nothing, unless it is one that is accepted and its report names a node that is too long. -/
theorem trees_after_edits (edits : List (Hierarchy × Edit NodeId)) :
    let d := (seeded : Directory NodeId).afterReported edits
    ∀ kind,
      ((d.tree kind).IsTreeOf kind ∧ ∀ id, ¬ (d.tree kind).IsBelow id id) ∧
      ∀ e : Edit NodeId,
        (∀ other, other ≠ kind → (d.editAndReport kind e).2.tree other = d.tree other) ∧
        (∀ id, (d.editAndReport kind e).1 ≠ .error (.refused (.noParent id))) ∧
        (∀ f, (d.editAndReport kind e).1 = .error f → (d.editAndReport kind e).2 = d ∨
          (d.edit kind e).1 = .ok () ∧ ∃ id ∈ (d.tree kind).reported kind e, maxDigits < digitCount id) := by
  intro d kind
  have htree : (d.tree kind).IsTreeOf kind := by
    rw [show d = seeded.after edits from afterReported_eq seeded edits]
    exact hasTrees_after_seeded edits kind
  refine ⟨⟨htree, htree.not_isBelow_self⟩, fun e => ⟨?_, ?_, fun f => editAndReport_of_error⟩⟩
  · exact fun other hother => tree_edit_of_ne d hother e
  · exact fun id hmissed => htree.outcome_ne_noParent (edited_edit kind _ e) id (error_of_report_refused hmissed)

/-- A node is not moved below itself, and stays where it is. -/
theorem trees_after_edits_refused :
    let d := (seeded : Directory NodeId).afterReported [(.content, .add 7 rootId)]
    (d.editAndReport .content (.move 7 7)).1 = .error (.refused (.belowItself 7)) ∧
      (d.editAndReport .content (.move 7 7)).2 = d := by
  intro d
  have hrefused : (d.editAndReport .content (.move 7 7)).1 = .error (.refused (.belowItself 7)) := by decide
  have hshort : ∀ id ∈ (d.tree .content).reported .content (.move 7 7), digitCount id ≤ maxDigits := by decide
  have hfailed := ((trees_after_edits [(.content, .add 7 rootId)] .content).2 (.move 7 7)).2.2 _ hrefused
  exact ⟨hrefused, hfailed.resolve_right fun ⟨_, id, hid, hlong⟩ => Nat.not_lt_of_le (hshort id hid) hlong⟩

/-- A node that may be added but is too long to be named in the report is added, and the edit fails all the same. -/
theorem editAndReport_overlong {id parent : NodeId} (hreserved : id ∉ kind.reserved) (hid : id ∉ (d.tree kind).nodeIds)
    (hparent : parent ∈ (d.tree kind).nodeIds) (hlong : isWritable id = false) :
    (d.editAndReport kind (.add id parent)).1 = .error (.unwritable .tooLong) ∧
      id ∈ ((d.editAndReport kind (.add id parent)).2.tree kind).nodeIds := by
  have hadd := add_of_new hreserved hid hparent
  constructor
  · show (d.tree kind).report kind _ ((d.tree kind).add kind id parent).1 = _
    rw [hadd, report, reported, List.all_cons, NodeName.isWritable_nodeId, hlong]
    rfl
  · rw [editAndReport_snd, tree_edit, Graph.edit, hadd]
    exact mem_nodeIds_addEdge.mpr (.inr (.inr rfl))

/-- A node of more digits than are written, below the root of the seeded directory. -/
theorem trees_after_edits_unreported :
    let added := (seeded : Directory NodeId).editAndReport .content (.add leastOverlong rootId)
    added.1 = .error (.unwritable .tooLong) ∧ added.2 ≠ seeded := by
  intro added
  have hnodes : ((seeded : Directory NodeId).tree .content).nodeIds = Hierarchy.content.reserved := rfl
  have hreserved : leastOverlong ∉ Hierarchy.content.reserved := by
    have hpos := leastOverlong_pos
    simp only [Hierarchy.reserved, rootId, Hierarchy.binId, List.mem_cons, List.not_mem_nil, or_false]
    omega
  have hid : leastOverlong ∉ ((seeded : Directory NodeId).tree .content).nodeIds := hnodes ▸ hreserved
  have hroot : rootId ∈ ((seeded : Directory NodeId).tree .content).nodeIds := (hasTrees_seeded .content).root_mem
  obtain ⟨hfailed, hin⟩ := editAndReport_overlong hreserved hid hroot isWritable_leastOverlong
  refine ⟨hfailed, fun heq => hid ?_⟩
  rwa [← heq]

end Directory

end StartNodes
