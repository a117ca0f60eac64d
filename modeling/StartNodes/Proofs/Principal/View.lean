import StartNodes.Principal
import Mathlib.Logic.Basic

/-!
What a hierarchy shows of a principal: its id, its own start nodes there, and its groups by their aliases, each with what it
declares there. What is revised in one hierarchy the other does not show.
-/

namespace StartNodes

/-- What a hierarchy shows of a group. -/
def GroupWith.view {σ : Type} (g : GroupWith σ) (kind : Hierarchy) : String × σ :=
  (g.aliasName, g.start kind)

namespace PrincipalWith

variable {σ τ : Type}

/-- What a hierarchy shows of a principal. -/
def view (p : PrincipalWith σ τ) (kind : Hierarchy) : Int × τ × List (String × σ) :=
  (p.userId, p.userStarts kind, p.groups.map fun g => g.view kind)

theorem groupDeclarations_eq_view (p : PrincipalWith σ τ) (kind : Hierarchy) :
    p.groupDeclarations kind = (p.view kind).2.2.map Prod.snd := by
  rw [groupDeclarations, view, List.map_map]
  rfl

/-! What is revised in a hierarchy is a revision of what the hierarchy shows; no other shows it. -/

theorem view_addGroup (p : PrincipalWith σ τ) (g : GroupWith σ) (kind : Hierarchy) :
    (p.addGroup g).view kind = ((p.view kind).1, (p.view kind).2.1, (p.view kind).2.2 ++ [g.view kind]) := by
  unfold view addGroup
  rw [List.map_append]
  cases kind <;> rfl

theorem view_dropGroup (p : PrincipalWith σ τ) (aliasName : String) (kind : Hierarchy) :
    (p.dropGroup aliasName).view kind =
      ((p.view kind).1, (p.view kind).2.1, (p.view kind).2.2.filter fun row => row.1 != aliasName) := by
  unfold view dropGroup
  rw [List.filter_map]
  cases kind <;> rfl

theorem view_setUserStarts (p : PrincipalWith σ τ) (starts : τ) (kind : Hierarchy) :
    (p.setUserStarts starts kind).view kind = ((p.view kind).1, starts, (p.view kind).2.2) := by
  cases kind <;> rfl

theorem view_setUserStarts_of_ne {kind other : Hierarchy} (h : other ≠ kind) (p : PrincipalWith σ τ) (starts : τ) :
    (p.setUserStarts starts other).view kind = p.view kind := by
  cases kind <;> cases other <;> first | rfl | exact absurd rfl h

theorem view_setGroupStart_eq (p : PrincipalWith σ τ) (aliasName : String) (start : σ) (other kind : Hierarchy) :
    (p.setGroupStart aliasName start other).view kind =
      ((p.view kind).1, (p.view kind).2.1,
        p.groups.map fun g => if g.aliasName == aliasName then (g.setStart start other).view kind else g.view kind) := by
  unfold view setGroupStart
  rw [List.map_map]
  refine congrArg₂ (fun starts rows => (p.userId, starts, rows)) (by cases kind <;> rfl) ?_
  exact List.map_congr_left fun g _ => apply_ite (fun g => GroupWith.view g kind) ..

theorem view_setGroupStart (p : PrincipalWith σ τ) (aliasName : String) (start : σ) (kind : Hierarchy) :
    (p.setGroupStart aliasName start kind).view kind =
      ((p.view kind).1, (p.view kind).2.1,
        (p.view kind).2.2.map fun row => if row.1 == aliasName then (row.1, start) else row) := by
  have hgroup : ∀ g : GroupWith σ, (g.setStart start kind).view kind = (g.aliasName, start) := by
    intro g
    cases kind <;> rfl
  rw [view_setGroupStart_eq]
  simp only [hgroup, view, List.map_map]
  rfl

theorem view_setGroupStart_of_ne {kind other : Hierarchy} (h : other ≠ kind) (p : PrincipalWith σ τ) (aliasName : String)
    (start : σ) : (p.setGroupStart aliasName start other).view kind = p.view kind := by
  have hgroup : ∀ g : GroupWith σ, (g.setStart start other).view kind = g.view kind := by
    intro g
    cases kind <;> cases other <;> first | rfl | exact absurd rfl h
  rw [view_setGroupStart_eq]
  simp only [hgroup, ite_self]
  rfl

end PrincipalWith

end StartNodes
