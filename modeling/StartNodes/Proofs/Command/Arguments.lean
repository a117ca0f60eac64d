import StartNodes.Command.Arguments
import StartNodes.Proofs.Decimal.Length

/-!
What command lines ask for: a node that is to be added has been read from an argument, so it is not too long to be written
into a snapshot and read from it again.
-/

namespace StartNodes.Command

open Decimal

/-- The integers among some values are not too long to be read. -/
def ShortValues (values : List (String × Value)) : Prop :=
  ∀ name n, (name, Value.integer n) ∈ values → digitCount n ≤ maxDigits

/-- A node that a task adds is not too long to be read. -/
def Task.IsShort : Task → Prop
  | .addNode _ (some id) _ => digitCount id ≤ maxDigits
  | _ => True

def Request.IsShort : Request → Prop
  | .task t => t.IsShort
  | _ => True

theorem shortValues_nil : ShortValues [] :=
  fun _ _ h => absurd h List.not_mem_nil

theorem ShortValues.cons {values : List (String × Value)} (h : ShortValues values) {value : Value}
    (hvalue : ∀ n, value = .integer n → digitCount n ≤ maxDigits) (name : String) :
    ShortValues ((name, value) :: values) := by
  intro other n hmem
  rcases List.mem_cons.mp hmem with heq | hmem
  · exact hvalue n (Prod.mk.inj heq).2.symm
  · exact h other n hmem

theorem OptionSpec.short_of_read {o : OptionSpec} {text : String} {value : Value} (h : o.read text = .ok value) (n : Int)
    (hn : value = .integer n) : digitCount n ≤ maxDigits := by
  subst hn
  unfold OptionSpec.read at h
  split at h
  · split at h
    · next hread =>
      cases h
      exact digitCount_le_of_readInt hread
    · cases h
  · split at h <;> cases h
  · cases h

theorem OptionSpec.short_of_readInline {o : OptionSpec} {text : String} {value : Value} (h : o.readInline text = .ok value)
    (n : Int) (hn : value = .integer n) : digitCount n ≤ maxDigits := by
  unfold OptionSpec.readInline at h
  split at h
  · cases h
    cases hn
  · exact o.short_of_read h n hn

theorem shortValues_of_readOptions {tokens : List (String × Token)} {values read : List (String × Value)}
    {extra more : List String} (hvalues : ShortValues values)
    (h : readOptions tokens values extra = .ok (.values read more)) : ShortValues read := by
  fun_induction readOptions tokens values extra with
  | case1 values extra =>
    cases h
    exact hvalues
  | case2 _ _ _ _ ih => exact ih hvalues h
  | case3 _ _ _ _ ih => exact ih hvalues h
  | case4 _ _ _ _ ih => exact ih hvalues h
  | case5 _ m _ _ _ _ =>
    cases hhelp : askHelp m <;> rw [hhelp] at h <;> cases h
  | case6 | case8 | case10 => cases h
  | case7 _ _ _ _ o _ _ _ _ value hread ih => exact ih (hvalues.cons (o.short_of_readInline hread) o.name) h
  | case9 _ _ _ _ o _ _ _ _ value hread ih => exact ih (hvalues.cons (o.short_of_read hread) o.name) h

theorem Subcommand.shortValues_of_readArguments {c : Subcommand} {arguments : List String}
    {values : List (String × Value)} {extra : List String} (h : c.readArguments arguments = .ok (.values values extra)) :
    ShortValues values := by
  unfold readArguments at h
  split at h
  · cases h
  split at h
  · next hread =>
    simp only at h
    split at h
    · cases h
      exact shortValues_of_readOptions shortValues_nil hread
    · cases h
  · next hother => exact absurd h (hother values extra)

theorem Subcommand.digitCount_le_of_integerIn {values : List (String × Value)} (h : ShortValues values) {o : OptionSpec}
    {n : Int} (hn : integerIn values o = some n) : digitCount n ≤ maxDigits := by
  unfold integerIn at hn
  split at hn
  · next found hlookup =>
    cases hn
    obtain ⟨before, after, rfl, _⟩ := List.lookup_eq_some_iff.mp hlookup
    exact h o.name n (List.mem_append_right _ List.mem_cons_self)
  · cases hn
  · cases hn

theorem Subcommand.isShort_of_task? {c : Subcommand} {values : List (String × Value)} (h : ShortValues values) {t : Task}
    (ht : c.task? values = some t) : t.IsShort := by
  unfold task? at ht
  simp only at ht
  split at ht
  · cases ht
    unfold Task.IsShort
    split
    · next hadd =>
      rw [Task.addNode.injEq] at hadd
      exact digitCount_le_of_integerIn h hadd.2.1
    · exact trivial
  · cases ht
    exact trivial
  · cases ht
    exact trivial
  · cases ht
    exact trivial
  · cases ht

theorem Subcommand.isShort_request (c : Subcommand) (arguments extra : List String) :
    (c.request arguments extra).IsShort := by
  unfold request
  split
  · exact trivial
  · exact trivial
  · next hread =>
    split
    · exact trivial
    split
    · next t ht => exact isShort_of_task? (shortValues_of_readArguments hread) ht
    · exact trivial

theorem isShort_requestFor (name : String) (arguments extra : List String) :
    (requestFor name arguments extra).IsShort := by
  unfold requestFor
  split
  · exact Subcommand.isShort_request _ arguments extra
  · exact trivial

theorem isShort_readProgram (tokens : List (String × Token)) (extra : List String) :
    (readProgram tokens extra).IsShort := by
  fun_induction readProgram tokens extra with
  | case1 | case2 | case4 | case7 | case8 => exact trivial
  | case3 => exact isShort_requestFor _ _ _
  | case5 => exact isShort_requestFor _ _ _
  | case6 _ _ _ ih => exact ih
  | case9 _ _ _ _ _ _ ih => exact ih

/-- A node that a command line asks to add is not too long to be read. -/
theorem isShort_of_readCommandLine {arguments : List String} {t : Task} (h : readCommandLine arguments = .task t) :
    t.IsShort := by
  have hshort : (readCommandLine arguments).IsShort := by
    unfold readCommandLine
    split
    · exact trivial
    · exact isShort_readProgram _ _
  rwa [h] at hshort

end StartNodes.Command
