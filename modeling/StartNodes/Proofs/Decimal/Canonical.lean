import StartNodes.Proofs.Decimal.RoundTrip
import Mathlib.Data.List.Basic
import Mathlib.Tactic.IntervalCases

/-!
The form in which integers are written: ASCII digits, with no zero in front of others, behind a minus sign or not, and no
sign before a zero alone. Every text of this form is written for some integer. So among all the spellings that are read as
an integer, the one that is written for it is the only one of this form.
-/

namespace StartNodes.Decimal

/-- Digits as they are written: at least one, and the first is a zero only if it stands alone. -/
def AreCanonical (digits : List Char) : Prop :=
  digits ≠ [] ∧ digits.all Char.isDigit = true ∧ (digits.head? = some '0' → digits = ['0'])

/-- A numeral as it is written: canonical digits, or a minus sign before canonical digits other than a zero alone. -/
def IsCanonical (text : List Char) : Prop :=
  AreCanonical text ∨ text.head? = some '-' ∧ AreCanonical text.tail ∧ text.tail ≠ ['0']

instance (digits : List Char) : Decidable (AreCanonical digits) :=
  inferInstanceAs (Decidable (_ ∧ _ ∧ _))

instance (text : List Char) : Decidable (IsCanonical text) :=
  inferInstanceAs (Decidable (_ ∨ _ ∧ _ ∧ _))

/-! ### What is written is canonical -/

theorem head?_natText_ne {n : Nat} (h : n ≠ 0) : (natText n).head? ≠ some '0' := by
  induction n using Nat.strongRecOn with
  | ind n ih =>
    by_cases hlt : n < 10
    · rw [natText, Nat.toDigits_of_lt_base hlt]
      interval_cases n
      · exact absurd rfl h
      all_goals decide
    · have hpos : n / 10 ≠ 0 := by omega
      have htail := ih (n / 10) (by omega) hpos
      rw [natText, Nat.toDigits_of_base_le (by omega) (by omega), List.head?_append_of_ne_nil _ Nat.toDigits_ne_nil]
      exact htail

theorem areCanonical_natText (n : Nat) : AreCanonical (natText n) := by
  refine ⟨natText_ne_nil n, List.all_eq_true.mpr fun c => isDigit_of_mem_natText, fun hhead => ?_⟩
  by_cases hn : n = 0
  · rw [hn]
    exact Nat.toDigits_zero 10
  · exact absurd hhead (head?_natText_ne hn)

theorem isCanonical_intText (n : Int) : IsCanonical (intText n) := by
  unfold intText
  split
  · next hneg =>
    refine .inr ⟨rfl, areCanonical_natText n.natAbs, fun hzero => ?_⟩
    refine head?_natText_ne (n := n.natAbs) (by omega) ?_
    rw [List.tail_cons] at hzero
    rw [hzero]
    rfl
  · exact .inl (areCanonical_natText n.natAbs)

/-! ### What is canonical is written -/

theorem natText_digit {c : Char} (h : c.isDigit = true) : natText (c.toNat - 48) = [c] := by
  have hrange := toNat_of_isDigit h
  have hlt : c.toNat - 48 < 10 := by omega
  have hchar : (c.toNat - 48).digitChar = c := by
    rw [← Char.toNat_inj, Nat.toNat_digitChar_of_lt_ten hlt]
    omega
  rw [natText, Nat.toDigits_of_lt_base hlt, hchar]

/-- Digits that follow those of a number other than zero are taken up as they stand. -/
theorem natText_ofDigitChars {cs : List Char} (h : ∀ c ∈ cs, c.isDigit = true) {n : Nat} (hn : 0 < n) :
    natText (Nat.ofDigitChars 10 cs n) = natText n ++ cs := by
  induction cs generalizing n with
  | nil => rw [Nat.ofDigitChars_nil, List.append_nil]
  | cons c cs ih =>
      obtain ⟨hc, hcs⟩ := List.forall_mem_cons.mp h
      have hlt : c.toNat - 48 < 10 := by
        have := toNat_of_isDigit hc
        omega
      calc natText (Nat.ofDigitChars 10 (c :: cs) n)
          = natText (10 * n + (c.toNat - 48)) ++ cs := by
            rw [Nat.ofDigitChars_cons]
            exact ih hcs (by omega)
        _ = natText n ++ natText (c.toNat - 48) ++ cs := by
            rw [natText, ← Nat.toDigits_append_toDigits (by decide) hn hlt, natText, natText]
        _ = natText n ++ c :: cs := by rw [natText_digit hc, List.append_assoc, List.singleton_append]

theorem AreCanonical.exists_natText {digits : List Char} (h : AreCanonical digits) : ∃ n, natText n = digits := by
  obtain ⟨hne, hdigits, hzero⟩ := h
  obtain ⟨c, cs, rfl⟩ := List.exists_cons_of_ne_nil hne
  obtain ⟨hc, hcs⟩ := List.forall_mem_cons.mp (List.all_eq_true.mp hdigits)
  by_cases hhead : c = '0'
  · rw [hzero (congrArg some hhead)]
    exact ⟨0, Nat.toDigits_zero 10⟩
  · have hpos : 0 < c.toNat - 48 := by
      have hrange := toNat_of_isDigit hc
      have hne : c.toNat ≠ 48 := fun heq => hhead (Char.toNat_inj.mp heq)
      omega
    refine ⟨Nat.ofDigitChars 10 cs (c.toNat - 48), ?_⟩
    rw [natText_ofDigitChars hcs hpos, natText_digit hc, List.singleton_append]

theorem IsCanonical.exists_intText {text : List Char} (h : IsCanonical text) : ∃ n, intText n = text := by
  rcases h with h | ⟨hsign, h, hne⟩
  · obtain ⟨n, rfl⟩ := h.exists_natText
    exact ⟨n, if_neg (by omega)⟩
  · obtain ⟨n, hn⟩ := h.exists_natText
    have hpos : n ≠ 0 := by
      rintro rfl
      exact hne (hn.symm.trans (Nat.toDigits_zero 10))
    refine ⟨-(n : Int), ?_⟩
    rw [intText, if_pos (by omega), Int.natAbs_neg, Int.natAbs_natCast, hn]
    exact List.cons_head?_tail hsign

/-- Of all the spellings of an integer, the one that is written for it is the canonical one. -/
theorem intText_eq_iff_isCanonical {text : List Char} {n : Int} (h : readChars text = .ok n) :
    intText n = text ↔ IsCanonical text := by
  refine ⟨fun heq => heq ▸ isCanonical_intText n, fun hcanonical => ?_⟩
  obtain ⟨m, rfl⟩ := hcanonical.exists_intText
  rw [readChars_intText_eq] at h
  split at h
  · cases h
  · rw [Except.ok.inj h]

end StartNodes.Decimal
