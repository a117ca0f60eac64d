import StartNodes.Decimal.Numeral
import Mathlib.Data.List.TakeWhile

/-!
The decimal form of an integer reads back as the integer, as long as it is not too long to be read. It consists of
digits behind an optional minus sign, so it holds nothing that separates it from what stands before or behind it.
-/

namespace StartNodes.Decimal

open Text

/-! ### ASCII digits -/

theorem toNat_of_isDigit {c : Char} (h : c.isDigit = true) : 48 ≤ c.toNat ∧ c.toNat ≤ 57 := by
  simp only [Char.isDigit, Bool.and_eq_true, decide_eq_true_eq] at h
  exact h

theorem digitValue?_of_isDigit {c : Char} (h : c.isDigit = true) : digitValue? c = some (c.toNat - 48) := by
  have hascii : c.val < 0x80 := by
    have := (toNat_of_isDigit h).2
    rw [UInt32.lt_iff_toNat_lt]
    exact Nat.lt_of_le_of_lt this (by decide)
  rw [digitValue?, if_pos hascii, if_pos h]

theorem inNumber_of_isDigit {c : Char} (h : c.isDigit = true) : inNumber c = true := by
  rw [inNumber, isDecimalDigit, digitValue?_of_isDigit h]
  rfl

theorem isBlank_of_isDigit {c : Char} (h : c.isDigit = true) : isBlank c = false := by
  have := toNat_of_isDigit h
  simp only [isBlank, Bool.or_eq_false_iff, Bool.and_eq_false_iff, decide_eq_false_iff_not, beq_eq_false_iff_ne]
  omega

/-! ### Natural numbers -/

theorem isDigit_of_mem_natText {n : Nat} {c : Char} (h : c ∈ natText n) : c.isDigit = true :=
  Nat.isDigit_of_mem_toDigits (by decide) (by decide) h

theorem natText_ne_nil (n : Nat) : natText n ≠ [] :=
  Nat.toDigits_ne_nil

theorem ofDigits_filterMap_digitValue? {cs : List Char} (h : ∀ c ∈ cs, c.isDigit = true) (start : Nat) :
    (cs.filterMap digitValue?).foldl (fun value d => 10 * value + d) start = Nat.ofDigitChars 10 cs start := by
  induction cs generalizing start with
  | nil => rfl
  | cons c cs ih =>
      rw [List.filterMap_cons_some (digitValue?_of_isDigit (h c List.mem_cons_self)), List.foldl_cons,
        ih (fun d hd => h d (List.mem_cons_of_mem c hd)), Nat.ofDigitChars_cons]
      rfl

theorem ofDigits_natText (n : Nat) : ofDigits ((natText n).filterMap digitValue?) = n := by
  rw [ofDigits, ofDigits_filterMap_digitValue? (fun c => isDigit_of_mem_natText)]
  exact Nat.ofDigitChars_ten_toDigits

theorem natText_injective {m n : Nat} (h : natText m = natText n) : m = n := by
  rw [← ofDigits_natText m, h, ofDigits_natText]

theorem digitGroups?_natText (n : Nat) : digitGroups? (natText n) = some (natText n) := by
  have hone : '_' ∉ natText n := Nat.underscore_not_in_toDigits
  rw [digitGroups?, List.splitOn_eq_singleton hone]
  have hne : (natText n).isEmpty = false := by
    rw [List.isEmpty_eq_false_iff]
    exact natText_ne_nil n
  simp [hne]

/-! ### Integers -/

theorem splitSign_natText (n : Nat) : splitSign (natText n) = (false, natText n) := by
  cases hn : natText n with
  | nil => exact absurd hn (natText_ne_nil n)
  | cons c cs =>
      have hc : c.isDigit = true := isDigit_of_mem_natText (hn ▸ List.mem_cons_self)
      unfold splitSign
      split
      · next heq =>
          rw [(List.cons.inj heq).1] at hc
          cases hc
      · next heq =>
          rw [(List.cons.inj heq).1] at hc
          cases hc
      · rfl

theorem splitSign_intText (n : Int) : splitSign (intText n) = (decide (n < 0), natText n.natAbs) := by
  unfold intText
  by_cases hn : n < 0
  · rw [if_pos hn, decide_eq_true hn]
    rfl
  · rw [if_neg hn, decide_eq_false hn]
    exact splitSign_natText _

theorem of_mem_intText {n : Int} {c : Char} (h : c ∈ intText n) : c = '-' ∨ c.isDigit = true := by
  unfold intText at h
  split at h
  · exact (List.mem_cons.mp h).imp_right isDigit_of_mem_natText
  · exact Or.inr (isDigit_of_mem_natText h)

theorem isBlank_of_mem_intText {n : Int} {c : Char} (h : c ∈ intText n) : isBlank c = false := by
  rcases of_mem_intText h with rfl | hc
  · rfl
  · exact isBlank_of_isDigit hc

theorem intText_ne_nil (n : Int) : intText n ≠ [] := by
  unfold intText
  split
  · exact List.cons_ne_nil _ _
  · exact natText_ne_nil _

theorem intText_injective {m n : Int} (h : intText m = intText n) : m = n := by
  have hsplit := congrArg splitSign h
  rw [splitSign_intText, splitSign_intText, Prod.mk.injEq, decide_eq_decide] at hsplit
  have habs := natText_injective hsplit.2
  have hsign := hsplit.1
  omega

/-- The decimal form of an integer is refused if it is too long, and otherwise reads back. -/
theorem readChars_intText_eq (n : Int) :
    readChars (intText n) = if digitCount n > maxDigits then .error (.tooLong (digitCount n)) else .ok n := by
  have hall : ∀ c ∈ natText n.natAbs, inNumber c = true := fun c hc => inNumber_of_isDigit (isDigit_of_mem_natText hc)
  have hstart : (intText n).dropWhile isBlank = intText n := by
    rw [List.dropWhile_eq_self_iff]
    intro hlen
    rw [isBlank_of_mem_intText (List.getElem_mem hlen)]
    exact Bool.false_ne_true
  have hrun : (natText n.natAbs).takeWhile inNumber = natText n.natAbs := List.takeWhile_eq_self_iff.mpr hall
  have hrest : (natText n.natAbs).dropWhile inNumber = [] := List.dropWhile_eq_nil_iff.mpr hall
  rw [readChars, hstart, splitSign_intText]
  simp only [hrun, hrest, digitGroups?_natText, ofDigits_natText, List.all_nil, if_true]
  refine if_congr Iff.rfl rfl (congrArg _ ?_)
  by_cases hn : n < 0
  · rw [decide_eq_true hn, if_pos rfl]
    omega
  · rw [decide_eq_false hn, if_neg Bool.false_ne_true]
    omega

/-- An integer that is not too long reads back from its decimal form. -/
theorem readChars_intText {n : Int} (h : digitCount n ≤ maxDigits) : readChars (intText n) = .ok n := by
  rw [readChars_intText_eq, if_neg (Nat.not_lt.mpr h)]

end StartNodes.Decimal
