import StartNodes.Proofs.Decimal.RoundTrip
import Mathlib.Algebra.Group.Nat.Defs

/-!
An integer that has been read is not too long to be written and read again: it has no more digits than its text. The powers
of ten are where numbers get longer.
-/

namespace StartNodes.Decimal

open Text

theorem ofDigits_lt {ds : List Nat} (h : ∀ d ∈ ds, d < 10) (start : Nat) :
    ds.foldl (fun value d => 10 * value + d) start < (start + 1) * 10 ^ ds.length := by
  induction ds generalizing start with
  | nil => simp
  | cons d ds ih =>
    obtain ⟨hd, hds⟩ := List.forall_mem_cons.mp h
    calc ds.foldl (fun value d => 10 * value + d) (10 * start + d)
        < (10 * start + d + 1) * 10 ^ ds.length := ih hds _
      _ ≤ ((start + 1) * 10) * 10 ^ ds.length := Nat.mul_le_mul_right _ (by omega)
      _ = (start + 1) * 10 ^ (d :: ds).length := by rw [List.length_cons, Nat.pow_succ', Nat.mul_assoc]

theorem digitValue?_lt {c : Char} {d : Nat} (h : digitValue? c = some d) : d < 10 := by
  unfold digitValue? at h
  split at h
  · split at h
    · next hdigit =>
      have := toNat_of_isDigit hdigit
      cases h
      omega
    · cases h
  · obtain ⟨start, hfind, rfl⟩ := Option.map_eq_some_iff.mp h
    have := List.find?_some hfind
    simp only [Bool.and_eq_true, decide_eq_true_eq] at this
    omega

theorem length_natText_le {n k : Nat} (hk : 0 < k) (h : n < 10 ^ k) : (natText n).length ≤ k :=
  (Nat.length_toDigits_le_iff (by decide) hk).mpr h

theorem isWritable_iff {n : Int} : isWritable n = true ↔ digitCount n ≤ maxDigits :=
  decide_eq_true_iff

theorem lt_digitCount_pow {k : Nat} (hk : 0 < k) : k < digitCount (Nat.pow 10 k) := by
  rw [digitCount, Int.natAbs_natCast, natText, ← Nat.not_le, Nat.length_toDigits_le_iff (by decide) hk]
  exact Nat.lt_irrefl _

theorem pow_pos (k : Nat) : (0 : Int) < Nat.pow 10 k :=
  Int.natCast_pos.mpr (Nat.pow_pos (by decide))

/-- The least natural number that is too long to be written. -/
def leastOverlong : Int :=
  Nat.pow 10 maxDigits

theorem leastOverlong_pos : 0 < leastOverlong :=
  pow_pos maxDigits

theorem isWritable_leastOverlong : isWritable leastOverlong = false :=
  decide_eq_false (Nat.not_le.mpr (lt_digitCount_pow (by decide)))

theorem digitCount_neg (n : Int) : digitCount (-n) = digitCount n := by
  rw [digitCount, digitCount, Int.natAbs_neg]

theorem digitCount_ofDigits_le {cs : List Char} (h : cs.length ≤ maxDigits) :
    digitCount (ofDigits (cs.filterMap digitValue?)) ≤ maxDigits := by
  have hvalues : ∀ d ∈ cs.filterMap digitValue?, d < 10 := by
    intro d hd
    obtain ⟨c, _, hc⟩ := List.mem_filterMap.mp hd
    exact digitValue?_lt hc
  have hlt := ofDigits_lt hvalues 0
  rw [Nat.zero_add, Nat.one_mul] at hlt
  refine length_natText_le (by decide) (Nat.lt_of_lt_of_le hlt ?_)
  exact Nat.pow_le_pow_right (by decide) (Nat.le_trans (List.length_filterMap_le _ _) h)

/-- An integer that has been read has no more digits than its text may have. -/
theorem digitCount_le_of_readInt {text : String} {n : Int} (h : readInt text = .ok n) : digitCount n ≤ maxDigits := by
  rw [readInt, readChars] at h
  simp only at h
  split at h
  · cases h
  split at h
  · cases h
  · next digits _ hlength =>
    have hcount := digitCount_ofDigits_le (Nat.not_lt.mp hlength)
    split at h
    · cases h
      split
      · rwa [digitCount_neg]
      · exact hcount
    · cases h

end StartNodes.Decimal
