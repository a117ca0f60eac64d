import StartNodes.Json.Printer
import StartNodes.Json.Reader
import StartNodes.Proofs.Decimal.Canonical
import StartNodes.Proofs.Text.Ascii
import Mathlib.Data.List.Basic

/-!
Written integers and plain texts read back, whatever stands behind them as long as it does not lengthen a number.
-/

namespace StartNodes

namespace Decimal

open Text

theorem digitsValue_natText (n : Nat) : digitsValue (natText n) = n := by
  have hmap : (natText n).filterMap digitValue? = (natText n).map fun c => c.toNat - 48 := by
    rw [← List.filterMap_eq_map']
    exact List.filterMap_congr fun c hc => digitValue?_of_isDigit (isDigit_of_mem_natText hc)
  rw [digitsValue, ← hmap, ofDigits_natText]

end Decimal

namespace Json

open Decimal Text

/-! ### What stands around a value -/

/-- A list of blanks. -/
def Blank (cs : List Char) : Prop :=
  ∀ c ∈ cs, isSpace c = true

theorem skipSpace_append {blanks : List Char} (h : Blank blanks) (cs : List Char) :
    skipSpace (blanks ++ cs) = skipSpace cs :=
  List.dropWhile_append_of_pos h

theorem skipSpace_cons {c : Char} (h : isSpace c = false) (cs : List Char) : skipSpace (c :: cs) = c :: cs := by
  rw [skipSpace, List.dropWhile_cons_of_neg (by rw [h]; exact Bool.false_ne_true)]

theorem blank_nil : Blank [] :=
  nofun

theorem blank_lineBreak (layout : Layout) (depth : Nat) : Blank (layout.lineBreak depth) := by
  cases layout with
  | oneLine => exact nofun
  | indented width =>
    intro c hc
    rcases List.mem_cons.mp hc with rfl | hc
    · rfl
    · rw [List.eq_of_mem_replicate hc]
      rfl

/-- A separator is a comma with blanks behind it. -/
theorem exists_separator_eq (layout : Layout) (depth : Nat) :
    ∃ blanks, layout.separator depth = ',' :: blanks ∧ Blank blanks := by
  cases layout with
  | oneLine =>
    refine ⟨[' '], rfl, fun c hc => ?_⟩
    rw [List.mem_singleton.mp hc]
    rfl
  | indented width => exact ⟨_, rfl, blank_lineBreak (.indented width) depth⟩

/-- What follows does not lengthen a number: it does not begin with a digit, a point or the letter of an exponent. -/
def Ends (rest : List Char) : Prop :=
  ∀ c ∈ rest.head?, c.isDigit = false ∧ c ≠ '.' ∧ c ≠ 'e' ∧ c ≠ 'E'

theorem ends_nil : Ends [] :=
  nofun

theorem ends_cons {c : Char} (h : c = ',' ∨ c = ']' ∨ c = '\x7d' ∨ isSpace c = true) (cs : List Char) :
    Ends (c :: cs) := by
  intro d hd
  obtain rfl : c = d := by simpa using hd
  rcases h with rfl | rfl | rfl | h
  · decide
  · decide
  · decide
  · simp only [isSpace, Bool.or_eq_true, beq_iff_eq] at h
    rcases h with ((rfl | rfl) | rfl) | rfl <;> decide

theorem Blank.ends_append {blanks rest : List Char} (h : Blank blanks) (hrest : Ends rest) : Ends (blanks ++ rest) := by
  cases blanks with
  | nil => exact hrest
  | cons c blanks => exact ends_cons (.inr (.inr (.inr (h c List.mem_cons_self)))) _

/-! ### Integers -/

theorem splitPart_of_ends {rest : List Char} (h : Ends rest) : splitPart rest = ([], rest) := by
  unfold splitPart
  split
  · exact absurd rfl (h '.' rfl).2.1
  · rfl

theorem splitExponent_of_ends {rest : List Char} (h : Ends rest) : splitExponent rest = ([], rest) := by
  unfold splitExponent
  split
  · next c cs =>
    obtain ⟨-, -, he, hE⟩ := h c rfl
    simp [he, hE]
  · rfl

theorem takeWhile_isDigit_natText (n : Nat) {rest : List Char} (h : Ends rest) :
    (natText n ++ rest).takeWhile Char.isDigit = natText n := by
  rw [List.takeWhile_append_of_pos fun c => isDigit_of_mem_natText]
  cases rest with
  | nil => rw [List.takeWhile_nil, List.append_nil]
  | cons c rest =>
    rw [List.takeWhile_cons_of_neg (by rw [(h c rfl).1]; exact Bool.false_ne_true), List.append_nil]

/-- Whether a reader takes a number with so many digits for an integer. -/
structure Fits (rules : Rules) (digits : Nat) : Prop where
  le_maxDigits : digits ≤ maxDigits
  le_maxWhole : ∀ most, rules.maxWhole = some most → digits ≤ most

theorem Fits.any_maxWhole {rules : Rules} {digits : Nat} (h : Fits rules digits) :
    rules.maxWhole.any (· < digits) = false := by
  cases hmost : rules.maxWhole with
  | none => rfl
  | some most => simpa using h.le_maxWhole most hmost

/-- A natural number is read to its end, with or without a sign in front: only zero begins with a zero. -/
theorem readNumber_natText {rules : Rules} {n : Nat} (hfits : Fits rules (natText n).length) {rest : List Char}
    (h : Ends rest) :
    readNumber rules (natText n ++ rest) = .ok (.int n, rest) ∧
      readNumber rules ('-' :: (natText n ++ rest)) = .ok (.int (-n), rest) := by
  have hmost := hfits.any_maxWhole
  have hshort : ¬ (natText n).length > maxDigits := Nat.not_lt.mpr hfits.le_maxDigits
  have hnonempty : (natText n).isEmpty = false := List.isEmpty_eq_false_iff.mpr (natText_ne_nil n)
  have hhead : ∀ c cs, natText n ++ rest = c :: cs → (natText n).head? = some c := by
    intro c cs heq
    rw [← List.head?_append_of_ne_nil _ (natText_ne_nil n), heq, List.head?_cons]
  have hminus : ∀ cs, natText n ++ rest = '-' :: cs → False := by
    intro cs heq
    exact absurd (isDigit_of_mem_natText (List.mem_of_mem_head? (hhead _ _ heq))) (by decide)
  by_cases hn : n = 0
  · subst hn
    rw [show natText 0 = ['0'] from rfl, List.length_singleton] at hmost hshort
    rw [show natText 0 ++ rest = '0' :: rest from rfl]
    constructor <;> rw [readNumber]
    all_goals
      simp only [hmost, hshort, List.isEmpty_cons, List.length_singleton, List.drop_one, List.tail_cons,
        splitPart_of_ends h, splitExponent_of_ends h]
      rfl
  · have hzero : ∀ cs, natText n ++ rest = '0' :: cs → False := fun cs heq => head?_natText_ne hn (hhead _ _ heq)
    constructor <;> rw [readNumber] <;> try first | exact hminus | exact hzero
    all_goals
      simp only [takeWhile_isDigit_natText n h, hmost, hshort, hnonempty, List.drop_left, splitPart_of_ends h,
        splitExponent_of_ends h, digitsValue_natText]
      rfl

theorem readNumber_intText {rules : Rules} {n : Int} (hfits : Fits rules (digitCount n)) {rest : List Char}
    (h : Ends rest) : readNumber rules (intText n ++ rest) = .ok (.int n, rest) := by
  obtain ⟨hpos, hneg⟩ := readNumber_natText (n := n.natAbs) hfits h
  unfold intText
  by_cases hn : n < 0
  · rw [if_pos hn, List.cons_append, hneg]
    congr 3
    omega
  · rw [if_neg hn, hpos]
    congr 3
    omega

/-- The first character of a written integer, which no word begins with but one, that goes on with a letter. -/
theorem exists_intText_eq (n : Int) : ∃ c cs, intText n = c :: cs ∧
    (c.isDigit = true ∨ c = '-' ∧ ∃ d ds, cs = d :: ds ∧ d.isDigit = true) := by
  obtain ⟨d, ds, hnat⟩ := List.exists_cons_of_ne_nil (natText_ne_nil n.natAbs)
  have hd : d.isDigit = true := isDigit_of_mem_natText (hnat ▸ List.mem_cons_self)
  unfold intText
  split
  · exact ⟨'-', _, rfl, .inr ⟨rfl, d, ds, hnat, hd⟩⟩
  · exact ⟨d, ds, hnat, .inl hd⟩

/-- A word that begins with two characters, neither of them a digit, does not begin a written integer. -/
theorem afterWord?_intText {word : String} {a b : Char} {letters : List Char} (hword : word.toList = a :: b :: letters)
    (ha : a.isDigit = false) (hb : b.isDigit = false) (n : Int) (rest : List Char) :
    afterWord? word (intText n ++ rest) = none := by
  have hprefix : ¬ (word.toList.isPrefixOf (intText n ++ rest)) = true := by
    rw [hword, List.isPrefixOf_iff_prefix]
    obtain ⟨c, cs, heq, hc | ⟨-, d, ds, rfl, hd⟩⟩ := exists_intText_eq n
    · rw [heq, List.cons_append, List.cons_prefix_cons]
      rintro ⟨rfl, -⟩
      rw [ha] at hc
      cases hc
    · rw [heq, List.cons_append, List.cons_append, List.cons_prefix_cons, List.cons_prefix_cons]
      rintro ⟨-, rfl, -⟩
      rw [hb] at hd
      cases hd
  simp only [afterWord?, if_neg hprefix]

theorem readPlain_intText {rules : Rules} {n : Int} (hfits : Fits rules (digitCount n)) {rest : List Char}
    (h : Ends rest) : readPlain rules (intText n ++ rest) = .ok (.int n, rest) := by
  have hnone : ∀ word ∈ ["null", "true", "false", "NaN", "Infinity", "-Infinity"],
      afterWord? word (intText n ++ rest) = none := by
    intro word hword
    have hletters : ∃ a b letters, word.toList = a :: b :: letters ∧ a.isDigit = false ∧ b.isDigit = false := by
      simp only [List.mem_cons, List.not_mem_nil, or_false] at hword
      rcases hword with rfl | rfl | rfl | rfl | rfl | rfl <;> exact ⟨_, _, _, rfl, by decide, by decide⟩
    obtain ⟨a, b, letters, hword, ha, hb⟩ := hletters
    exact afterWord?_intText hword ha hb n rest
  unfold readPlain
  simp only [hnone, List.mem_cons, true_or, or_true, readNumber_intText hfits h]

/-! ### Plain texts -/

/-- A character that stands for itself in a written string. -/
def IsPlain (c : Char) : Prop :=
  0x20 ≤ c.toNat ∧ c.toNat ≤ 0x7e ∧ c ≠ '"' ∧ c ≠ '\\'

instance (c : Char) : Decidable (IsPlain c) :=
  inferInstanceAs (Decidable (_ ∧ _))

/-- A text of characters that stand for themselves. -/
def IsPlainText (s : String) : Prop :=
  ∀ c ∈ s.toList, IsPlain c

instance (s : String) : Decidable (IsPlainText s) :=
  List.decidableBAll IsPlain s.toList

theorem IsPlain.isAscii {c : Char} (h : IsPlain c) : IsAscii c :=
  Nat.lt_of_le_of_lt h.2.1 (by decide)

theorem escapeCodePoint_toNat {c : Char} (h : IsPlain c) : escapeCodePoint c.toNat = [c] := by
  obtain ⟨hlow, hhigh, hquote, hslash⟩ := h
  have hquote : c.toNat ≠ 0x22 := fun heq => hquote (Char.toNat_inj.mp heq)
  have hslash : c.toNat ≠ 0x5c := fun heq => hslash (Char.toNat_inj.mp heq)
  unfold escapeCodePoint
  rw [if_neg hquote, if_neg hslash, if_neg (by omega), if_neg (by omega), if_neg (by omega), if_neg (by omega),
    if_neg (by omega), if_pos ⟨hlow, hhigh⟩, Char.ofNat_toNat]

/-- A plain text is written as it is, between quotes. -/
theorem writtenText_plain {s : String} (h : IsPlainText s) : writtenText s = '"' :: s.toList ++ ['"'] := by
  have hcodes : codePoints s = s.toList.map Char.toNat := codePoints_of_ne_mark fun c hc => (h c hc).isAscii.ne_mark
  have hchars : (s.toList.map Char.toNat).flatMap escapeCodePoint = s.toList := by
    rw [List.flatMap_map, flatMap_eq_map fun c hc => escapeCodePoint_toNat (h c hc), List.map_id']
  rw [writtenText, hcodes, hchars]

theorem readPieces_plain {cs : List Char} (h : ∀ c ∈ cs, IsPlain c) (rest : List Char) (acc : List Piece) :
    readPieces (cs ++ '"' :: rest) acc = .ok (acc.reverse ++ cs.map .char, rest) := by
  induction cs generalizing acc with
  | nil => simp [readPieces]
  | cons c cs ih =>
    obtain ⟨hlow, -, hquote, hslash⟩ := h c List.mem_cons_self
    rw [List.cons_append, readPieces, if_neg (by omega), ih fun d hd => h d (List.mem_cons_of_mem c hd)]
    · simp
    · exact hquote
    · exact fun _ _ _ _ _ heq => absurd heq hslash
    · exact fun _ _ heq => absurd heq hslash

theorem joinPieces_char (cs : List Char) (acc : List Piece) :
    joinPieces (cs.map .char) acc = acc.reverse ++ cs.map .char := by
  induction cs generalizing acc with
  | nil => simp [joinPieces]
  | cons c cs ih => simp [joinPieces, ih]

theorem readString_plain (rules : Rules) {s : String} (h : IsPlainText s) (rest : List Char) :
    readString rules (s.toList ++ '"' :: rest) = .ok (s, rest) := by
  have hhalf : (s.toList.map Piece.char).any Piece.isHalf = false := by
    simp [Piece.isHalf]
  have hheld : (s.toList.map Piece.char).flatMap Piece.held = s.toList := by
    simp [List.flatMap_map, Piece.held]
  rw [readString, readPieces_plain h]
  simp only [List.reverse_nil, List.nil_append, joinPieces_char, hhalf, hheld, Bool.false_and, Bool.false_eq_true,
    if_false, String.ofList_toList]

end Json

end StartNodes
