import StartNodes.Text.Utf8

/-!
ASCII texts: each character is one code point and one octet, so the octets of the text are read back as the text.
-/

namespace StartNodes.Text

theorem flatMap_eq_map {α β : Type} {f : α → List β} {g : α → β} {l : List α} (h : ∀ a ∈ l, f a = [g a]) :
    l.flatMap f = l.map g := by
  induction l with
  | nil => rfl
  | cons a l ih =>
    obtain ⟨ha, hl⟩ := List.forall_mem_cons.mp h
    rw [List.flatMap_cons, ha, ih hl, List.singleton_append, List.map_cons]

def IsAscii (c : Char) : Prop :=
  c.toNat < 0x80

instance (c : Char) : Decidable (IsAscii c) :=
  inferInstanceAs (Decidable (_ < _))

-- decided along the text, not over all characters that there are
instance (cs : List Char) : Decidable (∀ c ∈ cs, IsAscii c) :=
  List.decidableBAll IsAscii cs

theorem IsAscii.ne_mark {c : Char} (h : IsAscii c) : c ≠ mark := by
  rintro rfl
  exact absurd h (by decide)

theorem readHeld_of_ne_mark {cs : List Char} (h : ∀ c ∈ cs, c ≠ mark) (acc : List Nat) :
    readHeld false cs acc = acc.reverse ++ cs.map Char.toNat := by
  induction cs generalizing acc with
  | nil => simp [readHeld]
  | cons c cs ih =>
    obtain ⟨hc, hcs⟩ := List.forall_mem_cons.mp h
    rw [readHeld, beq_eq_false_iff_ne.mpr hc, if_neg Bool.false_ne_true, ih hcs]
    simp

theorem codePoints_of_ne_mark {s : String} (h : ∀ c ∈ s.toList, c ≠ mark) : codePoints s = s.toList.map Char.toNat :=
  readHeld_of_ne_mark h []

theorem held_of_isAscii {c : Char} (h : IsAscii c) : held c.toNat = [c] := by
  have hhalf : ¬ isHalf c.toNat = true := by
    rw [isHalf_iff]
    simp only [IsAscii] at h
    omega
  rw [held, if_neg hhalf, if_neg fun heq => h.ne_mark (Char.toNat_inj.mp heq), Char.ofNat_toNat]

namespace Utf8

theorem octetsOf_of_isAscii {c : Char} (h : IsAscii c) : octetsOf c.toNat = [c.toNat] :=
  if_pos h

theorem encode_of_isAscii {s : String} (h : ∀ c ∈ s.toList, IsAscii c) :
    encode s = s.toList.map fun c => UInt8.ofNat c.toNat := by
  rw [encode, codePoints_of_ne_mark fun c hc => (h c hc).ne_mark, List.flatMap_map,
    flatMap_eq_map fun c hc => octetsOf_of_isAscii (h c hc), List.map_map]
  rfl

theorem decodeFrom_of_lt {octets : List Nat} (h : ∀ n ∈ octets, n < 0x80) (position : Nat) (acc : List Nat) :
    decodeFrom position 0 octets acc = .ok (acc.reverse ++ octets) := by
  induction octets generalizing position acc with
  | nil => simp [decodeFrom]
  | cons n octets ih =>
    obtain ⟨hn, hoctets⟩ := List.forall_mem_cons.mp h
    simp only [decodeFrom, beginning, if_pos hn, ih hoctets]
    simp

/-- The octets of an ASCII text are decoded to the text. -/
theorem decode_encode {s : String} (h : ∀ c ∈ s.toList, IsAscii c) : decode (encode s) = .ok s := by
  have hnat : (encode s).map UInt8.toNat = s.toList.map Char.toNat := by
    rw [encode_of_isAscii h, List.map_map]
    refine List.map_congr_left fun c hc => ?_
    have hlt : c.toNat < UInt8.size := Nat.lt_trans (h c hc) (by decide)
    exact Nat.mod_eq_of_lt hlt
  have hlt : ∀ n ∈ s.toList.map Char.toNat, n < 0x80 := by
    intro n hn
    obtain ⟨c, hc, rfl⟩ := List.mem_map.mp hn
    exact h c hc
  have hback : (s.toList.map Char.toNat).flatMap held = s.toList := by
    rw [List.flatMap_map, flatMap_eq_map fun c hc => held_of_isAscii (h c hc), List.map_id']
  rw [decode, hnat, decodeFrom_of_lt hlt, List.reverse_nil, List.nil_append]
  show Except.ok (ofCodePoints (s.toList.map Char.toNat)) = .ok s
  rw [ofCodePoints, hback, String.ofList_toList]

end Utf8

end StartNodes.Text
