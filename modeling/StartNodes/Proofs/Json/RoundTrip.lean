import StartNodes.Proofs.Json.Plain
import StartNodes.Proofs.List.Lookup

/-!
What is written reads back: a value of integers and plain texts, in which no object has a key twice, is what a reader makes
of its written form, in either layout, as long as the value does not nest too deep for the reader. The proof follows the
value; what stands behind it is left open, so that the parts of an array and of an object follow one another.
-/

namespace StartNodes.Json

open Decimal Text

/-! ### Values that read back -/

/-- The values that a reader takes as they are written, with so many arrays and objects around them. -/
inductive Legible (rules : Rules) : Nat → Json → Prop
  | null {depth : Nat} (hdepth : depth ≤ rules.maxDepth) : Legible rules depth .null
  | bool {depth : Nat} (hdepth : depth ≤ rules.maxDepth) (b : Bool) : Legible rules depth (.bool b)
  | int {depth : Nat} {n : Int} (hdepth : depth ≤ rules.maxDepth) (hfits : Fits rules (digitCount n)) :
      Legible rules depth (.int n)
  | str {depth : Nat} {s : String} (hdepth : depth ≤ rules.maxDepth) (hplain : IsPlainText s) :
      Legible rules depth (.str s)
  | arr {depth : Nat} {items : List Json} (hdepth : depth ≤ rules.maxDepth)
      (hitems : ∀ item ∈ items, Legible rules (depth + 1) item) : Legible rules depth (.arr items)
  | obj {depth : Nat} {members : List (String × Json)} (hdepth : depth ≤ rules.maxDepth)
      (hkeys : (members.map Prod.fst).Nodup) (hplain : ∀ m ∈ members, IsPlainText m.1)
      (hmembers : ∀ m ∈ members, Legible rules (depth + 1) m.2) : Legible rules depth (.obj members)

theorem Legible.obj_of_keys {rules : Rules} {depth : Nat} {members : List (String × Json)} (keys : List String)
    (hdepth : depth ≤ rules.maxDepth) (hkeys : members.map Prod.fst = keys) (hnodup : keys.Nodup)
    (hplain : ∀ key ∈ keys, IsPlainText key) (hmembers : ∀ m ∈ members, Legible rules (depth + 1) m.2) :
    Legible rules depth (.obj members) :=
  .obj hdepth (hkeys ▸ hnodup) (fun m hm => hplain m.1 (hkeys ▸ List.mem_map_of_mem hm)) hmembers

/-- A value is read from its written form, with blanks before it and anything behind it that does not lengthen it. -/
def Reads (rules : Rules) (layout : Layout) (depth : Nat) (value : Json) : Prop :=
  ∀ (level fuel : Nat) (blanks rest : List Char), Blank blanks → Ends rest →
    2 * (writtenAt layout level value).length ≤ fuel →
      readValue rules fuel depth (blanks ++ (writtenAt layout level value ++ rest)) = .ok (value, rest)

variable {rules : Rules} {layout : Layout} {depth : Nat}

/-! ### Where written values begin -/

/-- A written value begins with a character that is neither blank nor a closing bracket. -/
theorem exists_writtenAt_eq {value : Json} (h : Legible rules depth value) (layout : Layout) (level : Nat) :
    ∃ c cs, writtenAt layout level value = c :: cs ∧ isSpace c = false ∧ c ≠ ']' ∧ c ≠ '\x7d' := by
  cases h with
  | null => exact ⟨'n', _, rfl, by decide⟩
  | bool _ b => cases b <;> exact ⟨_, _, rfl, by decide⟩
  | @int _ n =>
    obtain ⟨c, cs, heq, hc⟩ := exists_intText_eq n
    refine ⟨c, cs, heq, ?_⟩
    rcases hc with hc | ⟨rfl, -⟩
    · refine ⟨?_, ?_, ?_⟩
      · rw [Bool.eq_false_iff]
        intro hspace
        rw [(ends_cons (.inr (.inr (.inr hspace))) [] c rfl).1] at hc
        cases hc
      · rintro rfl
        exact absurd hc (by decide)
      · rintro rfl
        exact absurd hc (by decide)
    · decide
  | str _ hplain => exact ⟨'"', _, writtenText_plain hplain, by decide⟩
  | @arr _ items =>
    cases items with
    | nil => exact ⟨'[', _, rfl, by decide⟩
    | cons item items => exact ⟨'[', _, by rw [writtenAt]; rfl, by decide⟩
  | @obj _ members =>
    cases members with
    | nil => exact ⟨'\x7b', _, rfl, by decide⟩
    | cons member members => exact ⟨'\x7b', _, by rw [writtenAt]; rfl, by decide⟩

/-! ### Reading the parts -/

theorem readValue_of_plain {value : Json} {c : Char} {cs rest blanks : List Char} (hdepth : depth ≤ rules.maxDepth)
    (hc : isSpace c = false ∧ c ≠ '"' ∧ c ≠ '[' ∧ c ≠ '\x7b') (hblanks : Blank blanks) (fuel : Nat)
    (h : readPlain rules (c :: cs) = .ok (value, rest)) :
    readValue rules (fuel + 1) depth (blanks ++ c :: cs) = .ok (value, rest) := by
  obtain ⟨hspace, hquote, hlist, hobject⟩ := hc
  rw [readValue, if_neg (Nat.not_lt.mpr hdepth), skipSpace_append hblanks, skipSpace_cons hspace]
  simp only
  split
  · next heq => exact absurd (List.cons.inj heq).1 hquote
  · next heq => exact absurd (List.cons.inj heq).1 hlist
  · next heq => exact absurd (List.cons.inj heq).1 hobject
  · exact h

/-- Behind an item stands the rest of an array: more items, each behind a separator, and the closing bracket. -/
theorem readItems_written {items : List Json} (hitems : ∀ item ∈ items, Reads rules layout depth item)
    {item : Json} (hitem : Reads rules layout depth item) {level fuel : Nat} {blanks closing rest : List Char}
    (hblanks : Blank blanks) (hclosing : Blank closing) (acc : List Json)
    (hfuel : 2 * ((writtenAt layout level item).length + (writtenItems layout level items).length) < fuel) :
    readItems rules fuel depth (blanks ++ (writtenAt layout level item ++
        (writtenItems layout level items ++ (closing ++ ']' :: rest)))) acc =
      .ok (.arr (acc.reverse ++ item :: items), rest) := by
  induction items generalizing item fuel blanks acc with
  | nil =>
    obtain ⟨fuel, rfl⟩ := Nat.exists_eq_succ_of_ne_zero (Nat.ne_of_gt (Nat.zero_lt_of_lt hfuel))
    have hends : Ends (closing ++ ']' :: rest) := hclosing.ends_append (ends_cons (.inr (.inl rfl)) rest)
    rw [writtenItems, List.nil_append, readItems, hitem level fuel blanks _ hblanks hends (by omega)]
    simp only
    rw [skipSpace_append hclosing, skipSpace_cons (by decide)]
    simp
  | cons next items ih =>
    obtain ⟨fuel, rfl⟩ := Nat.exists_eq_succ_of_ne_zero (Nat.ne_of_gt (Nat.zero_lt_of_lt hfuel))
    obtain ⟨gap, hgap, hblank⟩ := exists_separator_eq layout level
    rw [writtenItems, hgap] at hfuel ⊢
    simp only [List.length_append, List.length_cons] at hfuel
    obtain ⟨hnext, hrest⟩ := List.forall_mem_cons.mp hitems
    have hends : Ends (',' :: (gap ++ (writtenAt layout level next ++ (writtenItems layout level items ++
        (closing ++ ']' :: rest))))) := ends_cons (.inl rfl) _
    simp only [List.append_assoc, List.cons_append]
    rw [readItems, hitem level fuel blanks _ hblanks hends (by omega)]
    simp only
    rw [skipSpace_cons (by decide)]
    simp only
    rw [ih hrest hnext hblank (item :: acc) (by omega)]
    simp

theorem putMember_of_not_mem {members : List (String × Json)} {key : String} (h : key ∉ members.map Prod.fst)
    (value : Json) : putMember members key value = members ++ [(key, value)] := by
  have hnone : (members.any fun m => m.1 == key) = false := by
    rw [List.any_eq_false]
    intro m hm heq
    exact h (beq_iff_eq.mp heq ▸ List.mem_map_of_mem hm)
  rw [putMember, hnone, if_neg Bool.false_ne_true]

theorem key_not_mem {acc members : List (String × Json)} {m : String × Json}
    (h : ((acc ++ m :: members).map Prod.fst).Nodup) : m.1 ∉ acc.map Prod.fst := by
  rw [List.map_append, List.map_cons] at h
  exact fun hmem => (List.nodup_append.mp h).2.2 _ hmem _ List.mem_cons_self rfl

/-- A member is read by its key, a colon and its value. What follows ends the object or leads on to the next member. -/
theorem readMembers_written_member {m : String × Json} (hplain : IsPlainText m.1)
    (hvalue : Reads rules layout depth m.2) {level fuel : Nat} {blanks rest : List Char} (hblanks : Blank blanks)
    (hrest : Ends rest) (acc : List (String × Json)) (hfuel : 2 * (writtenMember layout level m).length ≤ fuel) :
    let outcome := readMembers rules (fuel + 1) depth (blanks ++ (writtenMember layout level m ++ rest)) acc
    (∀ cs, skipSpace rest = ',' :: cs → outcome = readMembers rules fuel depth cs (putMember acc m.1 m.2)) ∧
      ∀ cs, skipSpace rest = '\x7d' :: cs → outcome = .ok (.obj (putMember acc m.1 m.2), cs) := by
  have hcolon : Blank [' '] := fun c hc => List.mem_singleton.mp hc ▸ rfl
  obtain ⟨key, value⟩ := m
  simp only at hplain hvalue
  rw [writtenMember, writtenText_plain hplain] at hfuel ⊢
  simp only [List.length_append, List.length_cons] at hfuel
  have hread := hvalue level fuel [' '] rest hcolon hrest (by omega)
  rw [List.singleton_append] at hread
  simp only [List.append_assoc, List.cons_append, List.nil_append]
  rw [readMembers, skipSpace_append hblanks, skipSpace_cons (by decide)]
  simp only [readString_plain rules hplain]
  rw [skipSpace_cons (by decide)]
  constructor
  · intro cs hcs
    simp only [hread, hcs]
  · intro cs hcs
    simp only [hread, hcs]

/-- Behind a member stands the rest of an object: more members, each behind a separator, and the closing brace. -/
theorem readMembers_written {members : List (String × Json)}
    (hmembers : ∀ m ∈ members, IsPlainText m.1 ∧ Reads rules layout depth m.2) {m : String × Json}
    (hm : IsPlainText m.1 ∧ Reads rules layout depth m.2) {level fuel : Nat} {blanks closing rest : List Char}
    (hblanks : Blank blanks) (hclosing : Blank closing) (acc : List (String × Json))
    (hkeys : ((acc ++ m :: members).map Prod.fst).Nodup)
    (hfuel : 2 * ((writtenMember layout level m).length + (writtenMembers layout level members).length) < fuel) :
    readMembers rules fuel depth (blanks ++ (writtenMember layout level m ++
        (writtenMembers layout level members ++ (closing ++ '\x7d' :: rest)))) acc =
      .ok (.obj (acc ++ m :: members), rest) := by
  induction members generalizing m fuel blanks acc with
  | nil =>
    obtain ⟨fuel, rfl⟩ := Nat.exists_eq_succ_of_ne_zero (Nat.ne_of_gt (Nat.zero_lt_of_lt hfuel))
    have hends : Ends (closing ++ '\x7d' :: rest) := hclosing.ends_append (ends_cons (.inr (.inr (.inl rfl))) rest)
    rw [writtenMembers, List.nil_append, (readMembers_written_member hm.1 hm.2 hblanks hends acc (by omega)).2 rest ?_,
      putMember_of_not_mem (key_not_mem hkeys)]
    rw [skipSpace_append hclosing, skipSpace_cons (by decide)]
  | cons next members ih =>
    obtain ⟨fuel, rfl⟩ := Nat.exists_eq_succ_of_ne_zero (Nat.ne_of_gt (Nat.zero_lt_of_lt hfuel))
    obtain ⟨gap, hgap, hblank⟩ := exists_separator_eq layout level
    rw [writtenMembers, hgap] at hfuel ⊢
    simp only [List.length_append, List.length_cons] at hfuel
    obtain ⟨hnext, hrest⟩ := List.forall_mem_cons.mp hmembers
    have hends : Ends (',' :: (gap ++ (writtenMember layout level next ++ (writtenMembers layout level members ++
        (closing ++ '\x7d' :: rest))))) := ends_cons (.inl rfl) _
    simp only [List.append_assoc, List.cons_append]
    have hkeys' : (((acc ++ [m]) ++ next :: members).map Prod.fst).Nodup := by
      rwa [List.append_assoc, List.singleton_append]
    rw [(readMembers_written_member hm.1 hm.2 hblanks hends acc (by omega)).1 _ (skipSpace_cons (by decide) _),
      putMember_of_not_mem (key_not_mem hkeys), ih hrest hnext hblank (acc ++ [m]) hkeys' (by omega), List.append_assoc,
      List.singleton_append]

/-! ### Reading a value -/

/-- A value that is neither a string, an array nor an object reads back if its written form is read as such. -/
theorem reads_of_readPlain {value : Json} {c : Char} {cs : List Char} (hdepth : depth ≤ rules.maxDepth)
    (hwritten : ∀ level, writtenAt layout level value = c :: cs)
    (hc : isSpace c = false ∧ c ≠ '"' ∧ c ≠ '[' ∧ c ≠ '\x7b')
    (hread : ∀ rest, Ends rest → readPlain rules (c :: (cs ++ rest)) = .ok (value, rest)) :
    Reads rules layout depth value := by
  intro level fuel blanks rest hblanks hrest hfuel
  rw [hwritten, List.length_cons] at hfuel
  obtain ⟨fuel, rfl⟩ := Nat.exists_eq_succ_of_ne_zero (n := fuel) (by omega)
  rw [hwritten, List.cons_append]
  exact readValue_of_plain hdepth hc hblanks fuel (hread rest hrest)

theorem reads_int (hdepth : depth ≤ rules.maxDepth) {n : Int} (hfits : Fits rules (digitCount n)) :
    Reads rules layout depth (.int n) := by
  obtain ⟨c, cs, heq, hc⟩ := exists_intText_eq n
  refine reads_of_readPlain hdepth (fun _ => heq) ?_ fun rest hrest => ?_
  · rcases hc with hc | ⟨rfl, -⟩
    · refine ⟨Bool.eq_false_iff.mpr fun hspace => ?_, ?_, ?_, ?_⟩
      · rw [(ends_cons (.inr (.inr (.inr hspace))) [] c rfl).1] at hc
        cases hc
      all_goals
        rintro rfl
        exact absurd hc (by decide)
    · decide
  · rw [← List.cons_append, ← heq]
    exact readPlain_intText hfits hrest

theorem reads_str (hdepth : depth ≤ rules.maxDepth) {s : String} (hplain : IsPlainText s) :
    Reads rules layout depth (.str s) := by
  intro level fuel blanks rest hblanks hrest hfuel
  rw [show writtenAt layout level (.str s) = writtenText s from rfl, writtenText_plain hplain] at hfuel ⊢
  simp only [List.cons_append, List.length_cons] at hfuel
  obtain ⟨fuel, rfl⟩ := Nat.exists_eq_succ_of_ne_zero (n := fuel) (by omega)
  simp only [List.append_assoc, List.cons_append, List.nil_append]
  rw [readValue, if_neg (Nat.not_lt.mpr hdepth), skipSpace_append hblanks, skipSpace_cons (by decide)]
  simp only [readString_plain rules hplain]
  rfl

theorem reads_arr (hdepth : depth ≤ rules.maxDepth) {items : List Json}
    (hlegible : ∀ item ∈ items, Legible rules (depth + 1) item)
    (hitems : ∀ item ∈ items, Reads rules layout (depth + 1) item) : Reads rules layout depth (.arr items) := by
  intro level fuel blanks rest hblanks hrest hfuel
  cases items with
  | nil =>
    rw [writtenAt] at hfuel ⊢
    simp only [List.length_cons] at hfuel
    obtain ⟨fuel, rfl⟩ := Nat.exists_eq_succ_of_ne_zero (n := fuel) (by omega)
    rw [readValue, if_neg (Nat.not_lt.mpr hdepth), skipSpace_append hblanks, List.cons_append,
      skipSpace_cons (by decide)]
    rfl
  | cons item items =>
    obtain ⟨hitem, hitems⟩ := List.forall_mem_cons.mp hitems
    have hbegin := exists_writtenAt_eq (hlegible item List.mem_cons_self) layout (level + 1)
    obtain ⟨c, cs, heq, hspace, hclose, -⟩ := hbegin
    rw [writtenAt] at hfuel ⊢
    simp only [List.length_append, List.length_cons] at hfuel
    obtain ⟨fuel, rfl⟩ := Nat.exists_eq_succ_of_ne_zero (n := fuel) (by omega)
    have hread : readItems rules fuel (depth + 1) ([] ++ (writtenAt layout (level + 1) item ++
        (writtenItems layout (level + 1) items ++ (layout.lineBreak level ++ ']' :: rest)))) [] =
        .ok (.arr (item :: items), rest) :=
      readItems_written hitems hitem blank_nil (blank_lineBreak layout level) [] (by omega)
    simp only [List.append_assoc, List.cons_append, List.nil_append] at hread ⊢
    rw [readValue, if_neg (Nat.not_lt.mpr hdepth), skipSpace_append hblanks, skipSpace_cons (by decide)]
    simp only
    rw [skipSpace_append (blank_lineBreak layout (level + 1)), heq, List.cons_append, skipSpace_cons hspace]
    split
    · next hclosed => exact absurd (List.cons.inj hclosed).1 hclose
    · rwa [heq, List.cons_append] at hread

theorem reads_obj (hdepth : depth ≤ rules.maxDepth) {members : List (String × Json)}
    (hkeys : (members.map Prod.fst).Nodup)
    (hmembers : ∀ m ∈ members, IsPlainText m.1 ∧ Reads rules layout (depth + 1) m.2) :
    Reads rules layout depth (.obj members) := by
  intro level fuel blanks rest hblanks hrest hfuel
  cases members with
  | nil =>
    rw [writtenAt] at hfuel ⊢
    simp only [List.length_cons] at hfuel
    obtain ⟨fuel, rfl⟩ := Nat.exists_eq_succ_of_ne_zero (n := fuel) (by omega)
    rw [readValue, if_neg (Nat.not_lt.mpr hdepth), skipSpace_append hblanks, List.cons_append,
      skipSpace_cons (by decide)]
    rfl
  | cons m members =>
    obtain ⟨hm, hmembers⟩ := List.forall_mem_cons.mp hmembers
    obtain ⟨cs, heq⟩ : ∃ cs, writtenMember layout (level + 1) m = '"' :: cs := by
      cases m
      exact ⟨_, rfl⟩
    rw [writtenAt] at hfuel ⊢
    simp only [List.length_append, List.length_cons] at hfuel
    obtain ⟨fuel, rfl⟩ := Nat.exists_eq_succ_of_ne_zero (n := fuel) (by omega)
    have hread : readMembers rules fuel (depth + 1) ([] ++ (writtenMember layout (level + 1) m ++
        (writtenMembers layout (level + 1) members ++ (layout.lineBreak level ++ '\x7d' :: rest)))) [] =
        .ok (.obj (m :: members), rest) :=
      readMembers_written hmembers hm blank_nil (blank_lineBreak layout level) [] hkeys (by omega)
    simp only [List.append_assoc, List.cons_append, List.nil_append] at hread ⊢
    rw [readValue, if_neg (Nat.not_lt.mpr hdepth), skipSpace_append hblanks, skipSpace_cons (by decide)]
    simp only
    rw [skipSpace_append (blank_lineBreak layout (level + 1)), heq, List.cons_append, skipSpace_cons (by decide)]
    rwa [heq, List.cons_append] at hread

theorem reads_of_legible {value : Json} (h : Legible rules depth value) (layout : Layout) :
    Reads rules layout depth value := by
  induction h with
  | null hdepth => exact reads_of_readPlain hdepth (fun _ => rfl) (by decide) fun _ _ => rfl
  | bool hdepth b =>
    cases b with
    | false => exact reads_of_readPlain hdepth (fun _ => rfl) (by decide) fun _ _ => rfl
    | true => exact reads_of_readPlain hdepth (fun _ => rfl) (by decide) fun _ _ => rfl
  | int hdepth hfits => exact reads_int hdepth hfits
  | str hdepth hplain => exact reads_str hdepth hplain
  | arr hdepth hitems ih => exact reads_arr hdepth hitems ih
  | obj hdepth hkeys hplain _ ih => exact reads_obj hdepth hkeys fun m hm => ⟨hplain m hm, ih m hm⟩

/-- A value of integers and plain texts is read from the text to which it is written. -/
theorem read_write {value : Json} (h : Legible rules 0 value) (layout : Layout) :
    read rules (value.write layout) = .ok value := by
  have hread := reads_of_legible h layout 0 (2 * (writtenAt layout 0 value).length + 2) [] [] blank_nil ends_nil
    (Nat.le_add_right _ 2)
  rw [List.nil_append, List.append_nil] at hread
  rw [read, write, String.toList_ofList, readChars, hread]
  rfl

/-! ### Written texts are ASCII -/

theorem isAscii_of_isSpace {c : Char} (h : isSpace c = true) : IsAscii c := by
  simp only [isSpace, Bool.or_eq_true, beq_iff_eq] at h
  rcases h with ((rfl | rfl) | rfl) | rfl <;> decide

theorem isAscii_of_mem_separator (level : Nat) : ∀ c ∈ layout.separator level, IsAscii c := by
  obtain ⟨blanks, heq, hblanks⟩ := exists_separator_eq layout level
  rw [heq, List.forall_mem_cons]
  exact ⟨by decide, fun c hc => isAscii_of_isSpace (hblanks c hc)⟩

theorem isAscii_of_mem_intText (n : Int) : ∀ c ∈ intText n, IsAscii c := by
  intro c hc
  rcases of_mem_intText hc with rfl | hdigit
  · decide
  · exact Nat.lt_of_le_of_lt (toNat_of_isDigit hdigit).2 (by decide)

theorem isAscii_of_mem_writtenText {s : String} (h : IsPlainText s) : ∀ c ∈ writtenText s, IsAscii c := by
  rw [writtenText_plain h]
  simp only [List.cons_append, List.forall_mem_cons, List.forall_mem_append]
  exact ⟨by decide, fun c hc => (h c hc).isAscii, by decide⟩

theorem isAscii_of_mem_writtenItems {items : List Json} {level : Nat}
    (h : ∀ item ∈ items, ∀ c ∈ writtenAt layout level item, IsAscii c) :
    ∀ c ∈ writtenItems layout level items, IsAscii c := by
  induction items with
  | nil => exact nofun
  | cons item items ih =>
    obtain ⟨hitem, hitems⟩ := List.forall_mem_cons.mp h
    simp only [writtenItems, List.forall_mem_append]
    exact ⟨⟨isAscii_of_mem_separator level, hitem⟩, ih hitems⟩

theorem isAscii_of_mem_writtenMember {m : String × Json} {level : Nat} (hplain : IsPlainText m.1)
    (h : ∀ c ∈ writtenAt layout level m.2, IsAscii c) : ∀ c ∈ writtenMember layout level m, IsAscii c := by
  obtain ⟨key, value⟩ := m
  simp only [writtenMember, List.forall_mem_append, List.forall_mem_cons]
  exact ⟨isAscii_of_mem_writtenText hplain, by decide, by decide, h⟩

theorem isAscii_of_mem_writtenMembers {members : List (String × Json)} {level : Nat}
    (h : ∀ m ∈ members, IsPlainText m.1 ∧ ∀ c ∈ writtenAt layout level m.2, IsAscii c) :
    ∀ c ∈ writtenMembers layout level members, IsAscii c := by
  induction members with
  | nil => exact nofun
  | cons m members ih =>
    obtain ⟨⟨hplain, hm⟩, hmembers⟩ := List.forall_mem_cons.mp h
    simp only [writtenMembers, List.forall_mem_append]
    exact ⟨⟨isAscii_of_mem_separator level, isAscii_of_mem_writtenMember hplain hm⟩, ih hmembers⟩

theorem isAscii_of_mem_writtenAt {value : Json} (h : Legible rules depth value) (layout : Layout) (level : Nat) :
    ∀ c ∈ writtenAt layout level value, IsAscii c := by
  have hbreak : ∀ level, ∀ c ∈ layout.lineBreak level, IsAscii c :=
    fun level c hc => isAscii_of_isSpace (blank_lineBreak layout level c hc)
  induction h generalizing level with
  | null => exact (by decide : ∀ c ∈ "null".toList, IsAscii c)
  | bool _ b =>
    cases b with
    | false => exact (by decide : ∀ c ∈ "false".toList, IsAscii c)
    | true => exact (by decide : ∀ c ∈ "true".toList, IsAscii c)
  | int => exact isAscii_of_mem_intText _
  | str _ hplain => exact isAscii_of_mem_writtenText hplain
  | @arr _ items _ _ ih =>
    cases items with
    | nil => exact (by decide : ∀ c ∈ ['[', ']'], IsAscii c)
    | cons item items =>
      obtain ⟨hitem, hitems⟩ := List.forall_mem_cons.mp ih
      have hmore := isAscii_of_mem_writtenItems fun item h => hitems item h (level + 1)
      simp only [writtenAt, List.cons_append, List.forall_mem_cons, List.forall_mem_append]
      exact ⟨by decide, ⟨⟨⟨hbreak (level + 1), hitem (level + 1)⟩, hmore⟩, hbreak level⟩, by decide⟩
  | @obj _ members _ _ hplain _ ih =>
    cases members with
    | nil => exact (by decide : ∀ c ∈ ['\x7b', '\x7d'], IsAscii c)
    | cons m members =>
      obtain ⟨hkey, hkeys⟩ := List.forall_mem_cons.mp hplain
      obtain ⟨hm, hmembers⟩ := List.forall_mem_cons.mp ih
      have hfirst := isAscii_of_mem_writtenMember hkey (hm (level + 1))
      have hmore := isAscii_of_mem_writtenMembers fun m h => ⟨hkeys m h, hmembers m h (level + 1)⟩
      simp only [writtenAt, List.cons_append, List.forall_mem_cons, List.forall_mem_append]
      exact ⟨by decide, ⟨⟨⟨hbreak (level + 1), hfirst⟩, hmore⟩, hbreak level⟩, by decide⟩

end StartNodes.Json
