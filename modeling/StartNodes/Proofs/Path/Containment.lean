import StartNodes.Item
import StartNodes.Proofs.Decimal.Length
import StartNodes.Proofs.Path.Codec

/-!
When one path lies under another. On arbitrary texts the relation is that of ancestors in a forest: it is a strict order,
and of two texts under which a third lies one lies under the other. On chains that are written it is proper continuation of
the chain, at whatever depth the chains part.
-/

namespace StartNodes.Path

open Decimal

/-! ### The order of the texts -/

/-- What ancestors in a forest have in common with paths: nothing lies under itself, what lies under something lies under
all above it, and all above something lie under one another. -/
structure IsForestOrder (under : String → String → Bool) : Prop where
  irrefl : ∀ a, under a a = false
  trans : ∀ a b c, under a b = true → under b c = true → under a c = true
  comparable : ∀ a b c, under c a = true → under c b = true → a = b ∨ under a b = true ∨ under b a = true

theorem eq_of_components {a b : String} (h : components a = components b) : a = b := by
  rw [← String.toList_inj, ← intercalate_components a, h, intercalate_components]

/-- Of two texts under which a third lies, one lies under the other or they are the same. -/
theorem isUnder_comparable {a b c : String} (ha : isUnder c a = true) (hb : isUnder c b = true) :
    a = b ∨ isUnder a b = true ∨ isUnder b a = true := by
  by_cases heq : a = b
  · exact .inl heq
  have hne : components a ≠ components b := mt eq_of_components heq
  simp only [isUnder_iff] at ha hb ⊢
  rcases List.prefix_or_prefix_of_prefix ha.1 hb.1 with hab | hba
  · exact .inr (.inr ⟨hab, hne⟩)
  · exact .inr (.inl ⟨hba, hne.symm⟩)

theorem isForestOrder : IsForestOrder isUnder where
  irrefl := isUnder_irrefl
  trans := fun _ _ _ => isUnder_trans
  comparable := fun _ _ _ => isUnder_comparable

/-- The test by positions: the candidate is longer than the other text, begins with it, and has a delimiter at the position
behind it. There is no answer if it has no such position. -/
def isUnderByPosition? (candidate ancestor : String) : Option Bool :=
  if ancestor.length < candidate.length ∧ ancestor.toList <+: candidate.toList then
    candidate.toList[ancestor.length]?.map fun c => c == delimiter
  else some false

/-- The position behind the other text is there whenever it is looked at, and the test by positions gives the same answer. -/
theorem isUnderByPosition?_eq (candidate ancestor : String) :
    isUnderByPosition? candidate ancestor = some (isUnder candidate ancestor) := by
  unfold isUnderByPosition? isUnder
  split
  · next h =>
    obtain ⟨hlen, rest, hrest⟩ := h
    obtain ⟨c, rest, rfl⟩ : ∃ c rest', rest = c :: rest' := by
      refine List.exists_cons_of_ne_nil fun hnil => ?_
      rw [← String.length_toList, ← String.length_toList, ← hrest, hnil, List.append_nil] at hlen
      exact Nat.lt_irrefl _ hlen
    rw [← hrest, ← String.length_toList, List.getElem?_append_right (Nat.le_refl _), Nat.sub_self,
      List.getElem?_cons_zero, Option.map_some, Option.some_inj, Bool.eq_iff_iff, List.isPrefixOf_iff_prefix,
      List.prefix_append_right_inj, List.cons_prefix_cons, beq_iff_eq, eq_comm]
    exact (and_iff_left List.nil_prefix).symm
  · next h =>
    rw [Option.some_inj, eq_comm, Bool.eq_false_iff, Ne, List.isPrefixOf_iff_prefix]
    intro hbegins
    have hlen := hbegins.length_le
    rw [List.length_append, List.length_singleton, String.length_toList, String.length_toList] at hlen
    exact h ⟨hlen, (List.prefix_append _ _).trans hbegins⟩

/-! ### The order of chains -/

theorem components_join_nil : components (join ([] : List NodeId)) = [[]] := by
  decide

/-- The text of the empty chain lies under nothing. -/
theorem isUnder_of_join_nil (ancestor : String) : isUnder (join ([] : List NodeId)) ancestor = false := by
  rw [Bool.eq_false_iff, Ne, isUnder_iff, components_join_nil]
  rintro ⟨hbegins, hne⟩
  have hpos := List.length_pos_of_ne_nil (components_ne_nil ancestor)
  exact hne (hbegins.eq_of_length_le hpos)

/-- No chain lies under the empty one, since the text of no chain starts with a delimiter. -/
theorem isUnder_join_nil (xs : List NodeId) : isUnder (join xs) (join ([] : List NodeId)) = false := by
  by_cases hxs : xs = []
  · rw [hxs, isUnder_irrefl]
  obtain ⟨id, xs, rfl⟩ := List.exists_cons_of_ne_nil hxs
  rw [Bool.eq_false_iff, Ne, isUnder_iff, components_join_nil, components_join hxs, List.map_cons, List.cons_prefix_cons]
  exact fun h => intText_ne_nil id h.1.1.symm

theorem isUnder_join_iff (xs ys : List NodeId) :
    isUnder (join xs) (join ys) = true ↔ ys ≠ [] ∧ ys <+: xs ∧ ys ≠ xs := by
  by_cases hys : ys = []
  · rw [hys, isUnder_join_nil]
    exact iff_of_false Bool.false_ne_true fun h => h.1 rfl
  by_cases hxs : xs = []
  · rw [hxs, isUnder_of_join_nil]
    exact iff_of_false Bool.false_ne_true fun h => hys (List.prefix_nil.mp h.2.1)
  rw [isUnder_join hxs hys]
  exact (and_iff_right hys).symm

theorem write_eq_ok_iff {chain : List NodeId} {path : String} :
    write chain = .ok path ↔ (∀ id ∈ chain, digitCount id ≤ maxDigits) ∧ join chain = path := by
  have hall : chain.all NodeName.isWritable = true ↔ ∀ id ∈ chain, digitCount id ≤ maxDigits := by
    simp only [List.all_eq_true, NodeName.isWritable_nodeId, isWritable_iff]
  unfold write
  split
  · next hwritable => rw [Except.ok.injEq, and_iff_right (hall.mp hwritable)]
  · next hnot => exact iff_of_false nofun fun h => hnot (hall.mpr h.1)

/-- Two chains of nodes that are not too long are both written, and one text lies under the other exactly if the other
chain has nodes and the one properly continues it. Chains that part somewhere are not under one another, however alike the
decimal forms of the nodes at which they part. -/
theorem containment_of_chains (xs ys : List NodeId) (h : ∀ id ∈ xs ++ ys, digitCount id ≤ maxDigits) :
    (∃ candidate ancestor, write xs = .ok candidate ∧ write ys = .ok ancestor ∧
      (isUnder candidate ancestor = true ↔ ys ≠ [] ∧ ys <+: xs ∧ ys ≠ xs)) ∧
    ∀ above a b, (∀ id ∈ above ++ [a, b], digitCount id ≤ maxDigits) → a ≠ b →
      ∃ candidate ancestor, write (above ++ a :: xs) = .ok candidate ∧ write (above ++ b :: ys) = .ok ancestor ∧
        isUnder candidate ancestor = false := by
  obtain ⟨hxs, hys⟩ := List.forall_mem_append.mp h
  refine ⟨⟨_, _, write_eq_ok_iff.mpr ⟨hxs, rfl⟩, write_eq_ok_iff.mpr ⟨hys, rfl⟩, isUnder_join_iff xs ys⟩, ?_⟩
  intro above a b hparted hne
  simp only [List.forall_mem_append, List.forall_mem_cons] at hparted
  obtain ⟨habove, ha, hb, -⟩ := hparted
  refine ⟨_, _, write_eq_ok_iff.mpr ⟨List.forall_mem_append.mpr ⟨habove, List.forall_mem_cons.mpr ⟨ha, hxs⟩⟩, rfl⟩,
    write_eq_ok_iff.mpr ⟨List.forall_mem_append.mpr ⟨habove, List.forall_mem_cons.mpr ⟨hb, hys⟩⟩, rfl⟩, ?_⟩
  rw [Bool.eq_false_iff, Ne, isUnder_join_iff, List.prefix_append_right_inj, List.cons_prefix_cons]
  exact fun h => hne h.2.1.1.symm

/-- The decimal form of 12 begins that of 123. -/
theorem containment_of_chains_alike :
    (∀ id ∈ ([3] : List NodeId) ++ [], digitCount id ≤ maxDigits) ∧
      ∃ candidate ancestor, write [-1, (123 : NodeId), 3] = .ok candidate ∧ write [-1, (12 : NodeId)] = .ok ancestor ∧
        isUnder candidate ancestor = false := by
  have hshort : ∀ id ∈ ([3] : List NodeId) ++ [], digitCount id ≤ maxDigits := by decide
  exact ⟨hshort, (containment_of_chains [3] [] hshort).2 [-1] 123 12 (by decide) (by decide)⟩

/-- A node that is too long keeps a chain from being written, so no text lies under that of another chain although the one
properly continues the other. A truth value is one of the numbers 0 and 1, but it is not spelled as one: a chain that
continues another lies under it no longer when the other has a truth value for the number. -/
theorem containment_of_chains_misspelled :
    ([leastOverlong] <+: [leastOverlong, 1] ∧ [leastOverlong] ≠ [leastOverlong, 1] ∧
      write [leastOverlong] = .error .tooLong ∧ write [leastOverlong, 1] = .error .tooLong) ∧
    (⟨.bool true⟩ : Item).node? = some 1 ∧ write [(⟨.bool true⟩ : Item)] = .ok "True" ∧
      write [(1 : NodeId), 5] = .ok "1,5" ∧ isUnder "1,5" "True" = false := by
  have hlong : NodeName.isWritable leastOverlong = false := isWritable_leastOverlong
  refine ⟨⟨⟨[1], rfl⟩, ?_, ?_, ?_⟩, rfl, by decide, by decide, by decide⟩
  · exact fun heq => nomatch heq
  · rw [write, List.all_cons, hlong]
    rfl
  · rw [write, List.all_cons, hlong]
    rfl

end StartNodes.Path
