import Mathlib.Data.List.Basic

/-!
Tables as lists of rows, each a key with a value: what a key finds after rows have been dropped or written over.
-/

namespace StartNodes

variable {α β : Type} [BEq α] [LawfulBEq α]

theorem lookup_filter_self (k : α) (l : List (α × β)) : (l.filter fun row => row.1 != k).lookup k = none := by
  rw [List.lookup_eq_none_iff]
  intro row hrow
  rw [bne_comm]
  exact (List.mem_filter.mp hrow).2

theorem lookup_filter_of_ne {k other : α} (h : other ≠ k) (l : List (α × β)) :
    (l.filter fun row => row.1 != k).lookup other = l.lookup other := by
  induction l with
  | nil => rfl
  | cons row l ih =>
      obtain ⟨key, value⟩ := row
      by_cases hkey : key = k
      · rw [List.filter_cons_of_neg (by simpa using hkey), ih, List.lookup_cons, beq_eq_false_iff_ne.mpr (hkey ▸ h)]
      · rw [List.filter_cons_of_pos (by simpa using hkey), List.lookup_cons, List.lookup_cons, ih]

/-- A new row in place of those of its key. -/
theorem lookup_cons_filter [DecidableEq α] (k other : α) (value : β) (l : List (α × β)) :
    ((k, value) :: l.filter fun row => row.1 != k).lookup other = if other = k then some value else l.lookup other := by
  split
  · next h => rw [h, List.lookup_cons_self]
  · next h => rw [List.lookup_cons, beq_eq_false_iff_ne.mpr h, lookup_filter_of_ne h]

/-- Writing over the row of a key changes what that key finds, if it finds anything. -/
theorem lookup_map_self (k : α) (value : β) (l : List (α × β)) :
    (l.map fun row => if row.1 == k then (k, value) else row).lookup k = (l.lookup k).map fun _ => value := by
  induction l with
  | nil => rfl
  | cons row l ih =>
      obtain ⟨key, old⟩ := row
      by_cases hkey : key = k
      · rw [hkey, List.map_cons, beq_self_eq_true, if_pos rfl, List.lookup_cons_self, List.lookup_cons_self,
          Option.map_some]
      · rw [List.map_cons, beq_eq_false_iff_ne.mpr hkey, if_neg Bool.false_ne_true, List.lookup_cons, List.lookup_cons,
          beq_eq_false_iff_ne.mpr (Ne.symm hkey), ih]

theorem lookup_map_of_ne {k other : α} (h : other ≠ k) (value : β) (l : List (α × β)) :
    (l.map fun row => if row.1 == k then (k, value) else row).lookup other = l.lookup other := by
  induction l with
  | nil => rfl
  | cons row l ih =>
      obtain ⟨key, old⟩ := row
      by_cases hkey : key = k
      · rw [hkey, List.map_cons, beq_self_eq_true, if_pos rfl, List.lookup_cons, List.lookup_cons, ih]
        rw [beq_eq_false_iff_ne.mpr h]
      · rw [List.map_cons, beq_eq_false_iff_ne.mpr hkey, if_neg Bool.false_ne_true, List.lookup_cons, List.lookup_cons, ih]

/-- A table of what a function gives for some keys finds that for each of them. -/
theorem lookup_filterMap (f : α → Option β) {keys : List α} {k : α} (hk : k ∈ keys ∨ f k = none) :
    (keys.filterMap fun key => (f key).map fun value => (key, value)).lookup k = f k := by
  induction keys with
  | nil => exact (hk.resolve_left List.not_mem_nil).symm
  | cons key keys ih =>
      rw [List.filterMap_cons]
      by_cases hkey : k = key
      · subst hkey
        cases hf : f k with
        | none => exact (ih (.inr hf)).trans hf
        | some value => exact List.lookup_cons_self
      · have hrest := ih (hk.imp_left fun hk => (List.mem_cons.mp hk).resolve_left hkey)
        cases hf : f key with
        | none => exact hrest
        | some value =>
            simp only [Option.map_some]
            rw [List.lookup_cons, beq_eq_false_iff_ne.mpr hkey, hrest]

end StartNodes
