import Mathlib.Data.List.Perm.Subperm

/-!
Lists whose items are told apart: dropping repetitions leaves none, a list without repetition is no longer than a list
that has all its items, and items grouped by keys without repetition are the same items. Of items that are in an order,
some item comes before no other.
-/

namespace StartNodes

variable {α : Type}

theorem nodup_eraseDups [BEq α] [LawfulBEq α] (l : List α) : l.eraseDups.Nodup := by
  -- the tail is filtered before its repetitions are dropped, so the induction is on the length
  induction hn : l.length using Nat.strongRecOn generalizing l with
  | ind n ih =>
      cases l with
      | nil => exact List.nodup_nil
      | cons a l =>
          rw [List.eraseDups_cons, List.nodup_cons]
          refine ⟨fun ha => ?_, ?_⟩
          · rw [List.mem_eraseDups, List.mem_filter] at ha
            simp at ha
          · have hlt : (l.filter fun b => !b == a).length < n := by
              have := List.length_filter_le (fun b => !b == a) l
              rw [List.length_cons] at hn
              omega
            exact ih _ hlt _ rfl

/-- What is left was there, however items are compared. -/
theorem mem_of_mem_eraseDups [BEq α] {a : α} {l : List α} (h : a ∈ l.eraseDups) : a ∈ l := by
  induction hn : l.length using Nat.strongRecOn generalizing l with
  | ind n ih =>
      cases l with
      | nil => exact h
      | cons b l =>
          rw [List.eraseDups_cons] at h
          rcases List.mem_cons.mp h with rfl | hrest
          · exact List.mem_cons_self
          · have hlt : (l.filter fun x => !x == b).length < n := by
              have := List.length_filter_le (fun x => !x == b) l
              rw [List.length_cons] at hn
              omega
            exact List.mem_cons_of_mem b (List.mem_of_mem_filter (ih _ hlt hrest rfl))

theorem eraseDups_of_nodup [BEq α] [LawfulBEq α] {l : List α} (h : l.Nodup) : l.eraseDups = l := by
  induction l with
  | nil => rfl
  | cons a l ih =>
      obtain ⟨ha, hl⟩ := List.nodup_cons.mp h
      have hkeep : (l.filter fun b => !b == a) = l := by
        refine List.filter_eq_self.mpr fun b hb => ?_
        rw [Bool.not_eq_true', beq_eq_false_iff_ne]
        rintro rfl
        exact ha hb
      rw [List.eraseDups_cons, hkeep, ih hl]

/-- The distinct items of two lists with the same members are the same up to their order. -/
theorem eraseDups_perm [BEq α] [LawfulBEq α] {l l' : List α} (h : ∀ a, a ∈ l ↔ a ∈ l') :
    l.eraseDups.Perm l'.eraseDups := by
  rw [List.perm_ext_iff_of_nodup (nodup_eraseDups l) (nodup_eraseDups l')]
  intro a
  rw [List.mem_eraseDups, List.mem_eraseDups, h]

/-- Items that are told apart as before when they are written in another way. -/
theorem eraseDups_map {β : Type} [BEq α] [BEq β] {f : α → β} (hf : ∀ a b, (f a == f b) = (a == b)) (l : List α) :
    (l.map f).eraseDups = l.eraseDups.map f := by
  induction hn : l.length using Nat.strongRecOn generalizing l with
  | ind n ih =>
      cases l with
      | nil => rfl
      | cons a l =>
          have hlt : (l.filter fun b => !b == a).length < n := by
            have := List.length_filter_le (fun b => !b == a) l
            rw [List.length_cons] at hn
            omega
          have hrest : ((l.map f).filter fun b => !b == f a) = (l.filter fun b => !b == a).map f := by
            rw [List.filter_map]
            exact congrArg _ (List.filter_congr fun b _ => congrArg _ (hf b a))
          rw [List.map_cons, List.eraseDups_cons, List.eraseDups_cons, hrest, ih _ hlt _ rfl, List.map_cons]

/-- Of the items with some property, one comes before none that has it. -/
theorem exists_mem_forall_not {r : α → α → Prop} (htrans : ∀ {a b c}, r a b → r b c → r a c) (hirrefl : ∀ a, ¬ r a a)
    {p : α → Prop} {l : List α} (h : ∃ a ∈ l, p a) : ∃ m ∈ l, p m ∧ ∀ b ∈ l, p b → ¬ r m b := by
  induction l with
  | nil =>
      obtain ⟨a, ha, -⟩ := h
      exact absurd ha List.not_mem_nil
  | cons x l ih =>
      by_cases hrest : ∃ a ∈ l, p a
      · obtain ⟨m, hm, hpm, hlast⟩ := ih hrest
        by_cases hx : p x ∧ r m x
        · refine ⟨x, List.mem_cons_self, hx.1, List.forall_mem_cons.mpr ⟨fun _ => hirrefl x, fun b hb hpb hxb => ?_⟩⟩
          exact hlast b hb hpb (htrans hx.2 hxb)
        · refine ⟨m, List.mem_cons_of_mem x hm, hpm, List.forall_mem_cons.mpr ⟨fun hpx hmx => ?_, hlast⟩⟩
          exact hx ⟨hpx, hmx⟩
      · have hpx : p x := by
          obtain ⟨a, ha, hpa⟩ := h
          rcases List.mem_cons.mp ha with rfl | ha
          · exact hpa
          · exact absurd ⟨a, ha, hpa⟩ hrest
        refine ⟨x, List.mem_cons_self, hpx, List.forall_mem_cons.mpr ⟨fun _ => hirrefl x, fun b hb hpb => ?_⟩⟩
        exact absurd ⟨b, hb, hpb⟩ hrest

theorem length_le_of_nodup_subset {l m : List α} (hnodup : l.Nodup) (hsub : ∀ x ∈ l, x ∈ m) : l.length ≤ m.length :=
  (hnodup.subperm hsub).length_le

section Grouping

variable {κ : Type} [BEq κ] [LawfulBEq κ] {keys : List κ} (key : α → κ)

/-- Of the groups of an item, by keys without repetition, the one with its key is not empty. -/
theorem flatMap_filter_singleton (hnodup : keys.Nodup) {a : α} (ha : key a ∈ keys) :
    (keys.flatMap fun k => [a].filter fun b => key b == k) = [a] := by
  induction keys with
  | nil => exact absurd ha List.not_mem_nil
  | cons k keys ih =>
      obtain ⟨hk, hnodup⟩ := List.nodup_cons.mp hnodup
      rw [List.flatMap_cons, List.filter_singleton]
      by_cases heq : key a = k
      · have hnone : (keys.flatMap fun k => [a].filter fun b => key b == k) = [] := by
          rw [List.flatMap_eq_nil_iff]
          intro other hother
          rw [List.filter_eq_nil_iff]
          intro b hb
          rw [List.mem_singleton.mp hb, heq, beq_iff_eq]
          rintro rfl
          exact hk hother
        rw [hnone, heq, beq_self_eq_true, cond_true, List.append_nil]
      · rw [beq_eq_false_iff_ne.mpr heq, cond_false, List.nil_append]
        exact ih hnodup ((List.mem_cons.mp ha).resolve_left heq)

/-- Items grouped by keys without repetition are the same items, in another order. -/
theorem flatMap_filter_perm (hnodup : keys.Nodup) {l : List α} (h : ∀ a ∈ l, key a ∈ keys) :
    List.Perm (keys.flatMap fun k => l.filter fun a => key a == k) l := by
  induction l with
  | nil => simp
  | cons a l ih =>
      obtain ⟨ha, hl⟩ := List.forall_mem_cons.mp h
      have hsplit : (fun k => (a :: l).filter fun b => key b == k) =
          fun k => ([a].filter fun b => key b == k) ++ l.filter fun b => key b == k := by
        funext k
        rw [← List.filter_append, List.singleton_append]
      rw [hsplit]
      refine (List.flatMap_append_perm keys _ _).symm.trans ?_
      rw [flatMap_filter_singleton key hnodup ha, List.singleton_append]
      exact (ih hl).cons a

theorem filter_filter_key (l : List α) (k k' : κ) :
    ((l.filter fun a => key a == k).filter fun a => key a == k') =
      if k == k' then l.filter fun a => key a == k' else [] := by
  by_cases heq : k = k'
  · rw [heq, beq_self_eq_true, if_pos rfl, List.filter_filter]
    simp only [Bool.and_self]
  · rw [beq_eq_false_iff_ne.mpr heq, if_neg Bool.false_ne_true, List.filter_filter, List.filter_eq_nil_iff]
    intro a _ hboth
    obtain ⟨hk', hk⟩ := (Bool.and_eq_true _ _).mp hboth
    exact heq ((beq_iff_eq.mp hk).symm.trans (beq_iff_eq.mp hk'))

/-- Grouping leaves the items of each key in their order. -/
theorem filter_flatMap_filter (hnodup : keys.Nodup) {l : List α} (h : ∀ a ∈ l, key a ∈ keys) (k : κ) :
    ((keys.flatMap fun k => l.filter fun a => key a == k).filter fun a => key a == k) =
      l.filter fun a => key a == k := by
  have hgroups : ∀ keys : List κ, keys.Nodup →
      ((keys.flatMap fun k => l.filter fun a => key a == k).filter fun a => key a == k) =
        if keys.contains k then l.filter fun a => key a == k else [] := by
    intro keys hnodup
    induction keys with
    | nil => rfl
    | cons k' keys ih =>
        obtain ⟨hk', hnodup⟩ := List.nodup_cons.mp hnodup
        rw [List.flatMap_cons, List.filter_append, filter_filter_key, ih hnodup, List.contains_cons]
        by_cases heq : k' = k
        · have hnot : keys.contains k = false := by rwa [← heq, Bool.eq_false_iff, Ne, List.contains_iff_mem]
          rw [heq, hnot, beq_self_eq_true]
          simp
        · rw [beq_eq_false_iff_ne.mpr heq, beq_eq_false_iff_ne.mpr (Ne.symm heq)]
          simp
  rw [hgroups keys hnodup]
  by_cases hk : k ∈ keys
  · rw [if_pos (List.contains_iff_mem.mpr hk)]
  · rw [if_neg (mt List.contains_iff_mem.mp hk), eq_comm, List.filter_eq_nil_iff]
    intro a ha heq
    exact hk (beq_iff_eq.mp heq ▸ h a ha)

end Grouping

end StartNodes
