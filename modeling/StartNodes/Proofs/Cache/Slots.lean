import StartNodes.Cache.Invalidation
import StartNodes.Proofs.List.Lookup

/-!
What the operations of a cache do to its slots. Where no lock is held elsewhere and locks can be waited for, nothing is
refused: a computation begins with the value that is there, or leaves all slots as they are until it ends, and then
fills its own slot or none.
-/

namespace StartNodes

variable {V : Type}

namespace Hierarchy

variable {a b : Hierarchy} {slot : String}

theorem idsSlot_ne_pathsSlot (a b : Hierarchy) : a.idsSlot ≠ b.pathsSlot := by
  cases a <;> cases b <;> decide

/-- No two hierarchies share a slot. -/
theorem ne_of_mem_slots (h : a ≠ b) {other : String} (hslot : slot ∈ a.slots) (hother : other ∈ b.slots) : slot ≠ other := by
  have hdistinct : ∀ a b : Hierarchy, a ≠ b → ∀ slot ∈ a.slots, slot ∉ b.slots := by
    intro a b
    cases a <;> cases b <;> decide
  exact (ne_of_mem_of_not_mem hother (hdistinct a b h slot hslot)).symm

theorem idsSlot_mem_slots (kind : Hierarchy) : kind.idsSlot ∈ kind.slots :=
  List.mem_cons_self

theorem pathsSlot_mem_slots (kind : Hierarchy) : kind.pathsSlot ∈ kind.slots :=
  List.mem_cons_of_mem _ (List.mem_singleton_self _)

end Hierarchy

namespace Entry

theorem get?_put_self (e : Entry V) (slot : String) (value : V) : (e.put slot value).get? slot = some value := by
  unfold put
  by_cases h : e.has slot = true
  · rw [if_pos h]
    obtain ⟨old, hold⟩ := Option.isSome_iff_exists.mp h
    show List.lookup slot _ = _
    rw [lookup_map_self]
    show (e.get? slot).map _ = _
    rw [hold, Option.map_some]
  · rw [if_neg h]
    show List.lookup slot (e.slots ++ [(slot, value)]) = _
    have hnone : e.slots.lookup slot = none := Option.not_isSome_iff_eq_none.mp h
    rw [List.lookup_append, hnone, Option.none_or, List.lookup_cons_self]

theorem get?_put_of_ne (e : Entry V) {slot other : String} (h : other ≠ slot) (value : V) :
    (e.put slot value).get? other = e.get? other := by
  unfold put
  by_cases hslot : e.has slot = true
  · rw [if_pos hslot]
    exact lookup_map_of_ne h value e.slots
  · rw [if_neg hslot]
    show List.lookup other (e.slots ++ [(slot, value)]) = _
    rw [List.lookup_append, List.lookup_cons, beq_eq_false_iff_ne.mpr h]
    exact Option.or_none

theorem stamp_put (e : Entry V) (slot : String) (value : V) : (e.put slot value).stamp = e.stamp := by
  unfold put
  split <;> rfl

theorem get?_drop_self (e : Entry V) (slot : String) : (e.drop slot).get? slot = none :=
  lookup_filter_self slot e.slots

theorem get?_drop_of_ne (e : Entry V) {slot other : String} (h : other ≠ slot) :
    (e.drop slot).get? other = e.get? other :=
  lookup_filter_of_ne h e.slots

theorem slots_ne_nil_iff {e : Entry V} : e.slots ≠ [] ↔ ∃ slot value, e.get? slot = some value := by
  constructor
  · intro h
    obtain ⟨⟨slot, value⟩, rest, hslots⟩ := List.exists_cons_of_ne_nil h
    exact ⟨slot, value, by rw [get?, hslots, List.lookup_cons_self]⟩
  · rintro ⟨slot, value, hget⟩ hslots
    rw [get?, hslots] at hget
    cases hget

theorem slots_put_ne_nil (e : Entry V) (slot : String) (value : V) : (e.put slot value).slots ≠ [] :=
  slots_ne_nil_iff.mpr ⟨slot, value, e.get?_put_self slot value⟩

end Entry

namespace Cache

variable {c c' : Cache V} {p q : PrincipalKey} {slot : String}

/-- Locks can be waited for, and nobody beside the caller holds one. -/
structure Usable (c : Cache V) : Prop where
  timeout : c.timeout.fault? = none
  free : c.heldElsewhere = []

/-- Two caches that hold the same values and refuse the same. -/
structure Alike (c c' : Cache V) : Prop where
  timeout : c'.timeout = c.timeout
  heldElsewhere : c'.heldElsewhere = c.heldElsewhere
  peek : ∀ q slot, c'.peek? q slot = c.peek? q slot

theorem Alike.usable (h : c.Alike c') (hc : c.Usable) : c'.Usable :=
  ⟨h.timeout ▸ hc.timeout, h.heldElsewhere ▸ hc.free⟩

theorem Usable.lockError?_eq_none (h : c.Usable) (p : PrincipalKey) (e : Entry V) : c.lockError? .here p e = none := by
  rw [lockError?, h.timeout]
  simp only [isBlocked, h.free]
  exact if_neg Bool.false_ne_true

/-- A timeout that cannot be waited for refuses every lock. -/
theorem lockError?_of_fault {f : LockTimeout.Fault} (h : c.timeout.fault? = some f) (who : Holder) (p : PrincipalKey)
    (e : Entry V) : c.lockError? who p e = some (.unusable f) := by
  rw [lockError?, h]

/-! ### Entries -/

theorem peek?_of_found {e : Entry V} (h : c.entry? p = some e) (slot : String) : c.peek? p slot = e.get? slot := by
  rw [peek?, h, Option.bind_some]

theorem peek?_of_missing (h : c.entry? p = none) (slot : String) : c.peek? p slot = none := by
  rw [peek?, h, Option.bind_none]

theorem entry_update_self {old : Entry V} (h : c.entry? p = some old) (e : Entry V) :
    Cache.entry? (c.update p e) p = some e := by
  have hfound : c.entries.lookup p = some old := h
  rw [ entry?, update, lookup_map_self, hfound, Option.map_some]

theorem entry_update_of_ne (h : q ≠ p) (e : Entry V) : Cache.entry? (c.update p e) q = c.entry? q :=
  lookup_map_of_ne h e c.entries

theorem entry_discard_self (c : Cache V) (p : PrincipalKey) : Cache.entry? (c.discard p) p = none :=
  lookup_filter_self p c.entries

theorem entry_discard_of_ne (h : q ≠ p) : Cache.entry? (c.discard p) q = c.entry? q :=
  lookup_filter_of_ne h c.entries

theorem ensure_of_found {e : Entry V} (h : c.entry? p = some e) : c.ensure p = (e, c) := by
  rw [ensure, h]

theorem entry_ensure_self (c : Cache V) (p : PrincipalKey) :
    Cache.entry? (c.ensure p).2 p = some (c.ensure p).1 := by
  cases hentry : c.entry? p with
  | some e => rw [ensure_of_found hentry, hentry]
  | none =>
      have hnone : c.entries.lookup p = none := hentry
      unfold ensure
      rw [hentry]
      show List.lookup p (c.entries ++ _) = _
      rw [List.lookup_append, hnone, Option.none_or, List.lookup_cons_self]

theorem entry_ensure_of_ne (h : q ≠ p) : Cache.entry? (c.ensure p).2 q = c.entry? q := by
  cases hentry : c.entry? p with
  | some e => rw [ensure_of_found hentry]
  | none =>
      unfold ensure
      rw [hentry]
      show List.lookup q (c.entries ++ _) = _
      rw [List.lookup_append, List.lookup_cons, beq_eq_false_iff_ne.mpr h]
      exact Option.or_none

/-- An entry that is made has no slots. -/
theorem get?_ensure (c : Cache V) (p : PrincipalKey) (slot : String) : (c.ensure p).1.get? slot = c.peek? p slot := by
  cases hentry : c.entry? p with
  | some e => rw [ensure_of_found hentry, peek?_of_found hentry]
  | none =>
      rw [peek?_of_missing hentry]
      unfold ensure
      rw [hentry]
      rfl

theorem peek?_update_self {old : Entry V} (h : c.entry? p = some old) (e : Entry V) (slot : String) :
    (c.update p e).peek? p slot = e.get? slot :=
  peek?_of_found (entry_update_self h e) slot

theorem peek?_congr {c' : Cache V} (h : c'.entry? q = c.entry? q) (slot : String) :
    c'.peek? q slot = c.peek? q slot := by
  rw [peek?, h, peek?]

theorem peek?_update_of_ne (h : q ≠ p) (e : Entry V) (slot : String) : (c.update p e).peek? q slot = c.peek? q slot :=
  peek?_congr (entry_update_of_ne h e) slot

theorem peek?_discard_self (c : Cache V) (p : PrincipalKey) (slot : String) : (c.discard p).peek? p slot = none :=
  peek?_of_missing (c.entry_discard_self p) slot

theorem peek?_discard_of_ne (h : q ≠ p) (slot : String) : (c.discard p).peek? q slot = c.peek? q slot :=
  peek?_congr (entry_discard_of_ne h) slot

/-- A principal that is made known has the slots that it had. -/
theorem ensure_alike (c : Cache V) (p : PrincipalKey) : c.Alike (c.ensure p).2 := by
  refine ⟨?_, ?_, fun q slot => ?_⟩
  · unfold ensure
    split <;> rfl
  · unfold ensure
    split <;> rfl
  · by_cases hq : q = p
    · rw [hq, peek?_of_found (c.entry_ensure_self p), get?_ensure]
    · exact peek?_congr (entry_ensure_of_ne hq) slot

/-! ### Computations -/

/-- The cache while the factory of a computation runs that has just begun. -/
def begun (c : Cache V) (p : PrincipalKey) : Cache V :=
  { (c.ensure p).2 with heldHere := (c.ensure p).1.stamp :: (c.ensure p).2.heldHere }

theorem entry_begun (c : Cache V) (p q : PrincipalKey) :
    Cache.entry? (c.begun p) q = Cache.entry? (c.ensure p).2 q := rfl

theorem begun_alike (c : Cache V) (p : PrincipalKey) : c.Alike (c.begun p) :=
  ⟨(c.ensure_alike p).timeout, (c.ensure_alike p).heldElsewhere, (c.ensure_alike p).peek⟩

/-- How a computation begins, once the principal has an entry. -/
theorem begin_cases (c : Cache V) (p : PrincipalKey) (slot : String) :
    (∃ err, c.begin .here p slot = (.error err, (c.ensure p).2)) ∨
      (c.ensure p).2.lockError? .here p (c.ensure p).1 = none ∧
        ((∃ value, (c.ensure p).1.get? slot = some value ∧ c.begin .here p slot = (.ok (.hit value), (c.ensure p).2)) ∨
          (c.ensure p).1.get? slot = none ∧
            c.begin .here p slot = (.ok (.miss (c.ensure p).1.stamp), c.begun p)) := by
  unfold begin
  cases herr : (c.ensure p).2.lockError? .here p (c.ensure p).1 with
  | some err => exact Or.inl ⟨err, by simp only [herr]⟩
  | none =>
      refine Or.inr ⟨rfl, ?_⟩
      cases hget : (c.ensure p).1.get? slot with
      | some value => exact Or.inl ⟨value, rfl, by simp only [herr, hget]⟩
      | none => exact Or.inr ⟨rfl, by simp only [herr, hget, begun]⟩

theorem begin_of_hit (hc : c.Usable) {value : V} (hvalue : c.peek? p slot = some value) :
    c.begin .here p slot = (.ok (.hit value), c) := by
  obtain ⟨e, hentry, hget⟩ := Option.bind_eq_some_iff.mp hvalue
  unfold begin
  simp only [ensure_of_found hentry, hc.lockError?_eq_none, hget]

theorem begin_of_miss (hc : c.Usable) (hnone : c.peek? p slot = none) :
    c.begin .here p slot = (.ok (.miss (c.ensure p).1.stamp), c.begun p) := by
  have hensure : (c.ensure p).2.Usable := (c.ensure_alike p).usable hc
  unfold begin
  simp only [hensure.lockError?_eq_none, get?_ensure, hnone, begun]

theorem begin_of_fault {f : LockTimeout.Fault} (h : c.timeout.fault? = some f) (who : Holder) (p : PrincipalKey)
    (slot : String) : c.begin who p slot = (.error (.unusable f), (c.ensure p).2) := by
  have hfault : (c.ensure p).2.timeout.fault? = some f := (c.ensure_alike p).timeout ▸ h
  unfold begin
  simp only [lockError?_of_fault hfault]

theorem store_of_stamp {e : Entry V} (h : c.entry? p = some e) (slot : String) (value : V) :
    c.store p e.stamp slot value = c.update p (e.put slot value) := by
  unfold store
  simp only [h, beq_self_eq_true, if_true]

/-- The entry with which the computation began has been dropped since. -/
theorem store_of_other {stamp : Nat} (h : ∀ e, c.entry? p = some e → e.stamp ≠ stamp) (slot : String) (value : V) :
    c.store p stamp slot value = c := by
  unfold store
  cases hentry : c.entry? p with
  | none => rfl
  | some e => exact if_neg (by simpa using h e hentry)

/-- Whether a computed value is written or lost. -/
theorem store_cases (c : Cache V) (p : PrincipalKey) (stamp : Nat) (slot : String) (value : V) :
    (∃ e, c.entry? p = some e ∧ e.stamp = stamp ∧ c.store p stamp slot value = c.update p (e.put slot value)) ∨
      (∀ e, c.entry? p = some e → e.stamp ≠ stamp) ∧ c.store p stamp slot value = c := by
  by_cases hstamp : ∃ e, c.entry? p = some e ∧ e.stamp = stamp
  · obtain ⟨e, hentry, rfl⟩ := hstamp
    exact Or.inl ⟨e, hentry, rfl, store_of_stamp hentry slot value⟩
  · have hother : ∀ e, c.entry? p = some e → e.stamp ≠ stamp := fun e hentry hsame => hstamp ⟨e, hentry, hsame⟩
    exact Or.inr ⟨hother, store_of_other hother slot value⟩

theorem entry_store_of_ne (h : q ≠ p) (stamp : Nat) (slot : String) (value : V) :
    Cache.entry? (c.store p stamp slot value) q = c.entry? q := by
  obtain ⟨e, _, _, hstore⟩ | ⟨_, hstore⟩ := c.store_cases p stamp slot value
  · rw [hstore, entry_update_of_ne h]
  · rw [hstore]

theorem entry_finish_ok {E : Type} (c : Cache V) (who : Holder) (p : PrincipalKey) (stamp : Nat) (slot : String)
    (value : V) (q : PrincipalKey) :
    Cache.entry? (c.finish who p stamp slot (.ok value : Except E V)) q =
      Cache.entry? (c.store p stamp slot value) q := by
  cases who <;> rfl

theorem entry_finish_error {E : Type} (c : Cache V) (who : Holder) (p : PrincipalKey) (stamp : Nat) (slot : String)
    (e : E) (q : PrincipalKey) :
    Cache.entry? (c.finish who p stamp slot (.error e)) q = c.entry? q := by
  cases who <;> rfl

theorem entry_finish_of_ne {E : Type} (h : q ≠ p) (who : Holder) (stamp : Nat) (slot : String)
    (outcome : Except E V) : Cache.entry? (c.finish who p stamp slot outcome) q = c.entry? q := by
  cases outcome with
  | ok value => rw [entry_finish_ok, entry_store_of_ne h]
  | error e => exact entry_finish_error ..

/-- The values of the second cache are those of the first, but for one slot, which may have been filled. -/
structure Fills (c c' : Cache V) (p : PrincipalKey) (slot : String) (value : V) : Prop where
  timeout : c'.timeout = c.timeout
  heldElsewhere : c'.heldElsewhere = c.heldElsewhere
  peek : ∀ q other found, c'.peek? q other = some found →
    c.peek? q other = some found ∨ q = p ∧ other = slot ∧ found = value

theorem store_fills (c : Cache V) (p : PrincipalKey) (stamp : Nat) (slot : String) (value : V) :
    c.Fills (c.store p stamp slot value) p slot value := by
  obtain ⟨e, hentry, _, hstore⟩ | ⟨_, hstore⟩ := c.store_cases p stamp slot value
  swap
  · rw [hstore]
    exact ⟨rfl, rfl, fun _ _ _ h => Or.inl h⟩
  rw [hstore]
  refine ⟨rfl, rfl, fun q other found hfound => ?_⟩
  by_cases hq : q = p
  · subst hq
    rw [peek?_update_self hentry] at hfound
    by_cases hother : other = slot
    · rw [hother, Entry.get?_put_self, Option.some_inj] at hfound
      exact Or.inr ⟨rfl, hother, hfound.symm⟩
    · rw [Entry.get?_put_of_ne e hother] at hfound
      exact Or.inl ((peek?_of_found hentry other).trans hfound)
  · exact Or.inl ((peek?_update_of_ne hq _ other).symm.trans hfound)

theorem finish_fills {E : Type} (c : Cache V) (p : PrincipalKey) (stamp : Nat) (slot : String) (value : V) :
    c.Fills (c.finish .here p stamp slot (.ok value : Except E V)) p slot value := by
  obtain ⟨htimeout, hheld, hpeek⟩ := c.store_fills p stamp slot value
  exact ⟨htimeout, hheld, hpeek⟩

theorem finish_error_alike {E : Type} (c : Cache V) (p : PrincipalKey) (stamp : Nat) (slot : String) (e : E) :
    c.Alike (c.finish .here p stamp slot (.error e)) :=
  ⟨rfl, rfl, fun _ _ => rfl⟩

/-! ### Forgetting -/

theorem entry_settle_self {old : Entry V} (h : c.entry? p = some old) (e : Entry V) :
    Cache.entry? (c.settle p e) p = if e.slots.isEmpty then none else some e := by
  unfold settle
  split
  · exact c.entry_discard_self p
  · exact entry_update_self h e

/-- Whether an entry is dropped or written over, its slots are those that are left to it. -/
theorem peek?_settle_self {old : Entry V} (h : c.entry? p = some old) (e : Entry V) (slot : String) :
    (c.settle p e).peek? p slot = e.get? slot := by
  by_cases hempty : e.slots.isEmpty = true
  · rw [peek?_of_missing (by rw [entry_settle_self h, if_pos hempty]), Entry.get?, List.isEmpty_iff.mp hempty]
    rfl
  · exact peek?_of_found (by rw [entry_settle_self h, if_neg hempty]) slot

/-- Forgetting leaves no entry without slots. -/
theorem slots_ne_nil_of_settle {old e e' : Entry V} (h : c.entry? p = some old)
    (he' : Cache.entry? (c.settle p e) p = some e') : e'.slots ≠ [] := by
  rw [entry_settle_self h] at he'
  split at he'
  · cases he'
  · next hempty =>
      cases he'
      exact mt List.isEmpty_iff.mpr hempty

theorem entry_settle_of_ne (h : q ≠ p) (e : Entry V) : Cache.entry? (c.settle p e) q = c.entry? q := by
  unfold settle
  split
  · exact entry_discard_of_ne h
  · exact entry_update_of_ne h e

theorem peek?_settle_of_ne (h : q ≠ p) (e : Entry V) (slot : String) : (c.settle p e).peek? q slot = c.peek? q slot :=
  peek?_congr (entry_settle_of_ne h e) slot

theorem timeout_settle (c : Cache V) (p : PrincipalKey) (e : Entry V) : (c.settle p e).timeout = c.timeout := by
  unfold settle
  split <;> rfl

theorem heldElsewhere_settle (c : Cache V) (p : PrincipalKey) (e : Entry V) :
    (c.settle p e).heldElsewhere = c.heldElsewhere := by
  unfold settle
  split <;> rfl

theorem Usable.settle (hc : c.Usable) (p : PrincipalKey) (e : Entry V) : (c.settle p e).Usable :=
  ⟨(c.timeout_settle p e).symm ▸ hc.timeout, (c.heldElsewhere_settle p e).trans hc.free⟩

theorem forget_of_missing (h : c.entry? p = none) (slot : String) : c.forget p slot = (.ok (), c) := by
  unfold forget
  simp only [h]

theorem forget_of_found (hc : c.Usable) {e : Entry V} (h : c.entry? p = some e) (slot : String) :
    c.forget p slot = (.ok (), c.settle p (e.drop slot)) := by
  unfold forget
  simp only [h, hc.lockError?_eq_none]

/-- Where locks cannot be waited for, nothing is forgotten. -/
theorem forget_of_fault {f : LockTimeout.Fault} (h : c.timeout.fault? = some f) (p : PrincipalKey) (slot : String) :
    (c.forget p slot).2 = c := by
  unfold forget
  cases c.entry? p with
  | none => rfl
  | some e => simp only [lockError?_of_fault h]

end Cache

end StartNodes
