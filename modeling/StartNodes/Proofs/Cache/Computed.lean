import StartNodes.Proofs.Cache.Refinement

/-!
Whether a computed value is kept. It goes to the entry with which its computation began, so it is kept exactly if the
factory has not dropped that entry, by forgetting what was left of the principal's slots. An entry that is made
afterwards has another stamp: what is dropped does not come back, and the value is lost unless the factory itself has
written it to the new entry.
-/

namespace StartNodes

variable {V E : Type}

/-! ### What is left of an entry -/

/-- The slots of an entry, by their names, after an operation on its principal; none if the entry is dropped. -/
def Operation.leaves (slots : List String) : Operation V → Option (List String)
  | set _ slot _ => some (slot :: slots)
  | forget _ slot => if slots.all (· == slot) then none else some (slots.filter (· != slot))
  | forgetPrincipal _ => none
  | _ => some slots

/-- The slots of an entry of a principal, by their names, after an event; none if the entry is dropped. -/
def Event.leaves (p : PrincipalKey) (slots : List String) : Event V E → Option (List String)
  | called _ op (.ok _) => if op.principal = p then op.leaves slots else some slots
  | ended q slot (.ok _) => if q = p then some (slot :: slots) else some slots
  | _ => some slots

/-- The slots of an entry of a principal, by their names, after some events; none once the entry has been dropped. -/
def slotsLeft (p : PrincipalKey) (slots : List String) (events : List (Event V E)) : Option (List String) :=
  events.foldlM (fun slots e => e.leaves p slots) slots

/-- What concerns another principal leaves an entry as it is. -/
theorem Event.leaves_of_ne {p : PrincipalKey} (event : Event V E) (h : event.principal ≠ p) (slots : List String) :
    event.leaves p slots = some slots := by
  cases event with
  | called running op answer =>
      cases answer with
      | error err => rfl
      | ok answer => exact if_neg h
  | computed q slot outcome => rfl
  | begun q slot => rfl
  | ended q slot outcome =>
      cases outcome with
      | error err => rfl
      | ok value => exact if_neg h

/-- An operation that is answered leaves what it leaves of the entry of its principal. -/
theorem Event.leaves_called (running : List PrincipalKey) (op : Operation V) (answer : Answer V) (slots : List String) :
    (called running op (.ok answer) : Event V E).leaves op.principal slots = op.leaves slots :=
  if_pos rfl

theorem slotsLeft_append_singleton (p : PrincipalKey) (slots : List String) (events : List (Event V E))
    (e : Event V E) :
    slotsLeft p slots (events ++ [e]) = (slotsLeft p slots events).bind fun left => e.leaves p left := by
  simp only [slotsLeft, List.foldlM_append, List.foldlM_cons, List.foldlM_nil]
  cases events.foldlM (fun slots e => e.leaves p slots) slots with
  | none => rfl
  | some left => exact bind_pure (e.leaves p left)

/-- What neither is answered nor ends leaves an entry as it is. -/
theorem slotsLeft_append_idle {p : PrincipalKey} {e : Event V E} (h : ∀ slots, e.leaves p slots = some slots)
    (slots : List String) (events : List (Event V E)) :
    slotsLeft p slots (events ++ [e]) = slotsLeft p slots events := by
  rw [slotsLeft_append_singleton]
  cases slotsLeft p slots events with
  | none => rfl
  | some left => exact h left

namespace Cache

variable {c c' c'' : Cache V} {p q : PrincipalKey} {slot : String}

/-! ### Stamps -/

/-- Every entry, and every lock that is held elsewhere, has a stamp that has been given. -/
structure Stamped (c : Cache V) : Prop where
  entries : ∀ p e, c.entry? p = some e → e.stamp < c.nextStamp
  heldElsewhere : ∀ stamp ∈ c.heldElsewhere, stamp < c.nextStamp

theorem stamped_empty (timeout : LockTimeout) : (empty timeout : Cache V).Stamped :=
  ⟨nofun, nofun⟩

/-- From one cache to another, without anybody else: every entry of the second is one of the first, whatever its slots,
or has been made since. -/
structure Ages (c c' : Cache V) : Prop where
  timeout : c'.timeout = c.timeout
  heldElsewhere : c'.heldElsewhere = c.heldElsewhere
  nextStamp_le : c.nextStamp ≤ c'.nextStamp
  stamps : ∀ p e', c'.entry? p = some e' →
    (∃ e, c.entry? p = some e ∧ e.stamp = e'.stamp) ∨ c.nextStamp ≤ e'.stamp ∧ e'.stamp < c'.nextStamp

namespace Ages

theorem refl (c : Cache V) : c.Ages c :=
  ⟨rfl, rfl, Nat.le_refl _, fun _ e h => Or.inl ⟨e, h, rfl⟩⟩

theorem trans (h : c.Ages c') (h' : c'.Ages c'') : c.Ages c'' where
  timeout := h'.timeout.trans h.timeout
  heldElsewhere := h'.heldElsewhere.trans h.heldElsewhere
  nextStamp_le := Nat.le_trans h.nextStamp_le h'.nextStamp_le
  stamps p e'' hentry'' := by
    rcases h'.stamps p e'' hentry'' with ⟨e', hentry', hstamp'⟩ | ⟨hle, hlt⟩
    · rcases h.stamps p e' hentry' with ⟨e, hentry, hstamp⟩ | ⟨hle, hlt⟩
      · exact Or.inl ⟨e, hentry, hstamp.trans hstamp'⟩
      · exact Or.inr ⟨hstamp' ▸ hle, hstamp' ▸ Nat.lt_of_lt_of_le hlt h'.nextStamp_le⟩
    · exact Or.inr ⟨Nat.le_trans h.nextStamp_le hle, hlt⟩

theorem stamped (h : c.Ages c') (hc : c.Stamped) : c'.Stamped where
  entries p e' hentry' := by
    rcases h.stamps p e' hentry' with ⟨e, hentry, hstamp⟩ | ⟨_, hlt⟩
    · exact hstamp ▸ Nat.lt_of_lt_of_le (hc.entries p e hentry) h.nextStamp_le
    · exact hlt
  heldElsewhere stamp hmem := by
    rw [h.heldElsewhere] at hmem
    exact Nat.lt_of_lt_of_le (hc.heldElsewhere stamp hmem) h.nextStamp_le

end Ages

theorem ensure_ages (c : Cache V) (p : PrincipalKey) : c.Ages (c.ensure p).2 := by
  cases hentry : c.entry? p with
  | some e =>
      rw [ensure_of_found hentry]
      exact .refl c
  | none =>
      have hmade : (c.ensure p).1.stamp = c.nextStamp ∧ (c.ensure p).2.nextStamp = c.nextStamp + 1 := by
        unfold ensure
        rw [hentry]
        exact ⟨rfl, rfl⟩
      refine ⟨(c.ensure_alike p).timeout, (c.ensure_alike p).heldElsewhere, by omega, fun q e' hentry' => ?_⟩
      by_cases hq : q = p
      · subst hq
        cases (c.entry_ensure_self q).symm.trans hentry'
        exact Or.inr (by omega)
      · exact Or.inl ⟨e', (entry_ensure_of_ne hq).symm.trans hentry', rfl⟩

theorem begun_ages (c : Cache V) (p : PrincipalKey) : c.Ages (c.begun p) := by
  obtain ⟨htimeout, hheld, hle, hstamps⟩ := c.ensure_ages p
  exact ⟨htimeout, hheld, hle, hstamps⟩

theorem update_ages {old e : Entry V} (h : c.entry? p = some old) (hstamp : old.stamp = e.stamp) :
    c.Ages (c.update p e) := by
  refine ⟨rfl, rfl, Nat.le_refl _, fun q e' hentry' => Or.inl ?_⟩
  by_cases hq : q = p
  · subst hq
    cases (entry_update_self h e).symm.trans hentry'
    exact ⟨old, h, hstamp⟩
  · exact ⟨e', (entry_update_of_ne hq e).symm.trans hentry', rfl⟩

theorem discard_ages (c : Cache V) (p : PrincipalKey) : c.Ages (c.discard p) := by
  refine ⟨rfl, rfl, Nat.le_refl _, fun q e' hentry' => Or.inl ?_⟩
  by_cases hq : q = p
  · subst hq
    cases (c.entry_discard_self q).symm.trans hentry'
  · exact ⟨e', (entry_discard_of_ne hq).symm.trans hentry', rfl⟩

theorem settle_ages {old e : Entry V} (h : c.entry? p = some old) (hstamp : old.stamp = e.stamp) :
    c.Ages (c.settle p e) := by
  unfold settle
  split
  · exact c.discard_ages p
  · exact update_ages h hstamp

theorem Applied.ages {op : Operation V} {answer : Except LockError (Answer V)} (h : c.Applied op answer c') :
    c.Ages c' := by
  cases h with
  | get | contains | forgetRefused | forgetMissing _ | forgetPrincipalRefused | forgetPrincipalMissing _ =>
      exact .refl c
  | setRefused => exact c.ensure_ages _
  | set => exact (c.ensure_ages _).trans (update_ages (c.entry_ensure_self _) (Entry.stamp_put ..).symm)
  | forget hentry => exact settle_ages hentry rfl
  | forgetPrincipal _ => exact c.discard_ages _

theorem store_ages (c : Cache V) (p : PrincipalKey) (stamp : Nat) (slot : String) (value : V) :
    c.Ages (c.store p stamp slot value) := by
  obtain ⟨e, hentry, _, hstore⟩ | ⟨_, hstore⟩ := c.store_cases p stamp slot value
  · rw [hstore]
    exact update_ages hentry (Entry.stamp_put ..).symm
  · rw [hstore]
    exact .refl c

theorem finish_ages (c : Cache V) (p : PrincipalKey) (stamp : Nat) (slot : String) (outcome : Except E V) :
    c.Ages (c.finish .here p stamp slot outcome) := by
  cases outcome with
  | error e => exact ⟨rfl, rfl, Nat.le_refl _, fun _ e h => Or.inl ⟨e, h, rfl⟩⟩
  | ok value =>
      have hstore := c.store_ages p stamp slot value
      exact ⟨hstore.timeout, hstore.heldElsewhere, hstore.nextStamp_le, hstore.stamps⟩

/-! ### Following an entry -/

/-- What a cache has of an entry of a principal: the entry with slots of these names, or no entry of this stamp. -/
def HasLeft (c : Cache V) (p : PrincipalKey) (stamp : Nat) : Option (List String) → Prop
  | some slots => ∃ e, c.entry? p = some e ∧ e.stamp = stamp ∧ ∀ slot, slot ∈ slots ↔ (e.get? slot).isSome = true
  | none => ∀ e, c.entry? p = some e → e.stamp ≠ stamp

variable {stamp : Nat} {left : Option (List String)}

theorem HasLeft.congr (h : c.HasLeft p stamp left) (hentry : c'.entry? p = c.entry? p) : c'.HasLeft p stamp left := by
  cases left <;> simpa only [HasLeft, hentry] using h

/-- An entry that has been dropped does not come back. -/
theorem Ages.hasLeft_none (hages : c.Ages c') (hstamp : stamp < c.nextStamp) (h : c.HasLeft p stamp none) :
    c'.HasLeft p stamp none := by
  intro e' hentry'
  rcases hages.stamps p e' hentry' with ⟨e, hentry, hsame⟩ | ⟨hle, _⟩
  · exact hsame ▸ h e hentry
  · omega

theorem hasLeft_put {e : Entry V} (h : c.entry? p = some e) {slots : List String}
    (hslots : ∀ slot, slot ∈ slots ↔ (e.get? slot).isSome = true) (slot : String) (value : V) :
    (c.update p (e.put slot value)).HasLeft p e.stamp (some (slot :: slots)) := by
  refine ⟨_, entry_update_self h _, e.stamp_put slot value, fun other => ?_⟩
  by_cases hother : other = slot
  · simp [hother, e.get?_put_self slot value]
  · rw [e.get?_put_of_ne hother, ← hslots other, List.mem_cons, or_iff_right hother]

theorem hasLeft_drop {e : Entry V} (h : c.entry? p = some e) {slots : List String}
    (hslots : ∀ slot, slot ∈ slots ↔ (e.get? slot).isSome = true) (slot : String) :
    (c.settle p (e.drop slot)).HasLeft p e.stamp ((Operation.forget p slot : Operation V).leaves slots) := by
  have hnames : ∀ other, other ∈ slots.filter (· != slot) ↔ ((e.drop slot).get? other).isSome = true := by
    intro other
    by_cases hother : other = slot
    · simp [hother, e.get?_drop_self slot]
    · simp [hother, e.get?_drop_of_ne hother, hslots other]
  have hempty : slots.all (· == slot) = true ↔ (e.drop slot).slots.isEmpty = true := by
    rw [List.isEmpty_iff, ← not_iff_not, ← ne_eq (e.drop slot).slots, Entry.slots_ne_nil_iff]
    simp only [← Option.isSome_iff_exists, ← hnames, List.mem_filter]
    simp
  simp only [Operation.leaves]
  split
  · next hall =>
      intro e' hentry'
      rw [entry_settle_self h, if_pos (hempty.mp hall)] at hentry'
      cases hentry'
  · next hall =>
      refine ⟨e.drop slot, ?_, rfl, hnames⟩
      rw [entry_settle_self h, if_neg (mt hempty.mpr hall)]

theorem Applied.hasLeft {op : Operation V} {answer : Except LockError (Answer V)} (happlied : c.Applied op answer c')
    (hstamp : stamp < c.nextStamp) (h : c.HasLeft p stamp left) (running : List PrincipalKey) :
    c'.HasLeft p stamp (left.bind fun slots => (Event.called running op answer : Event V E).leaves p slots) := by
  cases left with
  | none => exact happlied.ages.hasLeft_none hstamp h
  | some slots =>
      by_cases hop : op.principal = p
      swap
      · rw [Option.bind_some, Event.leaves_of_ne (.called running op answer) hop]
        exact h.congr (happlied.entry_of_ne (Ne.symm hop))
      subst hop
      have hsame : c.HasLeft op.principal stamp (some slots) := h
      obtain ⟨e, hentry, rfl, hslots⟩ := h
      cases happlied with
      | get | contains =>
          cases answer with
          | error err => exact hsame
          | ok answer =>
              rw [Option.bind_some, Event.leaves_called]
              exact hsame
      | @setRefused q =>
          rw [show c.ensure q = (e, c) from ensure_of_found hentry]
          exact hsame
      | @set q slot value =>
          rw [show c.ensure q = (e, c) from ensure_of_found hentry, Option.bind_some, Event.leaves_called]
          exact hasLeft_put hentry hslots slot value
      | forgetRefused => exact hsame
      | forgetMissing hnone => cases hnone.symm.trans hentry
      | @forget q slot _ hfound =>
          cases hfound.symm.trans hentry
          rw [Option.bind_some, Event.leaves_called]
          exact hasLeft_drop hentry hslots slot
      | forgetPrincipalRefused => exact hsame
      | forgetPrincipalMissing hnone => cases hnone.symm.trans hentry
      | @forgetPrincipal q _ _ =>
          rw [Option.bind_some, Event.leaves_called]
          intro e' hentry'
          cases (c.entry_discard_self q).symm.trans hentry'

/-- A computation that begins makes no entry in place of one that is there. -/
theorem HasLeft.ensure (h : c.HasLeft p stamp left) (hstamp : stamp < c.nextStamp) (q : PrincipalKey) :
    Cache.HasLeft (c.ensure q).2 p stamp left := by
  cases left with
  | none => exact (c.ensure_ages q).hasLeft_none hstamp h
  | some slots =>
      obtain ⟨e, hentry, hrest⟩ := h
      refine ⟨e, ?_, hrest⟩
      by_cases hq : p = q
      · subst hq
        rw [ensure_of_found hentry, hentry]
      · rw [entry_ensure_of_ne hq, hentry]

/-- A computation that ends stores its value in the entry, if it began with it. -/
theorem HasLeft.finish {m : Nat} (h : c.HasLeft p stamp left) (hstamp : stamp < c.nextStamp)
    (hm : q = p → left ≠ none → m = stamp) (slot : String) (outcome : Except E V) :
    Cache.HasLeft (c.finish .here q m slot outcome) p stamp
      (left.bind fun slots => (Event.ended q slot outcome : Event V E).leaves p slots) := by
  cases left with
  | none => exact (c.finish_ages q m slot outcome).hasLeft_none hstamp h
  | some slots =>
      by_cases hq : q = p
      swap
      · rw [Option.bind_some, Event.leaves_of_ne (.ended q slot outcome) hq]
        exact h.congr (entry_finish_of_ne (Ne.symm hq) ..)
      cases outcome with
      | error e => exact h
      | ok value =>
          subst hq
          obtain rfl := hm rfl (Option.some_ne_none slots)
          obtain ⟨e, hentry, rfl, hslots⟩ := h
          have hleaves : (Event.ended q slot (.ok value) : Event V E).leaves q slots = some (slot :: slots) :=
            if_pos rfl
          rw [Option.bind_some, hleaves]
          refine (hasLeft_put hentry hslots slot value).congr ?_
          rw [entry_finish_ok, store_of_stamp hentry]

/-- While a factory runs: what is left of the entry of a principal, and that every computation of the principal that is
running began with that entry as long as it is there. -/
structure Follows (c : Cache V) (p : PrincipalKey) (stamp : Nat) (left : Option (List String))
    (pending : List (PrincipalKey × Nat)) : Prop where
  fresh : stamp < c.nextStamp
  hasLeft : c.HasLeft p stamp left
  waiting : left ≠ none → ∀ m, (p, m) ∈ pending → m = stamp

/-! Nor does anybody else unsettle the stamps: what a computation takes beside the caller is an entry's. -/

namespace Stamped

theorem begin (hc : c.Stamped) (who : Holder) (p : PrincipalKey) (slot : String) : (c.begin who p slot).2.Stamped := by
  have hensure : (c.ensure p).2.Stamped := (c.ensure_ages p).stamped hc
  unfold Cache.begin
  dsimp only
  split
  · exact hensure
  split
  · exact hensure
  cases who with
  | here => exact ⟨hensure.entries, hensure.heldElsewhere⟩
  | elsewhere =>
      refine ⟨hensure.entries, fun stamp hmem => ?_⟩
      rcases List.mem_cons.mp hmem with rfl | hmem
      · exact hensure.entries p _ (c.entry_ensure_self p)
      · exact hensure.heldElsewhere stamp hmem

theorem release (hc : c.Stamped) (who : Holder) (stamp : Nat) : (c.release who stamp).Stamped := by
  cases who with
  | here => exact ⟨hc.entries, hc.heldElsewhere⟩
  | elsewhere => exact ⟨hc.entries, fun held hmem => hc.heldElsewhere held (List.mem_of_mem_erase hmem)⟩

theorem finish (hc : c.Stamped) (who : Holder) (p : PrincipalKey) (stamp : Nat) (slot : String)
    (outcome : Except E V) : (c.finish who p stamp slot outcome).Stamped := by
  cases outcome with
  | error e => exact hc.release who stamp
  | ok value => exact ((c.store_ages p stamp slot value).stamped hc).release who stamp

end Stamped

end Cache

namespace Store

theorem begin_ages {lift : LockError → E} {c c' : Cache V} {p : PrincipalKey} {slot : String}
    {beginning : Except E V ⊕ Nat} (h : (ofCache lift).begin c p slot = (beginning, c')) : c.Ages c' := by
  cases beginning with
  | inl outcome =>
      rw [(ensure_of_begin_inl h).1]
      exact c.ensure_ages p
  | inr stamp =>
      rw [(ensure_of_begin_inr h).2]
      exact c.begun_ages p

/-- From each cache of a run the next has aged. -/
theorem keeps_ages (lift : LockError → E) (c : Cache V) :
    (ofCache lift : Store (Cache V) Nat V E).Keeps fun _ _ c' => c.Ages c' where
  call _ op h := h.trans (Cache.applied_apply _ op).ages
  computed hbegin h := h.trans (begin_ages hbegin)
  begun hbegin h := h.trans (begin_ages hbegin)
  ended _ _ h := h.trans (Cache.finish_ages ..)

theorem keeps_follows (lift : LockError → E) (p : PrincipalKey) (stamp : Nat) (slots : List String) :
    (ofCache lift : Store (Cache V) Nat V E).Keeps fun pending events c =>
      c.Follows p stamp (slotsLeft p slots events) pending where
  call {_ _ c} running op h := by
    have happlied := c.applied_apply op
    rw [slotsLeft_append_singleton]
    exact ⟨Nat.lt_of_lt_of_le h.fresh happlied.ages.nextStamp_le, happlied.hasLeft h.fresh h.hasLeft running,
      fun hleft => h.waiting (fun hnone => hleft (by rw [hnone]; rfl))⟩
  computed {_ _ c _ q _ _} hbegin h := by
    rw [slotsLeft_append_idle fun _ => rfl, (ensure_of_begin_inl hbegin).1]
    exact ⟨Nat.lt_of_lt_of_le h.fresh (c.ensure_ages q).nextStamp_le, h.hasLeft.ensure h.fresh q, h.waiting⟩
  begun {_ _ c _ q _ _} hbegin h := by
    obtain ⟨rfl, rfl⟩ := ensure_of_begin_inr hbegin
    rw [slotsLeft_append_idle fun _ => rfl]
    refine ⟨Nat.lt_of_lt_of_le h.fresh (c.ensure_ages q).nextStamp_le, (h.hasLeft.ensure h.fresh q).congr ?_,
      fun hleft m hmem => ?_⟩
    · exact Cache.entry_begun ..
    rcases List.mem_cons.mp hmem with hfirst | hrest
    · -- the computation begins with the entry that is there
      obtain ⟨rfl, rfl⟩ := Prod.mk.inj hfirst
      obtain ⟨left, hleft⟩ := Option.ne_none_iff_exists'.mp hleft
      have hasLeft := h.hasLeft
      rw [hleft] at hasLeft
      obtain ⟨e, hentry, hstamp, -⟩ := hasLeft
      rw [Cache.ensure_of_found hentry, hstamp]
    · exact h.waiting hleft m hrest
  ended {_ _ c q m} slot outcome h := by
    have hages := c.finish_ages q m slot outcome
    rw [slotsLeft_append_singleton]
    refine ⟨Nat.lt_of_lt_of_le h.fresh hages.nextStamp_le, h.hasLeft.finish h.fresh (fun hq hleft => ?_) slot outcome,
      fun hleft m' hmem => h.waiting (fun hnone => hleft (by rw [hnone]; rfl)) m' (List.mem_cons_of_mem _ hmem)⟩
    exact h.waiting hleft m (hq ▸ List.mem_cons_self)

theorem run_ages (lift : LockError → E) (running : List PrincipalKey) (program : Program V E) (c : Cache V) :
    c.Ages ((ofCache lift).run running program c).after :=
  (keeps_ages lift c).run_within running program (.refl c)

theorem run_follows (lift : LockError → E) (running : List PrincipalKey) (program : Program V E) {c : Cache V}
    {p : PrincipalKey} {stamp : Nat} {slots : List String} (h : c.Follows p stamp (some slots) []) :
    let r := (ofCache lift).run running program c
    r.after.Follows p stamp (slotsLeft p slots r.events) [] :=
  (keeps_follows lift p stamp slots).run_within running program h

end Store

namespace Cache

variable {c c' : Cache V} {p q : PrincipalKey} {slot : String}

/-! ### Whether a value is given again -/

/-- A slot gives a value, however it is asked for. -/
structure Gives (c : Cache V) (p : PrincipalKey) (slot : String) (value : V) : Prop where
  contains : c.contains p slot = .ok true
  get : c.get p slot = .ok (some value)
  /-- A computation gives the value, without its factory. -/
  again : ∀ {E : Type} (lift : LockError → E) (factory : Cache V → Except E V × Cache V),
    c.getOrCompute lift p slot factory = (.ok value, c)

/-- What nobody else has locked is read as it is. -/
theorem get_of_free (h : ∀ e, c.entry? p = some e → c.lockError? .here p e = none) (slot : String) :
    c.get p slot = .ok (c.peek? p slot) := by
  unfold get
  cases hentry : c.entry? p with
  | none => rw [peek?_of_missing hentry]
  | some e => simp only [h e hentry, peek?_of_found hentry]

theorem gives_iff (h : ∀ e, c.entry? p = some e → c.lockError? .here p e = none) {value : V} :
    c.Gives p slot value ↔ c.peek? p slot = some value := by
  constructor
  · intro hgives
    simpa [get_of_free h] using hgives.get
  · intro hvalue
    refine ⟨by rw [contains, get_of_free h, hvalue]; rfl, by rw [get_of_free h, hvalue], fun lift factory => ?_⟩
    obtain ⟨e, hentry, hget⟩ := Option.bind_eq_some_iff.mp hvalue
    have hbegin : c.begin .here p slot = (.ok (.hit value), c) := by
      unfold begin
      simp only [ensure_of_found hentry, h e hentry, hget]
    rw [getOrCompute, hbegin]

/-- A computation that comes to a value has taken the lock, and found the value or run its factory. -/
theorem getOrCompute_cases {lift : LockError → E} {factory : Cache V → Except E V × Cache V} {value : V}
    (h : c.getOrCompute lift p slot factory = (.ok value, c')) :
    (c.ensure p).2.lockError? .here p (c.ensure p).1 = none ∧
      (c.peek? p slot = some value ∧ c' = c ∨
        c.peek? p slot = none ∧ (factory (c.begun p)).1 = .ok value ∧
          c' = (factory (c.begun p)).2.finish .here p (c.ensure p).1.stamp slot (.ok value : Except E V)) := by
  unfold getOrCompute at h
  rw [← get?_ensure]
  obtain ⟨err, hbegin⟩ | ⟨hfree, ⟨found, hget, hbegin⟩ | ⟨hget, hbegin⟩⟩ := c.begin_cases p slot <;> rw [hbegin] at h
  · cases h
  · cases h
    have hpeek := hget
    rw [get?_ensure] at hpeek
    obtain ⟨e, hentry, -⟩ := Option.bind_eq_some_iff.mp hpeek
    exact ⟨hfree, Or.inl ⟨hget, by rw [ensure_of_found hentry]⟩⟩
  · obtain ⟨houtcome, rfl⟩ := Prod.mk.inj h
    exact ⟨hfree, Or.inr ⟨hget, houtcome, by rw [houtcome]⟩⟩

/-- The names of the slots of a principal. -/
def slotNames (c : Cache V) (p : PrincipalKey) : List String :=
  (c.ensure p).1.slots.map Prod.fst

theorem mem_slots_iff {e : Entry V} : slot ∈ e.slots.map Prod.fst ↔ (e.get? slot).isSome = true := by
  rw [Entry.get?, Option.isSome_iff_ne_none, ne_eq, List.lookup_eq_none_iff]
  simp only [List.mem_map, bne_iff_ne, not_forall, not_not, exists_prop]
  exact exists_congr fun row => and_congr_right fun _ => eq_comm

theorem begun_follows (hc : c.Stamped) (p : PrincipalKey) :
    (c.begun p).Follows p (c.ensure p).1.stamp (some (c.slotNames p)) [] where
  fresh := ((c.ensure_ages p).stamped hc).entries p _ (c.entry_ensure_self p)
  hasLeft := ⟨(c.ensure p).1, (c.entry_begun p p).trans (c.entry_ensure_self p), rfl, fun _ => mem_slots_iff⟩
  waiting _ _ hmem := absurd hmem List.not_mem_nil

theorem lockError?_eq_none_iff {e : Entry V} :
    c.lockError? .here p e = none ↔ c.timeout.fault? = none ∧ e.stamp ∉ c.heldElsewhere := by
  cases hfault : c.timeout.fault? with
  | some f => simp [lockError?, hfault]
  | none => simp [lockError?, hfault, isBlocked]

/-- Whoever has taken the lock of a principal is not refused it later, also where the entry is another. -/
theorem Ages.lockError?_eq_none (hages : c.Ages c') (hc : c.Stamped) {e : Entry V} (hentry : c.entry? p = some e)
    (hfree : c.lockError? .here p e = none) {e' : Entry V} (hentry' : c'.entry? p = some e') :
    c'.lockError? .here p e' = none := by
  rw [lockError?_eq_none_iff] at hfree ⊢
  rw [hages.timeout, hages.heldElsewhere]
  refine ⟨hfree.1, fun hheld => ?_⟩
  rcases hages.stamps p e' hentry' with ⟨old, hold, hstamp⟩ | ⟨hmade, _⟩
  · cases hentry.symm.trans hold
    exact hfree.2 (hstamp ▸ hheld)
  · have hgiven := hc.heldElsewhere _ hheld
    omega

theorem HasLeft.values_finish (h : c.HasLeft p stamp left) (slot : String) (value : V) :
    (c.finish .here p stamp slot (.ok value : Except E V)).values =
      if left = none then c.values else c.values.put p slot (some value) := by
  have hstore : (c.finish .here p stamp slot (.ok value : Except E V)).values = (c.store p stamp slot value).values :=
    rfl
  rw [hstore]
  cases left with
  | none => rw [if_pos rfl, store_of_other h]
  | some slots =>
      obtain ⟨e, hentry, rfl, -⟩ := h
      rw [if_neg (Option.some_ne_none slots), store_of_stamp hentry, values_update_put hentry]

/-- A computation that ends with a value, if its principal can be read then: the value is given from then on if the
entry with which the computation began is still there, and otherwise nothing is stored. -/
theorem HasLeft.gives_finish (h : c.HasLeft p stamp left) (slot : String) (value : V)
    (hreadable : ∀ e, Cache.entry? (c.finish .here p stamp slot (.ok value : Except E V)) p = some e →
      (c.finish .here p stamp slot (.ok value : Except E V)).lockError? .here p e = none) :
    let ended := c.finish .here p stamp slot (.ok value : Except E V)
    (left ≠ none → ended.values = c.values.put p slot (some value) ∧ ended.Gives p slot value) ∧
      (left = none → ended.values = c.values ∧ ended.get p slot = .ok (c.values p slot) ∧
        (ended.Gives p slot value ↔ c.values p slot = some value)) := by
  intro ended
  have hvalues : ended.values = if left = none then c.values else c.values.put p slot (some value) :=
    h.values_finish slot value
  refine ⟨fun hleft => ?_, fun hleft => ?_⟩
  · rw [if_neg hleft] at hvalues
    have hslot : ended.values p slot = some value := by rw [hvalues, SlotMap.put_self]
    exact ⟨hvalues, (gives_iff hreadable).mpr hslot⟩
  · rw [if_pos hleft] at hvalues
    rw [← hvalues]
    exact ⟨rfl, get_of_free hreadable slot, gives_iff hreadable⟩

/-- A computation that comes to a value. A value that was there is given as it is, and nothing changes. Otherwise the
value is that of the factory, and its slot gives it from then on, unless the factory, by forgetting, has left the
principal without slots at some time; then nothing is stored, and the slot is as the factory has left it. -/
theorem computed_is_kept_iff (lift : LockError → E) (hc : c.Stamped) (running : List PrincipalKey) (p : PrincipalKey)
    (slot : String) (factory : Program V E) {value : V}
    (h : c.getOrCompute lift p slot ((Store.ofCache lift).asFactory (p :: running) factory) = (.ok value, c')) :
    let r := (Store.ofCache lift).run (p :: running) factory (c.begun p)
    let left := slotsLeft p (c.slotNames p) r.events
    (∀ found, c.values p slot = some found → found = value ∧ c' = c ∧ c'.Gives p slot value) ∧
      (c.values p slot = none → r.outcome = .ok value ∧
        (left ≠ none → c'.values = r.after.values.put p slot (some value) ∧ c'.Gives p slot value) ∧
        (left = none → c'.values = r.after.values ∧ c'.get p slot = .ok (r.after.values p slot) ∧
          (c'.Gives p slot value ↔ r.after.values p slot = some value))) := by
  intro r left
  obtain ⟨hfree, hfound | hcomputed⟩ := getOrCompute_cases h
  · obtain ⟨hvalue, rfl⟩ := hfound
    obtain ⟨e, hentry, -⟩ := Option.bind_eq_some_iff.mp hvalue
    rw [ensure_of_found hentry] at hfree
    have hgives : c'.Gives p slot value := by
      refine (gives_iff fun e' hentry' => ?_).mpr hvalue
      cases hentry.symm.trans hentry'
      exact hfree
    exact ⟨fun found hfound => ⟨Option.some.inj (hfound.symm.trans hvalue), rfl, hgives⟩,
      fun hnone => by cases hnone.symm.trans hvalue⟩
  · obtain ⟨hnone, houtcome, rfl⟩ := hcomputed
    have hbegun : (c.begun p).Stamped := (c.begun_ages p).stamped hc
    have hentry : Cache.entry? (c.begun p) p = some (c.ensure p).1 :=
      (c.entry_begun p p).trans (c.entry_ensure_self p)
    have hages : (c.begun p).Ages r.after := Store.run_ages lift (p :: running) factory (c.begun p)
    have hfollows : r.after.Follows p (c.ensure p).1.stamp left [] :=
      Store.run_follows lift (p :: running) factory (c.begun_follows hc p)
    have hended : (c.begun p).Ages (r.after.finish .here p (c.ensure p).1.stamp slot (.ok value : Except E V)) :=
      hages.trans (r.after.finish_ages ..)
    have hkept := hfollows.hasLeft.gives_finish slot value fun e' hentry' =>
      hended.lockError?_eq_none hbegun hentry hfree hentry'
    exact ⟨fun found hfound => (by cases hnone.symm.trans hfound), fun _ => ⟨houtcome, hkept⟩⟩

/-- A factory forgets another slot of its principal, though there is none. -/
def forgetfulFactory : Program Nat LockError :=
  .call (.forget (.number 1) "b") fun _ => .stop (.ok 7)

/-- A slot that was there before keeps the entry, and with it the computed value. -/
theorem computed_is_kept_beside_another_slot :
    let c := ((empty (.whole (-1)) : Cache Nat).set (.number 1) "kept" 5).2
    let r := c.getOrCompute id (.number 1) "a" ((Store.ofCache id).asFactory [.number 1] forgetfulFactory)
    c.Stamped ∧ r = (.ok 7, r.2) ∧ r.2.Gives (.number 1) "a" 7 := by
  intro c r
  have hset := (empty (.whole (-1)) : Cache Nat).applied_apply (.set (.number 1) "kept" 5)
  have hc : c.Stamped := hset.ages.stamped (stamped_empty _)
  have hvalue : r = (.ok 7, r.2) := rfl
  obtain ⟨-, hcomputed⟩ := computed_is_kept_iff id hc [] (.number 1) "a" forgetfulFactory hvalue
  obtain ⟨-, hkept, -⟩ := hcomputed (by decide)
  exact ⟨hc, hvalue, (hkept (by decide)).2⟩

/-- Without another slot the same factory drops the entry, and the value goes nowhere. -/
theorem computed_value_is_lost :
    let r := (empty (.whole (-1)) : Cache Nat).getOrCompute id (.number 1) "a"
      ((Store.ofCache id).asFactory [.number 1] forgetfulFactory)
    r.1 = .ok 7 ∧ r.2.contains (.number 1) "a" = .ok false ∧ r.2.get (.number 1) "a" = .ok none ∧
      (r.2.getOrCompute id (.number 1) "a" ((Store.ofCache id).asFactory [.number 1] (.stop (.ok 8)))).1 = .ok 8 :=
  ⟨rfl, rfl, rfl, rfl⟩

end Cache

end StartNodes
