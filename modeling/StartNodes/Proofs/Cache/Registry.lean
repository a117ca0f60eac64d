import StartNodes.Proofs.Cache.Programs
import StartNodes.Proofs.List.Distinct

/-!
Which principals a cache knows. A principal that a write or a computation has made known stays known until something of
it is forgotten, also where the write is refused or the factory fails. So the cache knows exactly the principals with a
stored slot, and those whose last claim has left nothing.
-/

namespace StartNodes

variable {V E : Type}

/-- Whether a principal is claimed after an event: a write or a computation claims it, forgetting frees it. -/
def Event.claimsAfter (p : PrincipalKey) (before : Bool) : Event V E → Bool
  | called _ (.set q _ _) _ => before || q == p
  | called _ (.forget q _) (.ok _) => before && q != p
  | called _ (.forgetPrincipal q) (.ok _) => before && q != p
  | called _ _ _ => before
  | computed q _ _ => before || q == p
  | begun q _ => before || q == p
  | ended _ _ _ => before

/-- Whether a principal is claimed after some events. -/
def claimed (p : PrincipalKey) (events : List (Event V E)) : Bool :=
  events.foldl (fun before e => e.claimsAfter p before) false

theorem claimed_append_singleton (p : PrincipalKey) (events : List (Event V E)) (e : Event V E) :
    claimed p (events ++ [e]) = e.claimsAfter p (claimed p events) := by
  rw [claimed, List.foldl_append]
  rfl

namespace Cache

variable {c c' : Cache V} {p q : PrincipalKey} {slot : String}

/-- The principals that a cache knows. -/
def principals (c : Cache V) : List PrincipalKey := c.entries.map Prod.fst

theorem length_principals (c : Cache V) : c.principals.length = c.size :=
  List.length_map _

theorem mem_principals_iff : p ∈ c.principals ↔ ∃ e, c.entry? p = some e := by
  constructor
  · intro hp
    by_contra hnone
    have hlookup : c.entries.lookup p = none := Option.eq_none_iff_forall_ne_some.mpr fun e he => hnone ⟨e, he⟩
    obtain ⟨row, hrow, rfl⟩ := List.mem_map.mp hp
    exact absurd (List.lookup_eq_none_iff.mp hlookup row hrow) (by simp)
  · rintro ⟨e, he⟩
    obtain ⟨before, after, hentries, _⟩ := List.lookup_eq_some_iff.mp he
    rw [principals, hentries]
    simp

theorem principals_update (c : Cache V) (p : PrincipalKey) (e : Entry V) : (c.update p e).principals = c.principals := by
  unfold principals update
  rw [List.map_map]
  refine List.map_congr_left fun row _ => ?_
  by_cases h : row.1 = p <;> simp [h]

theorem nodup_principals_ensure (h : c.principals.Nodup) (p : PrincipalKey) : (c.ensure p).2.principals.Nodup := by
  cases hentry : c.entry? p with
  | some e => rwa [ensure_of_found hentry]
  | none =>
      have hnew : p ∉ c.principals := by
        rw [mem_principals_iff, hentry]
        rintro ⟨_, ⟨⟩⟩
      have hensure : (c.ensure p).2.principals = c.principals ++ [p] := by
        unfold ensure principals
        rw [hentry, List.map_append]
        rfl
      rw [hensure, List.nodup_append]
      exact ⟨h, by simp, by simpa using fun q hq => ne_of_mem_of_not_mem hq hnew⟩

theorem nodup_principals_discard (h : c.principals.Nodup) (p : PrincipalKey) : (c.discard p).principals.Nodup :=
  h.sublist (List.filter_sublist.map Prod.fst)

theorem nodup_principals_settle (h : c.principals.Nodup) (p : PrincipalKey) (e : Entry V) :
    (c.settle p e).principals.Nodup := by
  unfold settle
  split
  · exact nodup_principals_discard h p
  · rwa [principals_update]

theorem nodup_principals_finish (h : c.principals.Nodup) (p : PrincipalKey) (stamp : Nat) (slot : String)
    (outcome : Except E V) : (c.finish .here p stamp slot outcome).principals.Nodup := by
  cases outcome with
  | error e => exact h
  | ok value =>
      show (c.store p stamp slot value).principals.Nodup
      unfold store
      split
      · split
        · rwa [principals_update]
        · exact h
      · exact h

theorem Applied.nodup_principals {op : Operation V} {answer : Except LockError (Answer V)}
    (happlied : c.Applied op answer c') (h : c.principals.Nodup) : c'.principals.Nodup := by
  cases happlied with
  | get => exact h
  | contains => exact h
  | setRefused => exact nodup_principals_ensure h _
  | set =>
      rw [principals_update]
      exact nodup_principals_ensure h _
  | forgetRefused => exact h
  | forgetMissing _ => exact h
  | forget _ => exact nodup_principals_settle h ..
  | forgetPrincipalRefused => exact h
  | forgetPrincipalMissing _ => exact h
  | forgetPrincipal _ => exact nodup_principals_discard h _

/-! ### Accounts -/

/-- What a cache has of a principal that is claimed, and of one that is not. -/
structure Accounts (p : PrincipalKey) (known : Bool) (c : Cache V) : Prop where
  entry : known = true → ∃ e, c.entry? p = some e
  slots : known = false → ∀ e, c.entry? p = some e → e.slots ≠ []

namespace Accounts

variable {known : Bool} {e : Entry V}

theorem of_found (h : c.entry? p = some e) : Accounts p true c := ⟨fun _ => ⟨e, h⟩, nofun⟩

theorem of_slots (h : ∀ e, c.entry? p = some e → e.slots ≠ []) : Accounts p false c := ⟨nofun, fun _ => h⟩

theorem congr (h : Accounts p known c) (hentry : c'.entry? p = c.entry? p) : Accounts p known c' :=
  ⟨hentry ▸ h.entry, hentry ▸ h.slots⟩

/-- A principal that is made known is claimed, and the others are as they were. -/
theorem ensure (h : Accounts p known c) (q : PrincipalKey) : Accounts p (known || q == p) (c.ensure q).2 := by
  by_cases hq : q = p
  · rw [hq, beq_self_eq_true, Bool.or_true]
    exact of_found (c.entry_ensure_self p)
  · rw [beq_eq_false_iff_ne.mpr hq, Bool.or_false]
    exact h.congr (entry_ensure_of_ne (Ne.symm hq))

/-- A principal of which something is forgotten is freed, and the others are as they were. -/
theorem free (h : Accounts p known c) (hself : q = p → ∀ e, c'.entry? p = some e → e.slots ≠ [])
    (hother : p ≠ q → c'.entry? p = c.entry? p) : Accounts p (known && q != p) c' := by
  by_cases hq : q = p
  · rw [bne_eq_false_iff_eq.mpr hq, Bool.and_false]
    exact of_slots (hself hq)
  · rw [bne_iff_ne.mpr hq, Bool.and_true]
    exact h.congr (hother (Ne.symm hq))

end Accounts

theorem Applied.accounts {op : Operation V} {answer : Except LockError (Answer V)} {known : Bool}
    (happlied : c.Applied op answer c') (h : Accounts p known c) (running : List PrincipalKey) :
    Accounts p ((Event.called running op answer : Event V E).claimsAfter p known) c' := by
  cases happlied with
  | get => exact h
  | contains => exact h
  | setRefused => exact h.ensure _
  | @set q slot value =>
      have hensure := h.ensure q
      by_cases hq : p = q
      · rw [hq] at hensure ⊢
        show Accounts q (known || q == q) _
        rw [beq_self_eq_true, Bool.or_true]
        exact .of_found (entry_update_self (c.entry_ensure_self q) _)
      · exact hensure.congr (entry_update_of_ne hq _)
  | forgetRefused => exact h
  | forgetMissing hnone =>
      refine h.free (fun hq e he => ?_) fun _ => rfl
      rw [← hq, hnone] at he
      cases he
  | forget hentry =>
      refine h.free (fun hq e he => ?_) fun hne => entry_settle_of_ne hne _
      subst hq
      exact slots_ne_nil_of_settle hentry he
  | forgetPrincipalRefused => exact h
  | forgetPrincipalMissing hnone =>
      refine h.free (fun hq e he => ?_) fun _ => rfl
      rw [← hq, hnone] at he
      cases he
  | forgetPrincipal hentry =>
      refine h.free (fun hq e he => ?_) fun hne => entry_discard_of_ne hne
      subst hq
      rw [entry_discard_self] at he
      cases he

theorem Accounts.finish {known : Bool} (h : Accounts p known c) (q : PrincipalKey) (stamp : Nat) (slot : String)
    (outcome : Except E V) : Accounts p known (c.finish .here q stamp slot outcome) := by
  cases outcome with
  | error e => exact h.congr rfl
  | ok value =>
      obtain ⟨e, hentry, _, hstore⟩ | ⟨_, hstore⟩ := c.store_cases q stamp slot value
      · by_cases hq : p = q
        · subst hq
          have hstored : Cache.entry? (c.finish .here p stamp slot (.ok value : Except E V)) p =
              some (e.put slot value) := by
            rw [entry_finish_ok, hstore, entry_update_self hentry]
          cases known with
          | true => exact .of_found hstored
          | false =>
              refine .of_slots fun e' he' => ?_
              rw [hstored] at he'
              cases he'
              exact e.slots_put_ne_nil slot value
        · exact h.congr (entry_finish_of_ne hq ..)
      · refine h.congr ?_
        rw [entry_finish_ok, hstore]

/-! ### Entries without slots -/

/-- An operation that is not refused makes no entry without slots. -/
theorem Applied.entry_of_empty {op : Operation V} {answer : Except LockError (Answer V)}
    (happlied : c.Applied op answer c') (hanswer : op.principal = p → ∀ err, answer ≠ .error err) {e : Entry V}
    (he : c'.entry? p = some e) (hempty : e.slots = []) : c.entry? p = some e := by
  by_cases hop : op.principal = p
  swap
  · rwa [← happlied.entry_of_ne (Ne.symm hop)]
  subst hop
  cases happlied with
  | get => exact he
  | contains => exact he
  | setRefused => exact absurd rfl (hanswer rfl _)
  | set =>
      have hput := (entry_update_self (c.entry_ensure_self _) _).symm.trans he
      cases hput
      exact absurd hempty (Entry.slots_put_ne_nil _ _ _)
  | forgetRefused => exact he
  | forgetMissing _ => exact he
  | forget hentry => exact absurd hempty (slots_ne_nil_of_settle hentry he)
  | forgetPrincipalRefused => exact he
  | forgetPrincipalMissing _ => exact he
  | forgetPrincipal _ => cases (c.entry_discard_self _).symm.trans he

/-- A computation that ends with a value leaves its own entry with a slot. -/
theorem entry_of_empty_finish {stamp : Nat} {outcome : Except E V} (hok : q = p → ∃ value, outcome = .ok value)
    {e : Entry V} (he : Cache.entry? (c.finish .here q stamp slot outcome) p = some e) (hempty : e.slots = []) :
    c.entry? p = some e ∧ (q = p → e.stamp ≠ stamp) := by
  by_cases hq : q = p
  swap
  · exact ⟨(entry_finish_of_ne (Ne.symm hq) ..).symm.trans he, fun h => absurd h hq⟩
  subst hq
  obtain ⟨value, rfl⟩ := hok rfl
  rw [entry_finish_ok] at he
  obtain ⟨old, hold, _, hstore⟩ | ⟨hother, hstore⟩ := c.store_cases q stamp slot value
  · rw [hstore, entry_update_self hold] at he
    cases he
    exact absurd hempty (Entry.slots_put_ne_nil _ _ _)
  · rw [hstore] at he
    exact ⟨he, fun _ => hother e he⟩

end Cache

namespace Store

theorem keeps_nodup (lift : LockError → E) :
    (ofCache lift : Store (Cache V) Nat V E).Keeps fun _ _ c => c.principals.Nodup where
  call running op h := (Cache.applied_apply _ op).nodup_principals h
  computed hbegin h := by
    rw [(ensure_of_begin_inl hbegin).1]
    exact Cache.nodup_principals_ensure h _
  begun hbegin h := by
    rw [(ensure_of_begin_inr hbegin).2]
    exact Cache.nodup_principals_ensure h _
  ended slot outcome h := Cache.nodup_principals_finish h ..

theorem keeps_accounts (lift : LockError → E) (p : PrincipalKey) :
    (ofCache lift : Store (Cache V) Nat V E).Keeps fun _ events c => c.Accounts p (claimed p events) where
  call {_ _ c} running op h := by
    rw [claimed_append_singleton]
    exact (c.applied_apply op).accounts h running
  computed hbegin h := by
    rw [claimed_append_singleton, (ensure_of_begin_inl hbegin).1]
    exact h.ensure _
  begun hbegin h := by
    rw [claimed_append_singleton, (ensure_of_begin_inr hbegin).2]
    exact (h.ensure _).congr (Cache.entry_begun ..)
  ended slot outcome h := by
    rw [claimed_append_singleton]
    exact h.finish ..

/-- Where nothing about a principal has failed, an entry of it without slots waits for a computation. -/
theorem keeps_awaited (lift : LockError → E) (p : PrincipalKey) :
    (ofCache lift : Store (Cache V) Nat V E).KeepsWhile (fun event => event.principal = p → event.failed = false)
      fun pending c => ∀ e, c.entry? p = some e → e.slots = [] → (p, e.stamp) ∈ pending where
  call running op hgood h e he hempty := by
    refine h e ((Cache.applied_apply _ op).entry_of_empty (fun hop err herr => ?_) he hempty) hempty
    have hfailed := hgood hop
    rw [show (ofCache lift).apply _ op = Cache.apply _ op from rfl, herr] at hfailed
    cases hfailed
  computed {_ c _ q slot outcome} hbegin hgood h e he hempty := by
    obtain ⟨rfl, hvalue⟩ := ensure_of_begin_inl hbegin
    by_cases hq : q = p
    · subst hq
      cases outcome with
      | error err => cases hgood rfl
      | ok value =>
          rw [Cache.entry_ensure_self] at he
          cases he
          exact absurd hempty (Entry.slots_ne_nil_iff.mpr ⟨slot, value, hvalue value rfl⟩)
    · rw [Cache.entry_ensure_of_ne (Ne.symm hq)] at he
      exact h e he hempty
  begun {_ c _ q _ _} hbegin _ h e he hempty := by
    obtain ⟨rfl, rfl⟩ := ensure_of_begin_inr hbegin
    rw [Cache.entry_begun] at he
    by_cases hq : q = p
    · subst hq
      cases (c.entry_ensure_self q).symm.trans he
      exact List.mem_cons_self
    · rw [Cache.entry_ensure_of_ne (Ne.symm hq)] at he
      exact List.mem_cons_of_mem _ (h e he hempty)
  ended {_ c q stamp} slot outcome hgood h e he hempty := by
    have hok : q = p → ∃ value, outcome = .ok value := by
      intro hq
      cases outcome with
      | ok value => exact ⟨value, rfl⟩
      | error err => cases hgood hq
    -- an entry that is empty now was so before, and waits for a computation other than the one that has ended
    obtain ⟨hentry, hstamp⟩ := Cache.entry_of_empty_finish hok he hempty
    have hmem := h e hentry hempty
    rw [List.mem_cons] at hmem
    refine hmem.resolve_left fun heq => ?_
    obtain ⟨hp, hs⟩ := Prod.mk.inj heq
    exact hstamp hp.symm hs

end Store

/-! ### After a whole program -/

namespace Cache

variable {c : Cache V} {p : PrincipalKey}

theorem exists_peek?_iff {e : Entry V} (h : c.entry? p = some e) :
    (∃ slot value, c.peek? p slot = some value) ↔ e.slots ≠ [] := by
  simp only [peek?_of_found h, Entry.slots_ne_nil_iff]

theorem mem_principals_of_peek? {slot : String} {value : V} (h : c.peek? p slot = some value) : p ∈ c.principals := by
  obtain ⟨e, hentry, _⟩ := Option.bind_eq_some_iff.mp h
  exact mem_principals_iff.mpr ⟨e, hentry⟩

/-- An entry is without slots where a claim has left nothing, and nowhere else. -/
theorem exists_empty_iff {known : Bool} (h : c.Accounts p known) :
    (∃ e, c.entry? p = some e ∧ e.slots = []) ↔ known = true ∧ ¬∃ slot value, c.peek? p slot = some value := by
  constructor
  · rintro ⟨e, hentry, hempty⟩
    refine ⟨?_, fun hpeek => (exists_peek?_iff hentry).mp hpeek hempty⟩
    cases known with
    | true => rfl
    | false => exact absurd hempty (h.slots rfl e hentry)
  · rintro ⟨rfl, hpeek⟩
    obtain ⟨e, hentry⟩ := h.entry rfl
    exact ⟨e, hentry, not_not.mp fun hslots => hpeek ((exists_peek?_iff hentry).mpr hslots)⟩

/-- A cache knows as many principals as have a stored slot exactly where no claim has left nothing. -/
theorem size_eq_iff {known : PrincipalKey → Bool} (hnodup : c.principals.Nodup) (h : ∀ p, c.Accounts p (known p))
    {ps : List PrincipalKey} (hps : ps.Nodup) (hmem : ∀ p, p ∈ ps ↔ ∃ slot value, c.peek? p slot = some value) :
    c.size = ps.length ↔ ∀ p, known p = true → ∃ slot value, c.peek? p slot = some value := by
  have hsub : ∀ p ∈ ps, p ∈ c.principals := by
    intro p hp
    obtain ⟨slot, value, hpeek⟩ := (hmem p).mp hp
    exact mem_principals_of_peek? hpeek
  rw [← length_principals]
  constructor
  · intro hlength p hp
    -- as many as there are, all of them among those that are known
    have hperm : ps.Perm c.principals := (hps.subperm hsub).perm_of_length_le (Nat.le_of_eq hlength)
    rw [← hmem, hperm.mem_iff, mem_principals_iff]
    exact (h p).entry hp
  · intro hall
    refine Nat.le_antisymm (length_le_of_nodup_subset hnodup fun p hp => ?_) (length_le_of_nodup_subset hps hsub)
    obtain ⟨e, hentry⟩ := mem_principals_iff.mp hp
    rw [hmem]
    by_contra hnone
    have hempty : e.slots = [] := not_not.mp fun hslots => hnone ((exists_peek?_iff hentry).mpr hslots)
    exact hnone (hall p ((exists_empty_iff (h p)).mp ⟨e, hentry, hempty⟩).1)

theorem entry_empty (timeout : LockTimeout) (p : PrincipalKey) : Cache.entry? (empty timeout : Cache V) p = none := rfl

/-- What a cache that was empty knows after a program. -/
theorem registered_after_run (lift : LockError → E) (timeout : LockTimeout) (program : Program V E) :
    let r := (Store.ofCache lift).run [] program (Cache.empty timeout)
    (∀ p, (∃ e, r.after.entry? p = some e ∧ e.slots = []) ↔
        claimed p r.events = true ∧ ¬∃ slot value, r.after.peek? p slot = some value) ∧
      (∀ ps : List PrincipalKey, ps.Nodup → (∀ p, p ∈ ps ↔ ∃ slot value, r.after.peek? p slot = some value) →
        (r.after.size = ps.length ↔
          ∀ p, claimed p r.events = true → ∃ slot value, r.after.peek? p slot = some value)) ∧
      ∀ p, (∀ event ∈ r.events, event.principal = p → event.failed = false) →
        ∀ e, r.after.entry? p = some e → ∃ slot value, r.after.peek? p slot = some value := by
  intro r
  have hnodup : r.after.principals.Nodup :=
    (Store.keeps_nodup lift).run_whole program List.nodup_nil
  have hnone : ∀ p e, Cache.entry? (empty timeout : Cache V) p ≠ some e := by
    intro p e
    rw [entry_empty]
    nofun
  have haccounts : ∀ p, r.after.Accounts p (claimed p r.events) := fun p =>
    (Store.keeps_accounts lift p).run_whole program
      (.of_slots fun e he => absurd he (hnone p e))
  refine ⟨fun p => exists_empty_iff (haccounts p), fun ps hps hmem => size_eq_iff hnodup haccounts hps hmem, ?_⟩
  intro p hgood e hentry
  rw [exists_peek?_iff hentry]
  intro hempty
  have hawaited := (Store.keeps_awaited lift p).run_whole program
    (fun e he => absurd he (hnone p e)) hgood e hentry hempty
  cases hawaited

/-- A computation whose factory fails leaves its principal known, without a slot. -/
theorem registered_after_failure :
    let r := (Store.ofCache LockError.message).run [] (.compute (.number 1) "a" (.stop (.error "down")) .stop)
      (Cache.empty (.whole (-1)) : Cache Nat)
    r.outcome = .error "down" ∧ r.after.size = 1 ∧ ∀ p slot, r.after.peek? p slot = none := by
  intro r
  have hempty : r.after.entries = [(.number 1, { stamp := 0 })] := rfl
  refine ⟨rfl, rfl, fun p slot => ?_⟩
  unfold peek? entry?
  rw [hempty, List.lookup_cons]
  split <;> rfl

end Cache

end StartNodes
