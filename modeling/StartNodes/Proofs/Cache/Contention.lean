import StartNodes.Proofs.Cache.Forgetting
import StartNodes.Proofs.Cache.Reached

/-!
A lock that is held beside the caller, where waiting for it ends with the time. Nothing that the caller asks about its
principal is answered, not even in the midst of other computations, and nothing changes by it. What does not concern the
principal goes on as if the lock had been let go.
-/

namespace StartNodes

variable {V E : Type}

/-- An event that is a refusal for want of time. -/
inductive Event.TimedOut (lift : LockError → E) (p : PrincipalKey) : Event V E → Prop
  | called {running : List PrincipalKey} {op : Operation V} : TimedOut lift p (.called running op (.error (.timedOut p)))
  | computed {slot : String} : TimedOut lift p (.computed p slot (.error (lift (.timedOut p))))

namespace Cache

variable {c c' : Cache V} {p q : PrincipalKey} {e : Entry V} {slot : String} {stamp : Nat}

/-- The lock of a principal is held beside the caller, and the caller does not wait for it without end. -/
structure Contended (c : Cache V) (p : PrincipalKey) : Prop where
  reached : c.Reached
  limited : c.timeout.isBelowZero = false
  held : c.isHeldElsewhere p = true

theorem Contended.exists_entry (h : c.Contended p) :
    ∃ e, c.entry? p = some e ∧ c.lockError? .here p e = some (.timedOut p) := by
  obtain ⟨e, hentry, hblocked⟩ := exists_of_isHeldElsewhere h.held
  -- somebody has taken the lock, so it can be waited for
  have ht : c.timeout.fault? = none := by
    refine h.reached.orderly.waitable fun hnone => ?_
    rw [isBlocked, hnone] at hblocked
    cases hblocked
  exact ⟨e, hentry, lockError?_of_held ht (LockTimeout.isUnlimited_eq_false h.limited) hentry h.held⟩

/-- The lock is held as long as the entry stays. -/
theorem Contended.aged (h : c.Contended p) (hreached : c'.Reached) (hages : c.Ages c')
    (hentry : c'.entry? p = c.entry? p) : c'.Contended p where
  reached := hreached
  limited := by rw [hages.timeout, h.limited]
  held := by
    have hheld := h.held
    simp only [isHeldElsewhere, isBlocked, hentry, hages.heldElsewhere] at hheld ⊢
    exact hheld

/-! ### What is refused -/

theorem apply_of_refused {err : LockError} {op : Operation V} (hop : op.principal = p) (hentry : c.entry? p = some e)
    (herr : c.lockError? .here p e = some err) : c.apply op = (.error err, c) := by
  subst hop
  cases op with
  | get p slot | contains p slot =>
      simp only [Operation.principal] at hentry herr
      simp only [apply, Cache.contains, Cache.get, hentry, herr]
      rfl
  | set p slot value =>
      simp only [Operation.principal] at hentry herr
      simp only [apply, Cache.set, ensure_of_found hentry, herr]
      rfl
  | forget p slot =>
      simp only [Operation.principal] at hentry herr
      simp only [apply, Cache.forget, hentry, herr]
      rfl
  | forgetPrincipal p =>
      simp only [Operation.principal] at hentry herr
      simp only [apply, Cache.forgetPrincipal, hentry, herr]
      rfl

theorem begin_of_refused {err : LockError} {who : Holder} (hentry : c.entry? p = some e)
    (herr : c.lockError? who p e = some err) (slot : String) : c.begin who p slot = (.error err, c) := by
  unfold begin
  simp only [ensure_of_found hentry, herr]

namespace Contended

theorem apply (h : c.Contended p) {op : Operation V} (hop : op.principal = p) :
    c.apply op = (.error (.timedOut p), c) := by
  obtain ⟨e, hentry, herr⟩ := h.exists_entry
  exact apply_of_refused hop hentry herr

theorem begin (h : c.Contended p) (slot : String) : c.begin .here p slot = (.error (.timedOut p), c) := by
  obtain ⟨e, hentry, herr⟩ := h.exists_entry
  exact begin_of_refused hentry herr slot

theorem getOrCompute (h : c.Contended p) (lift : LockError → E) (slot : String)
    (factory : Cache V → Except E V × Cache V) :
    c.getOrCompute lift p slot factory = (.error (lift (.timedOut p)), c) := by
  rw [Cache.getOrCompute, h.begin slot]

end Contended

/-! ### While something else goes on -/

/-- In the midst of a program: no factory for a principal is running, everything asked about the principal has been
refused, and the principal has the entry that it had, still locked. -/
structure Withholds (lift : LockError → E) (c : Cache V) (p : PrincipalKey) (pending : List (PrincipalKey × Nat))
    (events : List (Event V E)) (c' : Cache V) : Prop where
  idle : ∀ row ∈ pending, row.1 ≠ p
  refused : ∀ event ∈ events, event.principal = p → event.TimedOut lift p
  entry : c'.entry? p = c.entry? p
  contended : c'.Contended p

theorem Withholds.refl (h : c.Contended p) (lift : LockError → E) : c.Withholds lift p [] [] c :=
  ⟨nofun, nofun, rfl, h⟩

/-- What concerns another principal goes on. -/
theorem Withholds.other {lift : LockError → E} {pending pending' : List (PrincipalKey × Nat)}
    {events : List (Event V E)} {c'' : Cache V} (h : c.Withholds lift p pending events c')
    (hidle : ∀ row ∈ pending', row.1 ≠ p) {event : Event V E} (hevent : event.principal ≠ p) (hreached : c''.Reached)
    (hages : c'.Ages c'') (hentry : c''.entry? p = c'.entry? p) :
    c.Withholds lift p pending' (events ++ [event]) c'' where
  idle := hidle
  refused := by
    rw [List.forall_mem_append, List.forall_mem_singleton]
    exact ⟨h.refused, fun hsame => absurd hsame hevent⟩
  entry := hentry.trans h.entry
  contended := h.contended.aged hreached hages hentry

/-- What is asked about the principal comes to nothing. -/
theorem Withholds.timedOut {lift : LockError → E} {pending : List (PrincipalKey × Nat)} {events : List (Event V E)}
    (h : c.Withholds lift p pending events c') {event : Event V E} (hevent : event.TimedOut lift p) :
    c.Withholds lift p pending (events ++ [event]) c' where
  idle := h.idle
  refused := by
    rw [List.forall_mem_append, List.forall_mem_singleton]
    exact ⟨h.refused, fun _ => hevent⟩
  entry := h.entry
  contended := h.contended

theorem keeps_withholds (lift : LockError → E) (c : Cache V) (p : PrincipalKey) :
    (Store.ofCache lift).Keeps (c.Withholds lift p) where
  call {_ _ c'} running op h := by
    by_cases hop : op.principal = p
    · have happly : (Store.ofCache lift).apply c' op = (.error (.timedOut p), c') := h.contended.apply hop
      rw [happly]
      exact h.timedOut .called
    · have happlied := c'.applied_apply op
      exact h.other h.idle hop (h.contended.reached.applied happlied) happlied.ages
        (happlied.entry_of_ne (Ne.symm hop))
  computed {_ _ c' _ q slot _} hbegin h := by
    by_cases hq : q = p
    · subst hq
      rw [Store.begin_of_refused (h.contended.begin slot)] at hbegin
      cases hbegin
      exact h.timedOut .computed
    · exact h.other h.idle hq (h.contended.reached.begun hbegin) (Store.begin_ages hbegin)
        (Store.entry_begin_of_ne (Ne.symm hq) hbegin)
  begun {_ _ c' _ q slot _} hbegin h := by
    have hq : q ≠ p := by
      rintro rfl
      rw [Store.begin_of_refused (h.contended.begin slot)] at hbegin
      cases hbegin
    exact h.other (List.forall_mem_cons.mpr ⟨hq, h.idle⟩) hq (h.contended.reached.begun hbegin)
      (Store.begin_ages hbegin) (Store.entry_begin_of_ne (Ne.symm hq) hbegin)
  ended {_ _ c' q token} slot outcome h := by
    obtain ⟨hq, hidle⟩ := List.forall_mem_cons.mp h.idle
    exact h.other hidle hq (h.contended.reached.finish .here q token slot outcome) (c'.finish_ages ..)
      (entry_finish_of_ne (Ne.symm hq) ..)

/-! ### Without the contention -/

/-- The lock of a stamp has been let go by all who held it beside the caller. -/
def letGo (c : Cache V) (stamp : Nat) : Cache V :=
  { c with heldElsewhere := c.heldElsewhere.filter (· != stamp) }

/-- No entry but one of a principal has a stamp, or ever gets it. -/
structure Owns (c : Cache V) (p : PrincipalKey) (stamp : Nat) : Prop where
  given : stamp < c.nextStamp
  alone : ∀ q e, c.entry? q = some e → e.stamp = stamp → q = p

theorem Orderly.owns (hc : c.Orderly) (hentry : c.entry? p = some e) : c.Owns p e.stamp where
  given := hc.entries p e hentry
  alone q f hother hsame := hc.distinct q p f e hother hentry hsame

namespace Owns

theorem aged (h : c.Owns p stamp) (hages : c.Ages c') : c'.Owns p stamp where
  given := Nat.lt_of_lt_of_le h.given hages.nextStamp_le
  alone q e' hentry' hsame := by
    rcases hages.stamps q e' hentry' with ⟨e, hentry, hold⟩ | ⟨hmade, _⟩
    · exact h.alone q e hentry (hold.trans hsame)
    · have hgiven := h.given
      omega

/-- The lock of another principal is as it was. -/
theorem lockError?_letGo (h : c.Owns p stamp) (hq : q ≠ p) (hentry : c.entry? q = some e) :
    (c.letGo stamp).lockError? .here q e = c.lockError? .here q e := by
  have hother : e.stamp ≠ stamp := fun hsame => hq (h.alone q e hentry hsame)
  have hblocked : (c.letGo stamp).isBlocked .here e.stamp = c.isBlocked .here e.stamp := by
    rw [Bool.eq_iff_iff]
    simp [isBlocked, letGo, hother]
  rw [lockError?, hblocked, lockError?]
  rfl

end Owns

theorem ensure_letGo (c : Cache V) (stamp : Nat) (q : PrincipalKey) :
    (c.letGo stamp).ensure q = ((c.ensure q).1, (c.ensure q).2.letGo stamp) := by
  have hsame : Cache.entry? (c.letGo stamp) q = c.entry? q := rfl
  unfold ensure
  rw [hsame]
  cases c.entry? q with
  | some e => rfl
  | none => rfl

theorem settle_letGo (c : Cache V) (stamp : Nat) (q : PrincipalKey) (e : Entry V) :
    (c.letGo stamp).settle q e = (c.settle q e).letGo stamp := by
  unfold settle
  split
  · rfl
  · rfl

theorem finish_letGo (c : Cache V) (stamp : Nat) (q : PrincipalKey) (n : Nat) (slot : String)
    (outcome : Except E V) :
    (c.letGo stamp).finish .here q n slot outcome = (c.finish .here q n slot outcome).letGo stamp := by
  cases outcome with
  | error err => rfl
  | ok value =>
      have hstore : (c.letGo stamp).store q n slot value = (c.store q n slot value).letGo stamp := by
        have hsame : Cache.entry? (c.letGo stamp) q = c.entry? q := rfl
        unfold store
        rw [hsame]
        cases c.entry? q with
        | none => rfl
        | some e =>
            simp only
            split
            · rfl
            · rfl
      rw [finish, hstore]
      rfl

namespace Owns

theorem apply_letGo (h : c.Owns p stamp) {op : Operation V} (hop : op.principal ≠ p) :
    (c.letGo stamp).apply op = ((c.apply op).1, (c.apply op).2.letGo stamp) := by
  have hsame : ∀ q, Cache.entry? (c.letGo stamp) q = c.entry? q := fun _ => rfl
  have hget : ∀ q slot, q ≠ p → (c.letGo stamp).get q slot = c.get q slot := by
    intro q slot hq
    simp only [Cache.get, hsame]
    cases hentry : c.entry? q with
    | none => rfl
    | some e => simp only [h.lockError?_letGo hq hentry]
  cases op with
  | get q slot => simp only [apply, hget q slot hop]
  | contains q slot => simp only [apply, Cache.contains, hget q slot hop]
  | set q slot value =>
      have hq : q ≠ p := hop
      have howns := h.aged (c.ensure_ages q)
      simp only [apply, Cache.set, ensure_letGo, howns.lockError?_letGo hq (c.entry_ensure_self q)]
      cases (c.ensure q).2.lockError? .here q (c.ensure q).1 with
      | some err => rfl
      | none => rfl
  | forget q slot =>
      have hq : q ≠ p := hop
      simp only [apply, Cache.forget, hsame]
      cases hentry : c.entry? q with
      | none => rfl
      | some e =>
          simp only [h.lockError?_letGo hq hentry, settle_letGo]
          cases c.lockError? .here q e with
          | some err => rfl
          | none => rfl
  | forgetPrincipal q =>
      have hq : q ≠ p := hop
      simp only [apply, Cache.forgetPrincipal, hsame]
      cases hentry : c.entry? q with
      | none => rfl
      | some e =>
          simp only [h.lockError?_letGo hq hentry]
          cases c.lockError? .here q e with
          | some err => rfl
          | none => rfl

theorem begin_letGo (h : c.Owns p stamp) (hq : q ≠ p) (slot : String) :
    (c.letGo stamp).begin .here q slot = ((c.begin .here q slot).1, (c.begin .here q slot).2.letGo stamp) := by
  have howns := h.aged (c.ensure_ages q)
  unfold begin
  simp only [ensure_letGo, howns.lockError?_letGo hq (c.entry_ensure_self q)]
  cases (c.ensure q).2.lockError? .here q (c.ensure q).1 with
  | some err => rfl
  | none =>
      simp only
      cases (c.ensure q).1.get? slot with
      | some value => rfl
      | none => rfl

end Owns

end Cache

/-- A run that leaves a cache in which the lock of a stamp has been let go. -/
def Run.letGo (r : Run (Cache V) V E) (stamp : Nat) : Run (Cache V) V E :=
  { r with after := r.after.letGo stamp }

theorem Run.preceded_letGo (r : Run (Cache V) V E) (events : List (Event V E)) (stamp : Nat) :
    (r.preceded events).letGo stamp = (r.letGo stamp).preceded events := rfl

namespace Store

variable {c c' : Cache V} {p q : PrincipalKey} {slot : String} {stamp : Nat}

theorem begin_letGo (lift : LockError → E) (h : c.Owns p stamp) (hq : q ≠ p) (slot : String) :
    (ofCache lift).begin (c.letGo stamp) q slot =
      (((ofCache lift).begin c q slot).1, ((ofCache lift).begin c q slot).2.letGo stamp) := by
  simp only [ofCache, h.begin_letGo hq slot]
  obtain ⟨err, hbegin⟩ | ⟨_, ⟨value, _, hbegin⟩ | ⟨_, hbegin⟩⟩ := c.begin_cases q slot <;> rw [hbegin]

/-- A program that does not concern a principal runs as it does without the contention for its lock. -/
theorem run_letGo (lift : LockError → E) (running : List PrincipalKey) (program : Program V E) (h : c.Owns p stamp)
    (hother : ∀ event ∈ ((ofCache lift).run running program c).events, event.principal ≠ p) :
    (ofCache lift).run running program (c.letGo stamp) = ((ofCache lift).run running program c).letGo stamp := by
  -- the cache is left free: in each cache of the run the stamp is still that of the principal
  induction program generalizing running c with
  | stop outcome => rfl
  | call op next ih =>
      rw [run_call, Run.events_preceded, List.forall_mem_append, List.forall_mem_singleton] at hother
      obtain ⟨hop, hother⟩ := hother
      have happly : (ofCache lift).apply (c.letGo stamp) op =
          (((ofCache lift).apply c op).1, ((ofCache lift).apply c op).2.letGo stamp) := h.apply_letGo hop
      have howns : ((ofCache lift).apply c op).2.Owns p stamp := h.aged (c.applied_apply op).ages
      rw [run_call, run_call, Run.preceded_letGo, ← ih _ running howns hother, happly]
  | compute q slot factory resume ihfactory ihresume =>
      cases hbegin : (ofCache lift).begin c q slot with
      | mk beginning c' =>
          have howns := h.aged (begin_ages hbegin)
          cases beginning with
          | inl outcome =>
              rw [run_compute_of_inl hbegin, Run.events_preceded, List.forall_mem_append,
                List.forall_mem_singleton] at hother
              obtain ⟨(hq : q ≠ p), hother⟩ := hother
              have hbegin' : (ofCache lift).begin (c.letGo stamp) q slot = (.inl outcome, c'.letGo stamp) := by
                rw [begin_letGo lift h hq slot, hbegin]
              rw [run_compute_of_inl hbegin, run_compute_of_inl hbegin', Run.preceded_letGo,
                ihresume outcome running howns hother]
          | inr token =>
              rw [run_compute_of_inr hbegin, Run.events_preceded, List.forall_mem_append, List.forall_mem_append,
                List.forall_mem_cons, List.forall_mem_singleton] at hother
              obtain ⟨⟨⟨(hq : q ≠ p), hfactory⟩, -⟩, hother⟩ := hother
              have hbegin' : (ofCache lift).begin (c.letGo stamp) q slot = (.inr token, c'.letGo stamp) := by
                rw [begin_letGo lift h hq slot, hbegin]
              have hages := run_ages lift (q :: running) factory c'
              rw [run_compute_of_inr hbegin, run_compute_of_inr hbegin', Run.preceded_letGo,
                ihfactory (q :: running) howns hfactory]
              generalize (ofCache lift).run (q :: running) factory c' = inner at hother hages ⊢
              have hended : ((ofCache lift).finish inner.after q slot token inner.outcome).Owns p stamp :=
                (howns.aged hages).aged (inner.after.finish_ages ..)
              have hfinish : (ofCache lift).finish (inner.letGo stamp).after q slot token inner.outcome =
                  ((ofCache lift).finish inner.after q slot token inner.outcome).letGo stamp := Cache.finish_letGo ..
              rw [← ihresume _ running hended hother, ← hfinish]
              rfl

end Store

namespace Cache

variable {c : Cache V} {p : PrincipalKey} {e : Entry V}

theorem letGo_frees (hentry : c.entry? p = some e) : (c.letGo e.stamp).isHeldElsewhere p = false := by
  have hentry' : Cache.entry? (c.letGo e.stamp) p = some e := hentry
  rw [isHeldElsewhere_of_found hentry', isBlocked, ← Bool.not_eq_true, List.contains_iff_mem]
  exact fun hmem => bne_iff_ne.mp (List.mem_filter.mp hmem).2 rfl

/-- A factory that fails leaves all slots as it has left them. -/
theorem getOrCompute_of_failed {lift : LockError → E} {q : PrincipalKey} {slot : String} {n : Nat} {c₁ : Cache V}
    (hbegin : c.begin .here q slot = (.ok (.miss n), c₁)) {factory : Cache V → Except E V × Cache V} {err : E}
    (hfailed : (factory c₁).1 = .error err) :
    ∃ c', c.getOrCompute lift q slot factory = (.error err, c') ∧ c'.entries = (factory c₁).2.entries := by
  refine ⟨(factory c₁).2.release .here n, ?_, rfl⟩
  unfold getOrCompute
  simp only [hbegin, hfailed]
  rfl

/-- What comes of a lock that the caller cannot take. -/
structure HeldUp (lift : LockError → E) (c : Cache V) (p : PrincipalKey) : Prop where
  /-- No operation on the principal is answered. -/
  operations : ∀ op : Operation V, op.principal = p → c.apply op = (.error (.timedOut p), c)
  /-- No slot of the principal is computed or given, and it does not come to the factory. -/
  computations : ∀ slot (factory : Cache V → Except E V × Cache V),
    c.begin .here p slot = (.error (.timedOut p), c) ∧
      c.getOrCompute lift p slot factory = (.error (lift (.timedOut p)), c)
  /-- So it is in the midst of everything else, which leaves the principal as it is. -/
  within : ∀ running (program : Program V E),
    let r := (Store.ofCache lift).run running program c
    (∀ event ∈ r.events, event.principal = p → event.TimedOut lift p) ∧ r.after.entry? p = c.entry? p ∧
      r.after.Contended p
  /-- What does not concern the principal goes on as if nobody held the lock. -/
  others : ∀ e, c.entry? p = some e → (c.letGo e.stamp).isHeldElsewhere p = false ∧
    ∀ running (program : Program V E),
      (∀ event ∈ ((Store.ofCache lift).run running program c).events, event.principal ≠ p) →
        (Store.ofCache lift).run running program (c.letGo e.stamp) =
          ((Store.ofCache lift).run running program c).letGo e.stamp
  /-- The factory of another computation is refused as well. If it fails with the refusal, so does the computation, and
  nothing is stored beside what the factory has stored itself. -/
  escapes : ∀ q slot n c₁, c.begin .here q slot = (.ok (.miss n), c₁) → c₁.Contended p ∧
    ∀ running (factory : Program V E),
      let r := (Store.ofCache lift).run (q :: running) factory c₁
      r.outcome = .error (lift (.timedOut p)) →
        ∃ c', c.getOrCompute lift q slot ((Store.ofCache lift).asFactory (q :: running) factory) =
          (.error (lift (.timedOut p)), c') ∧ c'.entries = r.after.entries

theorem Contended.heldUp (h : c.Contended p) (lift : LockError → E) : c.HeldUp lift p where
  operations op hop := h.apply hop
  computations slot factory := ⟨h.begin slot, h.getOrCompute lift slot factory⟩
  within running program := by
    have hrun := (keeps_withholds lift c p).run_within running program (.refl h lift)
    exact ⟨hrun.refused, hrun.entry, hrun.contended⟩
  others e hentry :=
    ⟨letGo_frees hentry, fun running program => Store.run_letGo lift running program (h.reached.orderly.owns hentry)⟩
  escapes _ _ _ _ hbegin := by
    have hbegun := (keeps_withholds lift c p).begun (Store.begin_of_miss hbegin) (.refl h lift)
    exact ⟨hbegun.contended, fun _ _ hfailed => getOrCompute_of_failed hbegin hfailed⟩

end Cache

end StartNodes
