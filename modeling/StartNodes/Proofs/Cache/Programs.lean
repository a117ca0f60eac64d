import StartNodes.Proofs.Cache.Slots

/-!
Programs of one thread over a store of slots. A program calls single operations and computes slots, each by a factory
that is a program itself, and what it does next may depend on every answer before. A run is listed as events in the
order of time, those inside a factory between the beginning and the end of its computation.
-/

namespace StartNodes

variable {σ τ V E : Type}

inductive Operation (V : Type) where
  | get (p : PrincipalKey) (slot : String)
  | contains (p : PrincipalKey) (slot : String)
  | set (p : PrincipalKey) (slot : String) (value : V)
  | forget (p : PrincipalKey) (slot : String)
  | forgetPrincipal (p : PrincipalKey)

inductive Answer (V : Type) where
  | value (found : Option V)
  | present (found : Bool)
  | done
  deriving DecidableEq

/-- What a thread does, up to the value or the failure with which it ends. -/
inductive Program (V E : Type) where
  | stop (outcome : Except E V)
  | call (op : Operation V) (next : Except LockError (Answer V) → Program V E)
  | compute (p : PrincipalKey) (slot : String) (factory : Program V E) (next : Except E V → Program V E)

/-- What answers a program. -/
structure Store (σ τ V E : Type) where
  apply : σ → Operation V → Except LockError (Answer V) × σ
  /-- Begins a computation. It is over at once, or its factory runs and the token ends it. -/
  begin : σ → PrincipalKey → String → (Except E V ⊕ τ) × σ
  finish : σ → PrincipalKey → String → τ → Except E V → σ

namespace Operation

def principal : Operation V → PrincipalKey
  | get p _ => p
  | contains p _ => p
  | set p _ _ => p
  | forget p _ => p
  | forgetPrincipal p => p

/-- The principal of which an operation forgets something. -/
def forgotten? : Operation V → Option PrincipalKey
  | forget p _ => some p
  | forgetPrincipal p => some p
  | _ => none

end Operation

inductive Event (V E : Type) where
  /-- A single operation was answered, while factories for some principals were running. -/
  | called (running : List PrincipalKey) (op : Operation V) (answer : Except LockError (Answer V))
  /-- A computation was over without its factory. -/
  | computed (p : PrincipalKey) (slot : String) (outcome : Except E V)
  | begun (p : PrincipalKey) (slot : String)
  | ended (p : PrincipalKey) (slot : String) (outcome : Except E V)

namespace Event

def principal : Event V E → PrincipalKey
  | called _ op _ => op.principal
  | computed p _ _ => p
  | begun p _ => p
  | ended p _ _ => p

/-- Whether an event forgets nothing of a principal for which a factory is running. -/
def spares : Event V E → Bool
  | called running op _ => op.forgotten?.all fun p => !running.contains p
  | _ => true

/-- Whether an event is a refusal or the failure of a factory. -/
def failed : Event V E → Bool
  | called _ _ (.error _) => true
  | computed _ _ (.error _) => true
  | ended _ _ (.error _) => true
  | _ => false

end Event

structure Run (σ V E : Type) where
  outcome : Except E V
  events : List (Event V E)
  after : σ

namespace Run

def preceded (r : Run σ V E) (events : List (Event V E)) : Run σ V E :=
  { r with events := events ++ r.events }

variable (r : Run σ V E) (events : List (Event V E))

@[simp]
theorem outcome_preceded : (r.preceded events).outcome = r.outcome := rfl

@[simp]
theorem events_preceded : (r.preceded events).events = events ++ r.events := rfl

@[simp]
theorem after_preceded : (r.preceded events).after = r.after := rfl

end Run

namespace Store

variable (s : Store σ τ V E)

/-- The value of a slot, computed and stored first if it is absent. -/
def getOrCompute (state : σ) (p : PrincipalKey) (slot : String) (factory : σ → Except E V × σ) : Except E V × σ :=
  match s.begin state p slot with
  | (.inl outcome, state) => (outcome, state)
  | (.inr token, state) =>
      let (outcome, state) := factory state
      (outcome, s.finish state p slot token outcome)

/-- Runs a program while factories for some principals are running. -/
def run : List PrincipalKey → Program V E → σ → Run σ V E
  | _, .stop outcome, state => ⟨outcome, [], state⟩
  | running, .call op next, state =>
      let (answer, state) := s.apply state op
      (run running (next answer) state).preceded [.called running op answer]
  | running, .compute p slot factory next, state =>
      match s.begin state p slot with
      | (.inl outcome, state) => (run running (next outcome) state).preceded [.computed p slot outcome]
      | (.inr token, state) =>
          let inner := run (p :: running) factory state
          let rest := run running (next inner.outcome) (s.finish inner.after p slot token inner.outcome)
          rest.preceded (.begun p slot :: inner.events ++ [.ended p slot inner.outcome])

variable {s} {running : List PrincipalKey} {op : Operation V} {next : Except LockError (Answer V) → Program V E}
  {p : PrincipalKey} {slot : String} {factory : Program V E} {resume : Except E V → Program V E} {state state' : σ}

theorem run_call : s.run running (.call op next) state =
    (s.run running (next (s.apply state op).1) (s.apply state op).2).preceded
      [.called running op (s.apply state op).1] := rfl

theorem run_compute_of_inl {outcome : Except E V} (h : s.begin state p slot = (.inl outcome, state')) :
    s.run running (.compute p slot factory resume) state =
      (s.run running (resume outcome) state').preceded [.computed p slot outcome] := by
  rw [run, h]

theorem run_compute_of_inr {token : τ} (h : s.begin state p slot = (.inr token, state')) :
    s.run running (.compute p slot factory resume) state =
      (s.run running (resume (s.run (p :: running) factory state').outcome)
          (s.finish (s.run (p :: running) factory state').after p slot token
            (s.run (p :: running) factory state').outcome)).preceded
        (.begun p slot :: (s.run (p :: running) factory state').events ++
          [.ended p slot (s.run (p :: running) factory state').outcome]) := by
  rw [run, h]

variable (s) in
/-- A program as the factory of a computation. -/
def asFactory (running : List PrincipalKey) (program : Program V E) (state : σ) : Except E V × σ :=
  ((s.run running program state).outcome, (s.run running program state).after)

/-- A program goes on with what the computation of a slot comes to. -/
theorem run_compute {outcome : Except E V}
    (h : s.getOrCompute state p slot (s.asFactory (p :: running) factory) = (outcome, state')) :
    (s.run running (.compute p slot factory resume) state).outcome = (s.run running (resume outcome) state').outcome ∧
      (s.run running (.compute p slot factory resume) state).after = (s.run running (resume outcome) state').after := by
  unfold getOrCompute at h
  split at h
  · next hbegin =>
      cases h
      rw [run_compute_of_inl hbegin]
      exact ⟨rfl, rfl⟩
  · next hbegin =>
      cases h
      rw [run_compute_of_inr hbegin]
      exact ⟨rfl, rfl⟩

/-- Each event keeps a property of the computations whose factories are running, the events so far and the state. -/
structure Keeps (s : Store σ τ V E) (P : List (PrincipalKey × τ) → List (Event V E) → σ → Prop) : Prop where
  call : ∀ {pending events state} running op, P pending events state →
    P pending (events ++ [.called running op (s.apply state op).1]) (s.apply state op).2
  computed : ∀ {pending events state state' p slot outcome}, s.begin state p slot = (.inl outcome, state') →
    P pending events state → P pending (events ++ [.computed p slot outcome]) state'
  begun : ∀ {pending events state state' p slot token}, s.begin state p slot = (.inr token, state') →
    P pending events state → P ((p, token) :: pending) (events ++ [.begun p slot]) state'
  ended : ∀ {pending events state p token} slot outcome, P ((p, token) :: pending) events state →
    P pending (events ++ [.ended p slot outcome]) (s.finish state p slot token outcome)

/-- What each event keeps, every run keeps. -/
theorem Keeps.run {P : List (PrincipalKey × τ) → List (Event V E) → σ → Prop} (hkeeps : s.Keeps P)
    (running : List PrincipalKey) (program : Program V E) {pending : List (PrincipalKey × τ)}
    {events : List (Event V E)} (h : P pending events state) :
    P pending (events ++ (s.run running program state).events) (s.run running program state).after := by
  -- the events so far are left free: a factory runs after its own beginning, the rest after its end
  induction program generalizing running pending events state with
  | stop outcome => exact (List.append_nil events).symm ▸ h
  | call op next ih =>
      rw [run_call]
      have hrest := ih (s.apply state op).1 running (hkeeps.call running op h)
      rwa [List.append_assoc] at hrest
  | compute p slot factory resume ihfactory ihresume =>
      cases hbegin : s.begin state p slot with
      | mk beginning state' =>
          cases beginning with
          | inl outcome =>
              rw [run_compute_of_inl hbegin]
              have hrest := ihresume outcome running (hkeeps.computed hbegin h)
              rwa [List.append_assoc] at hrest
          | inr token =>
              rw [run_compute_of_inr hbegin]
              have hinner := ihfactory (p :: running) (hkeeps.begun hbegin h)
              have hended := hkeeps.ended slot (s.run (p :: running) factory state').outcome hinner
              have hrest := ihresume (s.run (p :: running) factory state').outcome running hended
              simpa using hrest

/-- The run of a factory by itself. -/
theorem Keeps.run_within {P : List (PrincipalKey × τ) → List (Event V E) → σ → Prop} (hkeeps : s.Keeps P)
    (running : List PrincipalKey) (program : Program V E) (h : P [] [] state) :
    P [] (s.run running program state).events (s.run running program state).after :=
  hkeeps.run running program h

theorem Keeps.run_whole {P : List (PrincipalKey × τ) → List (Event V E) → σ → Prop} (hkeeps : s.Keeps P)
    (program : Program V E) (h : P [] [] state) :
    P [] (s.run [] program state).events (s.run [] program state).after :=
  hkeeps.run_within [] program h

/-- Each event of some kind keeps a property of the running computations and the state. -/
structure KeepsWhile (s : Store σ τ V E) (good : Event V E → Prop) (Q : List (PrincipalKey × τ) → σ → Prop) :
    Prop where
  call : ∀ {pending state} running op, good (.called running op (s.apply state op).1) → Q pending state →
    Q pending (s.apply state op).2
  computed : ∀ {pending state state' p slot outcome}, s.begin state p slot = (.inl outcome, state') →
    good (.computed p slot outcome) → Q pending state → Q pending state'
  begun : ∀ {pending state state' p slot token}, s.begin state p slot = (.inr token, state') →
    good (.begun p slot) → Q pending state → Q ((p, token) :: pending) state'
  ended : ∀ {pending state p token} slot outcome, good (.ended p slot outcome) → Q ((p, token) :: pending) state →
    Q pending (s.finish state p slot token outcome)

theorem KeepsWhile.keeps {good : Event V E → Prop} {Q : List (PrincipalKey × τ) → σ → Prop}
    (h : s.KeepsWhile good Q) : s.Keeps fun pending events state => (∀ e ∈ events, good e) → Q pending state where
  call running op hQ hgood := by
    rw [List.forall_mem_append, List.forall_mem_singleton] at hgood
    exact h.call running op hgood.2 (hQ hgood.1)
  computed hbegin hQ hgood := by
    rw [List.forall_mem_append, List.forall_mem_singleton] at hgood
    exact h.computed hbegin hgood.2 (hQ hgood.1)
  begun hbegin hQ hgood := by
    rw [List.forall_mem_append, List.forall_mem_singleton] at hgood
    exact h.begun hbegin hgood.2 (hQ hgood.1)
  ended slot outcome hQ hgood := by
    rw [List.forall_mem_append, List.forall_mem_singleton] at hgood
    exact h.ended slot outcome hgood.2 (hQ hgood.1)

theorem KeepsWhile.run_whole {good : Event V E → Prop} {Q : List (PrincipalKey × τ) → σ → Prop}
    (h : s.KeepsWhile good Q) (program : Program V E) (hstart : Q [] state)
    (hgood : ∀ e ∈ (s.run [] program state).events, good e) : Q [] (s.run [] program state).after :=
  h.keeps.run_whole program (fun _ => hstart) hgood

end Store

/-! ### The cache as a store -/

namespace Cache

def apply (c : Cache V) : Operation V → Except LockError (Answer V) × Cache V
  | .get p slot => ((c.get p slot).map .value, c)
  | .contains p slot => ((c.contains p slot).map .present, c)
  | .set p slot value => ((c.set p slot value).1.map fun _ => .done, (c.set p slot value).2)
  | .forget p slot => ((c.forget p slot).1.map fun _ => .done, (c.forget p slot).2)
  | .forgetPrincipal p => ((c.forgetPrincipal p).1.map fun _ => .done, (c.forgetPrincipal p).2)

/-- What a single operation may answer, with the cache afterwards. -/
inductive Applied (c : Cache V) : Operation V → Except LockError (Answer V) → Cache V → Prop
  | get {p slot answer} : Applied c (.get p slot) answer c
  | contains {p slot answer} : Applied c (.contains p slot) answer c
  | setRefused {p slot value err} : Applied c (.set p slot value) (.error err) (c.ensure p).2
  | set {p slot value} :
      Applied c (.set p slot value) (.ok .done) ((c.ensure p).2.update p ((c.ensure p).1.put slot value))
  | forgetRefused {p slot err} : Applied c (.forget p slot) (.error err) c
  | forgetMissing {p slot} (h : c.entry? p = none) : Applied c (.forget p slot) (.ok .done) c
  | forget {p slot e} (h : c.entry? p = some e) : Applied c (.forget p slot) (.ok .done) (c.settle p (e.drop slot))
  | forgetPrincipalRefused {p err} : Applied c (.forgetPrincipal p) (.error err) c
  | forgetPrincipalMissing {p} (h : c.entry? p = none) : Applied c (.forgetPrincipal p) (.ok .done) c
  | forgetPrincipal {p e} (h : c.entry? p = some e) : Applied c (.forgetPrincipal p) (.ok .done) (c.discard p)

theorem applied_apply (c : Cache V) (op : Operation V) : c.Applied op (c.apply op).1 (c.apply op).2 := by
  cases op with
  | get p slot => exact .get
  | contains p slot => exact .contains
  | set p slot value =>
      simp only [apply, Cache.set]
      cases (c.ensure p).2.lockError? .here p (c.ensure p).1 with
      | some err => exact .setRefused
      | none => exact .set
  | forget p slot =>
      simp only [apply, Cache.forget]
      cases hentry : c.entry? p with
      | none => exact .forgetMissing hentry
      | some e =>
          cases herr : c.lockError? .here p e with
          | some err =>
              simp only [herr]
              exact .forgetRefused
          | none =>
              simp only [herr]
              exact .forget hentry
  | forgetPrincipal p =>
      simp only [apply, Cache.forgetPrincipal]
      cases hentry : c.entry? p with
      | none => exact .forgetPrincipalMissing hentry
      | some e =>
          cases herr : c.lockError? .here p e with
          | some err =>
              simp only [herr]
              exact .forgetPrincipalRefused
          | none =>
              simp only [herr]
              exact .forgetPrincipal hentry

theorem Applied.entry_of_ne {c c' : Cache V} {op : Operation V} {answer : Except LockError (Answer V)}
    {q : PrincipalKey} (h : c.Applied op answer c') (hne : q ≠ op.principal) : c'.entry? q = c.entry? q := by
  cases h with
  | get => rfl
  | contains => rfl
  | setRefused => exact entry_ensure_of_ne hne
  | set => exact (entry_update_of_ne hne _).trans (entry_ensure_of_ne hne)
  | forgetRefused => rfl
  | forgetMissing _ => rfl
  | forget _ => exact entry_settle_of_ne hne _
  | forgetPrincipalRefused => rfl
  | forgetPrincipalMissing _ => rfl
  | forgetPrincipal _ => exact entry_discard_of_ne hne

/-- Where locks cannot be waited for, no operation changes a value. -/
theorem apply_of_fault {c : Cache V} {f : LockTimeout.Fault} (h : c.timeout.fault? = some f) (op : Operation V) :
    c.Alike (c.apply op).2 := by
  have hsame : c.Alike c := ⟨rfl, rfl, fun _ _ => rfl⟩
  cases op with
  | get | contains => exact hsame
  | set p slot value =>
      have hfault : (c.ensure p).2.timeout.fault? = some f := (c.ensure_alike p).timeout ▸ h
      simp only [apply, Cache.set, lockError?_of_fault hfault]
      exact c.ensure_alike p
  | forget p slot =>
      rw [apply, forget_of_fault h]
      exact hsame
  | forgetPrincipal p =>
      simp only [apply, Cache.forgetPrincipal]
      cases c.entry? p with
      | none => exact hsame
      | some e =>
          simp only [lockError?_of_fault h]
          exact hsame

end Cache

/-- A cache answers programs; `lift` tells a program why a lock was not taken. The token of a computation is the stamp
of the entry with which it began. -/
def Store.ofCache (lift : LockError → E) : Store (Cache V) Nat V E where
  apply := Cache.apply
  begin c p slot :=
    match c.begin .here p slot with
    | (.error err, c) => (.inl (.error (lift err)), c)
    | (.ok (.hit value), c) => (.inl (.ok value), c)
    | (.ok (.miss stamp), c) => (.inr stamp, c)
  finish c p slot stamp outcome := c.finish .here p stamp slot outcome

namespace Store

variable {lift : LockError → E} {c c' : Cache V} {p : PrincipalKey} {slot : String}

theorem begin_of_refused {err : LockError} (h : c.begin .here p slot = (.error err, c')) :
    (ofCache lift).begin c p slot = (.inl (.error (lift err)), c') := by
  simp only [ofCache, h]

theorem begin_of_hit {value : V} (h : c.begin .here p slot = (.ok (.hit value), c')) :
    (ofCache lift).begin c p slot = (.inl (.ok value), c') := by
  simp only [ofCache, h]

theorem begin_of_miss {stamp : Nat} (h : c.begin .here p slot = (.ok (.miss stamp), c')) :
    (ofCache lift).begin c p slot = (.inr stamp, c') := by
  simp only [ofCache, h]

theorem after_begin (lift : LockError → E) (c : Cache V) (p : PrincipalKey) (slot : String) :
    ((ofCache lift).begin c p slot).2 = (c.begin .here p slot).2 := by
  obtain ⟨err, hbegin⟩ | ⟨_, ⟨value, _, hbegin⟩ | ⟨_, hbegin⟩⟩ := c.begin_cases p slot
  · rw [begin_of_refused hbegin, hbegin]
  · rw [begin_of_hit hbegin, hbegin]
  · rw [begin_of_miss hbegin, hbegin]

/-- A computation that is over at once has made the principal known, and gives a value only where there is one. -/
theorem ensure_of_begin_inl {outcome : Except E V} (h : (ofCache lift).begin c p slot = (.inl outcome, c')) :
    c' = (c.ensure p).2 ∧ ∀ value, outcome = .ok value → (c.ensure p).1.get? slot = some value := by
  obtain ⟨err, hbegin⟩ | ⟨_, ⟨value, hget, hbegin⟩ | ⟨_, hbegin⟩⟩ := c.begin_cases p slot
  · rw [begin_of_refused hbegin] at h
    cases h
    exact ⟨rfl, nofun⟩
  · rw [begin_of_hit hbegin] at h
    cases h
    exact ⟨rfl, fun _ h => by cases h; exact hget⟩
  · rw [begin_of_miss hbegin] at h
    cases h

theorem ensure_of_begin_inr {stamp : Nat} (h : (ofCache lift).begin c p slot = (.inr stamp, c')) :
    stamp = (c.ensure p).1.stamp ∧ c' = c.begun p := by
  obtain ⟨err, hbegin⟩ | ⟨_, ⟨value, _, hbegin⟩ | ⟨_, hbegin⟩⟩ := c.begin_cases p slot
  · rw [begin_of_refused hbegin] at h
    cases h
  · rw [begin_of_hit hbegin] at h
    cases h
  · rw [begin_of_miss hbegin] at h
    cases h
    exact ⟨rfl, rfl⟩

/-- Whatever a computation begins with, the entries of other principals stay. -/
theorem entry_begin_of_ne {q : PrincipalKey} (hq : q ≠ p) {beginning : Except E V ⊕ Nat}
    (h : (ofCache lift).begin c p slot = (beginning, c')) : c'.entry? q = c.entry? q := by
  cases beginning with
  | inl outcome =>
      rw [(ensure_of_begin_inl h).1]
      exact Cache.entry_ensure_of_ne hq
  | inr stamp =>
      rw [(ensure_of_begin_inr h).2]
      exact Cache.entry_ensure_of_ne hq

/-- A program's computation of a slot is that of the cache. -/
theorem getOrCompute_ofCache (lift : LockError → E) (c : Cache V) (p : PrincipalKey) (slot : String)
    (factory : Cache V → Except E V × Cache V) :
    (ofCache lift).getOrCompute c p slot factory = c.getOrCompute lift p slot factory := by
  unfold getOrCompute Cache.getOrCompute
  cases hbegin : c.begin .here p slot with
  | mk beginning c' =>
      cases beginning with
      | error err => rw [begin_of_refused hbegin]
      | ok beginning =>
          cases beginning with
          | hit value => rw [begin_of_hit hbegin]
          | miss stamp =>
              rw [begin_of_miss hbegin]
              rfl

end Store

end StartNodes
