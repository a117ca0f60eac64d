import StartNodes.Proofs.Cache.Programs

/-!
A cache against a plain map from principals and slots to values. Where locks can be waited for and no factory of a
principal runs while something of that principal is forgotten, a program cannot tell the two apart. What carries the
argument is that an entry with which a computation began is still there when the computation ends.
-/

namespace StartNodes

variable {V E : Type}

/-- A plain map from principals and slots to values. -/
def SlotMap (V : Type) := PrincipalKey → String → Option V

namespace SlotMap

/-- The map with something else, or nothing, in a slot. -/
def put (m : SlotMap V) (p : PrincipalKey) (slot : String) (found : Option V) : SlotMap V :=
  fun q other => if q = p ∧ other = slot then found else m q other

def clear (m : SlotMap V) (p : PrincipalKey) : SlotMap V :=
  fun q other => if q = p then none else m q other

/-- The map after a slot has been computed: a failure leaves everything as it is. -/
def fill (m : SlotMap V) (p : PrincipalKey) (slot : String) : Except E V → SlotMap V
  | .ok value => m.put p slot (some value)
  | .error _ => m

def apply (m : SlotMap V) : Operation V → Except LockError (Answer V) × SlotMap V
  | .get p slot => (.ok (.value (m p slot)), m)
  | .contains p slot => (.ok (.present (m p slot).isSome), m)
  | .set p slot value => (.ok .done, m.put p slot (some value))
  | .forget p slot => (.ok .done, m.put p slot none)
  | .forgetPrincipal p => (.ok .done, m.clear p)

/-- The value of a slot, computed and stored first if it is absent. -/
def getOrCompute (m : SlotMap V) (p : PrincipalKey) (slot : String) (factory : SlotMap V → Except E V × SlotMap V) :
    Except E V × SlotMap V :=
  match m p slot with
  | some value => (.ok value, m)
  | none =>
      let (outcome, m) := factory m
      (outcome, m.fill p slot outcome)

theorem put_self (m : SlotMap V) (p : PrincipalKey) (slot : String) (found : Option V) :
    m.put p slot found p slot = found :=
  if_pos ⟨rfl, rfl⟩

theorem put_of_ne {q p : PrincipalKey} {other slot : String} (h : q ≠ p ∨ other ≠ slot) (m : SlotMap V)
    (found : Option V) : m.put p slot found q other = m q other :=
  if_neg fun hsame => h.elim (fun hne => hne hsame.1) fun hne => hne hsame.2

theorem eq_put {m m' : SlotMap V} {p : PrincipalKey} {slot : String} {found : Option V} (hself : m' p slot = found)
    (hslot : ∀ other, other ≠ slot → m' p other = m p other) (hrest : ∀ q, q ≠ p → m' q = m q) :
    m' = m.put p slot found := by
  funext q other
  unfold put
  by_cases hq : q = p
  · subst hq
    by_cases hother : other = slot
    · rw [if_pos ⟨rfl, hother⟩, hother, hself]
    · rw [if_neg fun h => hother h.2, hslot other hother]
  · rw [if_neg fun h => hq h.1, hrest q hq]

theorem eq_clear {m m' : SlotMap V} {p : PrincipalKey} (hself : ∀ slot, m' p slot = none)
    (hrest : ∀ q, q ≠ p → m' q = m q) : m' = m.clear p := by
  funext q other
  unfold clear
  by_cases hq : q = p
  · rw [if_pos hq, hq, hself]
  · rw [if_neg hq, hrest q hq]

end SlotMap

namespace Store

def ofMap : Store (SlotMap V) Unit V E where
  apply := SlotMap.apply
  begin m p slot :=
    match m p slot with
    | some value => (.inl (.ok value), m)
    | none => (.inr (), m)
  finish m p slot _ outcome := m.fill p slot outcome

variable {m : SlotMap V} {p : PrincipalKey} {slot : String}

theorem begin_of_present {value : V} (h : m p slot = some value) :
    (ofMap : Store (SlotMap V) Unit V E).begin m p slot = (.inl (.ok value), m) := by
  simp only [ofMap, h]

theorem begin_of_absent (h : m p slot = none) :
    (ofMap : Store (SlotMap V) Unit V E).begin m p slot = (.inr (), m) := by
  simp only [ofMap, h]

/-- A program's computation of a slot is that of the map. -/
theorem getOrCompute_ofMap (m : SlotMap V) (p : PrincipalKey) (slot : String)
    (factory : SlotMap V → Except E V × SlotMap V) :
    ofMap.getOrCompute m p slot factory = m.getOrCompute p slot factory := by
  unfold getOrCompute SlotMap.getOrCompute
  cases h : m p slot with
  | some value => rw [begin_of_present h]
  | none =>
      rw [begin_of_absent h]
      rfl

end Store

namespace Cache

variable {c c' : Cache V} {p q : PrincipalKey} {slot : String} {running : List PrincipalKey}

def values (c : Cache V) : SlotMap V := fun p slot => c.peek? p slot

def stamp? (c : Cache V) (p : PrincipalKey) : Option Nat :=
  (c.entry? p).map Entry.stamp

/-! ### What operations do to values and stamps -/

theorem values_ensure (c : Cache V) (p : PrincipalKey) : (c.ensure p).2.values = c.values :=
  funext fun q => funext fun slot => (c.ensure_alike p).peek q slot

theorem values_update_put {e : Entry V} (h : c.entry? p = some e) (slot : String) (value : V) :
    (c.update p (e.put slot value)).values = c.values.put p slot (some value) := by
  refine SlotMap.eq_put ?_ (fun other hother => ?_) fun q hq => funext fun other => peek?_update_of_ne hq _ other
  · exact (peek?_update_self h _ slot).trans (e.get?_put_self slot value)
  · exact (peek?_update_self h _ other).trans ((e.get?_put_of_ne hother value).trans (peek?_of_found h other).symm)

theorem values_settle_drop {e : Entry V} (h : c.entry? p = some e) (slot : String) :
    (c.settle p (e.drop slot)).values = c.values.put p slot none := by
  refine SlotMap.eq_put ?_ (fun other hother => ?_) fun q hq => funext fun other => peek?_settle_of_ne hq _ other
  · exact (peek?_settle_self h _ slot).trans (e.get?_drop_self slot)
  · exact (peek?_settle_self h _ other).trans ((e.get?_drop_of_ne hother).trans (peek?_of_found h other).symm)

theorem values_discard (c : Cache V) (p : PrincipalKey) : (c.discard p).values = c.values.clear p :=
  SlotMap.eq_clear (c.peek?_discard_self p) fun _ hq => funext fun slot => peek?_discard_of_ne hq slot

theorem stamp?_of_found {e : Entry V} (h : c.entry? p = some e) : c.stamp? p = some e.stamp := by
  rw [stamp?, h, Option.map_some]

theorem stamp?_congr (h : c'.entry? q = c.entry? q) : c'.stamp? q = c.stamp? q := by
  rw [stamp?, h, stamp?]

theorem stamp?_ensure {n : Nat} (h : c.stamp? q = some n) (p : PrincipalKey) : (c.ensure p).2.stamp? q = some n := by
  by_cases hq : q = p
  · obtain ⟨e, hentry, _⟩ := Option.map_eq_some_iff.mp h
    rw [ensure_of_found (hq ▸ hentry)]
    exact h
  · rw [stamp?_congr (entry_ensure_of_ne hq), h]

theorem stamp?_update {old e : Entry V} (h : c.entry? p = some old) (hstamp : e.stamp = old.stamp) (q : PrincipalKey) :
    (c.update p e).stamp? q = c.stamp? q := by
  by_cases hq : q = p
  · rw [hq, stamp?_of_found (entry_update_self h e), stamp?_of_found h, hstamp]
  · exact stamp?_congr (entry_update_of_ne hq e)

/-- From one cache to another: the second holds what a map holds, and the entries of some principals are those that
they were. -/
structure Tracks (running : List PrincipalKey) (c c' : Cache V) (m : SlotMap V) : Prop where
  usable : c'.Usable
  values : c'.values = m
  stamps : ∀ p ∈ running, ∀ n, c.stamp? p = some n → c'.stamp? p = some n

theorem Tracks.refl (hc : c.Usable) : Tracks running c c c.values :=
  ⟨hc, rfl, fun _ _ _ h => h⟩

theorem Tracks.trans {c'' : Cache V} {m m' : SlotMap V} (h : Tracks running c c' m) (h' : Tracks running c' c'' m') :
    Tracks running c c'' m' :=
  ⟨h'.usable, h'.values, fun p hp n hn => h'.stamps p hp n (h.stamps p hp n hn)⟩

theorem Tracks.mono {ps : List PrincipalKey} {m : SlotMap V} (h : Tracks ps c c' m) (hsub : ∀ p ∈ running, p ∈ ps) :
    Tracks running c c' m :=
  ⟨h.usable, h.values, fun p hp => h.stamps p (hsub p hp)⟩

theorem get_of_usable (hc : c.Usable) (p : PrincipalKey) (slot : String) : c.get p slot = .ok (c.values p slot) := by
  unfold get values
  cases hentry : c.entry? p with
  | none => rw [peek?_of_missing hentry]
  | some e => simp only [hc.lockError?_eq_none, peek?_of_found hentry]

theorem set_tracks (hc : c.Usable) (p : PrincipalKey) (slot : String) (value : V) :
    (c.set p slot value).1 = .ok () ∧
      Tracks running c (c.set p slot value).2 (c.values.put p slot (some value)) := by
  have hensure : (c.ensure p).2.Usable := (c.ensure_alike p).usable hc
  have hset : c.set p slot value = (.ok (), (c.ensure p).2.update p ((c.ensure p).1.put slot value)) := by
    unfold set
    simp only [hensure.lockError?_eq_none]
  rw [hset]
  refine ⟨rfl, ⟨hensure.timeout, hensure.free⟩, ?_, fun q _ n hn => ?_⟩
  · rw [values_update_put (c.entry_ensure_self p), values_ensure]
  · rw [stamp?_update (c.entry_ensure_self p) (Entry.stamp_put ..)]
    exact stamp?_ensure hn p

theorem values_of_missing (h : c.entry? p = none) (slot : String) : c.values p slot = none :=
  peek?_of_missing h slot

theorem forget_tracks (hc : c.Usable) (hp : p ∉ running) (slot : String) :
    (c.forget p slot).1 = .ok () ∧ Tracks running c (c.forget p slot).2 (c.values.put p slot none) := by
  cases hentry : c.entry? p with
  | none =>
      rw [forget_of_missing hentry]
      have hsame : c.values = c.values.put p slot none :=
        SlotMap.eq_put (values_of_missing hentry slot) (fun _ _ => rfl) fun _ _ => rfl
      exact ⟨rfl, hc, hsame, fun _ _ _ h => h⟩
  | some e =>
      rw [forget_of_found hc hentry]
      refine ⟨rfl, hc.settle .., values_settle_drop hentry slot, fun q hq n hn => ?_⟩
      rwa [stamp?_congr (entry_settle_of_ne (ne_of_mem_of_not_mem hq hp) _)]

theorem forgetPrincipal_tracks (hc : c.Usable) (hp : p ∉ running) :
    (c.forgetPrincipal p).1 = .ok () ∧ Tracks running c (c.forgetPrincipal p).2 (c.values.clear p) := by
  unfold forgetPrincipal
  cases hentry : c.entry? p with
  | none => exact ⟨rfl, hc, SlotMap.eq_clear (values_of_missing hentry) fun _ _ => rfl, fun _ _ _ h => h⟩
  | some e =>
      simp only [hc.lockError?_eq_none, true_and]
      refine ⟨⟨hc.timeout, hc.free⟩, c.values_discard p, fun q hq n hn => ?_⟩
      rwa [stamp?_congr (entry_discard_of_ne (ne_of_mem_of_not_mem hq hp))]

theorem apply_tracks (hc : c.Usable) {op : Operation V} (hspares : ∀ p, op.forgotten? = some p → p ∉ running) :
    (c.apply op).1 = (c.values.apply op).1 ∧ Tracks running c (c.apply op).2 (c.values.apply op).2 := by
  cases op with
  | get p slot =>
      refine ⟨?_, .refl hc⟩
      simp only [apply, get_of_usable hc, SlotMap.apply, Except.map]
  | contains p slot =>
      refine ⟨?_, .refl hc⟩
      simp only [apply, contains, get_of_usable hc, SlotMap.apply, Except.map]
  | set p slot value =>
      obtain ⟨hanswer, htracks⟩ := set_tracks hc p slot value
      exact ⟨by simp only [apply, hanswer, SlotMap.apply, Except.map], htracks⟩
  | forget p slot =>
      obtain ⟨hanswer, htracks⟩ := forget_tracks hc (hspares p rfl) slot
      exact ⟨by simp only [apply, hanswer, SlotMap.apply, Except.map], htracks⟩
  | forgetPrincipal p =>
      obtain ⟨hanswer, htracks⟩ := forgetPrincipal_tracks hc (hspares p rfl)
      exact ⟨by simp only [apply, hanswer, SlotMap.apply, Except.map], htracks⟩

/-- Outside of every factory an operation may forget anything. -/
theorem apply_tracks_outside (hc : c.Usable) (op : Operation V) :
    Tracks [] c (c.apply op).2 (c.values.apply op).2 :=
  (apply_tracks hc fun _ _ => List.not_mem_nil).2

/-- A computation whose factory runs begins with an entry of the principal. -/
theorem begun_tracks (running : List PrincipalKey) (hc : c.Usable) (p : PrincipalKey) :
    Cache.stamp? (c.begun p) p = some (c.ensure p).1.stamp ∧ Tracks running c (c.begun p) c.values :=
  ⟨stamp?_of_found ((c.entry_begun p p).trans (c.entry_ensure_self p)), (c.begun_alike p).usable hc, c.values_ensure p,
    fun _ _ _ hn => stamp?_ensure hn p⟩

/-- A computation that ends while the entry with which it began is there fills its slot. -/
theorem finish_tracks (running : List PrincipalKey) (hc : c.Usable) {stamp : Nat} (hstamp : c.stamp? p = some stamp)
    (slot : String) (outcome : Except E V) :
    Tracks running c (c.finish .here p stamp slot outcome) (c.values.fill p slot outcome) := by
  cases outcome with
  | error e => exact ⟨⟨hc.timeout, hc.free⟩, rfl, fun _ _ _ hn => hn⟩
  | ok value =>
      obtain ⟨e, hentry, rfl⟩ := Option.map_eq_some_iff.mp hstamp
      show Tracks running c ((c.store p e.stamp slot value).release .here e.stamp) _
      rw [store_of_stamp hentry]
      exact ⟨⟨hc.timeout, hc.free⟩, values_update_put hentry slot value,
        fun q _ n hn => (stamp?_update hentry (Entry.stamp_put ..) q).trans hn⟩

/-! ### Programs -/

/-- One run on a cache and one on a map, with the same outcome and the same events. -/
structure Matches {V E : Type} (running : List PrincipalKey) (c : Cache V) (r : Run (Cache V) V E)
    (r' : Run (SlotMap V) V E) : Prop where
  outcome : r.outcome = r'.outcome
  events : r.events = r'.events
  tracks : Tracks running c r.after r'.after

theorem Matches.preceded {r : Run (Cache V) V E} {r' : Run (SlotMap V) V E} (h : Matches running c r r')
    (events : List (Event V E)) : Matches running c (r.preceded events) (r'.preceded events) :=
  ⟨h.outcome, by simp [h.events], h.tracks⟩

theorem Matches.after {m : SlotMap V} {r : Run (Cache V) V E} {r' : Run (SlotMap V) V E} (h : Tracks running c c' m)
    (hrun : Matches running c' r r') : Matches running c r r' :=
  ⟨hrun.outcome, hrun.events, h.trans hrun.tracks⟩

theorem run_matches (lift : LockError → E) (program : Program V E) (hc : c.Usable)
    (hspares : ∀ e ∈ ((Store.ofCache lift).run running program c).events, e.spares) :
    Matches running c ((Store.ofCache lift).run running program c) (Store.ofMap.run running program c.values) := by
  -- inside a factory one more principal is running, whose entry has to stay
  induction program generalizing running c with
  | stop outcome => exact ⟨rfl, rfl, .refl hc⟩
  | call op next ih =>
      rw [Store.run_call] at hspares ⊢
      simp only [Run.events_preceded, List.cons_append, List.nil_append, List.forall_mem_cons] at hspares
      obtain ⟨hop, hrest⟩ := hspares
      have hforgotten : ∀ p, op.forgotten? = some p → p ∉ running := by
        intro p hp
        simpa [Event.spares, hp] using hop
      obtain ⟨hanswer, htracks⟩ := apply_tracks hc hforgotten
      have hmatches := ih _ htracks.usable hrest
      rw [htracks.values] at hmatches
      have hmap : Store.ofMap.run running (.call op next) c.values =
          (Store.ofMap.run running (next (c.apply op).1) (c.values.apply op).2).preceded
            [.called running op (c.apply op).1] := by
        rw [Store.run_call, hanswer]
        rfl
      rw [hmap]
      exact (hmatches.after htracks).preceded _
  | compute p slot factory resume ihfactory ihresume =>
      cases hvalue : c.values p slot with
      | some value =>
          have hcache : (Store.ofCache lift).begin c p slot = (.inl (.ok value), c) :=
            Store.begin_of_hit (begin_of_hit hc hvalue)
          rw [Store.run_compute_of_inl hcache] at hspares ⊢
          rw [Store.run_compute_of_inl (Store.begin_of_present hvalue)]
          simp only [Run.events_preceded, List.cons_append, List.nil_append, List.forall_mem_cons] at hspares
          exact (ihresume _ hc hspares.2).preceded _
      | none =>
          obtain ⟨hstamp, htracks⟩ := begun_tracks running hc p
          have hcache : (Store.ofCache lift).begin c p slot = (.inr (c.ensure p).1.stamp, c.begun p) :=
            Store.begin_of_miss (begin_of_miss hc hvalue)
          rw [Store.run_compute_of_inr hcache] at hspares ⊢
          rw [Store.run_compute_of_inr (Store.begin_of_absent hvalue)]
          simp only [Run.events_preceded, List.cons_append, List.nil_append, List.append_assoc,
            List.forall_mem_cons, List.forall_mem_append] at hspares
          obtain ⟨-, hinner, -, hrest⟩ := hspares
          have hfactory : Matches (p :: running) (c.begun p) _ _ := ihfactory htracks.usable hinner
          rw [htracks.values] at hfactory
          generalize (Store.ofCache lift).run (p :: running) factory (c.begun p) = inner at hfactory hrest ⊢
          generalize Store.ofMap.run (p :: running) factory c.values = inner' at hfactory ⊢
          -- the factory has forgotten nothing of `p`, so its value goes to an entry that is still there
          have hkept := hfactory.tracks.stamps p List.mem_cons_self _ hstamp
          have hended := finish_tracks running hfactory.tracks.usable hkept slot inner.outcome
          rw [hfactory.tracks.values] at hended
          have hresumed := ihresume _ hended.usable hrest
          rw [hended.values] at hresumed
          rw [← hfactory.outcome, ← hfactory.events]
          have hinner := hfactory.tracks.mono fun q hq => List.mem_cons_of_mem p hq
          exact ((hresumed.after hended).after (htracks.trans hinner)).preceded _

end Cache

/-- Where nothing concerns a principal, its entry stays as it is, whether or not locks can be waited for. -/
theorem Store.keeps_entry (lift : LockError → E) (c : Cache V) (q : PrincipalKey) :
    (ofCache lift).KeepsWhile (fun e => e.principal ≠ q) fun _ c' => c'.entry? q = c.entry? q where
  call _ op hne h := ((Cache.applied_apply _ op).entry_of_ne hne.symm).trans h
  computed hbegin hne h := (entry_begin_of_ne hne.symm hbegin).trans h
  begun hbegin hne h := (entry_begin_of_ne hne.symm hbegin).trans h
  ended _ _ hne h := (Cache.entry_finish_of_ne hne.symm ..).trans h

/-! ### The refinement -/

namespace Cache

/-- A program on a cache and the same program on a plain map with the same values. Where locks can be waited for, nobody
else holds one, and nothing of a principal is forgotten while a factory for it is running, all answers and outcomes are
the same, and so are the values afterwards. What no event concerns keeps its values in any case. -/
theorem run_eq_run_map (lift : LockError → E) (program : Program V E) (c : Cache V) :
    (c.Usable → (∀ e ∈ ((Store.ofCache lift).run [] program c).events, e.spares) →
      ((Store.ofCache lift).run [] program c).outcome = (Store.ofMap.run [] program c.values).outcome ∧
        ((Store.ofCache lift).run [] program c).events = (Store.ofMap.run [] program c.values).events ∧
          ((Store.ofCache lift).run [] program c).after.values = (Store.ofMap.run [] program c.values).after) ∧
      ∀ q, (∀ e ∈ ((Store.ofCache lift).run [] program c).events, e.principal ≠ q) →
        ((Store.ofCache lift).run [] program c).after.values q = c.values q := by
  refine ⟨fun hc hspares => ?_, fun q hother => funext fun slot => peek?_congr ?_ slot⟩
  · obtain ⟨houtcome, hevents, htracks⟩ := run_matches lift program hc hspares
    exact ⟨houtcome, hevents, htracks.values⟩
  · exact (Store.keeps_entry lift c q).run_whole program rfl hother

/-- A factory computes a slot of another principal in vain, forgets another slot of that principal, and goes on. -/
def nestedProgram : Program Nat LockError :=
  .call (.set (.text "other") "kept" 5) fun _ =>
    .compute (.number 1) "total"
      (.compute (.text "other") "lost" (.stop (.error (.endless (.number 1)))) fun _ =>
        .call (.forget (.text "other") "kept") fun _ => .stop (.ok 7))
      .stop

theorem run_eq_run_map_nested :
    (Cache.empty (.whole 30) : Cache Nat).Usable ∧
      (∀ e ∈ ((Store.ofCache id).run [] nestedProgram (Cache.empty (.whole 30))).events, e.spares) ∧
      ((Store.ofCache id).run [] nestedProgram (Cache.empty (.whole 30))).after.values =
        ((Store.ofMap : Store _ _ Nat LockError).run [] nestedProgram fun _ _ => none).after ∧
      ((Store.ofCache id).run [] nestedProgram (Cache.empty (.whole 30))).after.values (.number 2) = fun _ => none := by
  have husable : (Cache.empty (.whole 30) : Cache Nat).Usable := ⟨by decide, rfl⟩
  have hspares : ∀ e ∈ ((Store.ofCache id).run [] nestedProgram (Cache.empty (.whole 30))).events, e.spares := by
    decide
  obtain ⟨hmatches, hother⟩ := run_eq_run_map id nestedProgram (Cache.empty (.whole 30))
  exact ⟨husable, hspares, (hmatches husable hspares).2.2, hother (.number 2) (by decide)⟩

/-- Writes a slot and reads it again. -/
def setThenGet : Program Nat LockError :=
  .call (.set (.number 1) "a" 1) fun _ => .call (.get (.number 1) "a") fun answer =>
    match answer with
    | .ok (.value (some value)) => .stop (.ok value)
    | .ok _ => .stop (.ok 0)
    | .error err => .stop (.error err)

/-- A timeout of this many seconds is allowed and cannot be waited for. -/
theorem run_ne_run_map_of_unusable_timeout :
    LockTimeout.isAllowed (.whole 9223372037) = true ∧
      (∀ e ∈ ((Store.ofCache id).run [] setThenGet (Cache.empty (.whole 9223372037))).events, e.spares) ∧
      ((Store.ofCache id).run [] setThenGet (Cache.empty (.whole 9223372037))).outcome ≠
        ((Store.ofMap : Store _ _ Nat LockError).run [] setThenGet fun _ _ => none).outcome := by
  refine ⟨by decide, by decide, ?_⟩
  have hcache : ((Store.ofCache id).run [] setThenGet (Cache.empty (.whole 9223372037))).outcome =
      .error (.unusable .tooLarge) := rfl
  have hmap : ((Store.ofMap : Store _ _ Nat LockError).run [] setThenGet fun _ _ => none).outcome = .ok 1 := rfl
  rw [hcache, hmap]
  nofun

end Cache

end StartNodes
