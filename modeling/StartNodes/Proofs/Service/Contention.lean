import StartNodes.Proofs.Cache.Contention
import StartNodes.Proofs.Service.Kept

/-!
Questions about a principal whose lock is held beside the caller. They are refused when the time is over, and the source is
not asked; an answer that could be computed without the cache is not put in place of the refusal. Questions about others
have the answers that they have without the contention.
-/

namespace StartNodes.Service

variable {α β : Type} {s : Service} {c : Cache Json} {key : PrincipalKey} {kind : Hierarchy} {p : Profile}

/-! ### What is refused -/

/-- No report is passed on, as no factory has made one. -/
theorem computeReporting_of_held (hcache : s.cache = some c) (h : c.Contended key) (slot : String)
    (factory : Service → (Except ServiceError Json × α) × Service) :
    computeReporting key slot factory s = ((.error (.lock (.timedOut key)), none), s) := by
  unfold computeReporting
  rw [perform_onCache hcache, h.begin slot, ← hcache]
  rfl

theorem perform_memoize_of_held (hcache : s.cache = some c) (h : c.Contended key) (hp : .number p.userId = key)
    (slot : String) (factory : ServiceM Json) :
    perform (memoize p slot factory) s = (.error (.lock (.timedOut key)), s) := by
  rw [perform_memoize_of_some hcache, perform_compute, perform_onCache hcache, hp, h.begin slot, ← hcache]
  rfl

theorem perform_hasAccess_of_held (hcache : s.cache = some c) (h : c.Contended key) (hp : .number p.userId = key)
    {target : Target} (htarget : target ≠ .entity none) :
    perform (hasAccess kind target (some p)) s = (.error (.lock (.timedOut key)), s) := by
  obtain ⟨path, hpath⟩ : ∃ path, target.path kind = .ok path := by
    cases target with
    | root | bin => exact ⟨_, rfl⟩
    | entity e =>
        cases e with
        | none => exact absurd rfl htarget
        | some e => exact ⟨_, rfl⟩
  rw [perform_hasAccess_of_path hpath, effectiveIds, perform_memoize_of_held hcache h hp]

/-! ### Without the contention -/

/-- The lock of a stamp has been let go by all who held it beside the caller. -/
def letGo (s : Service) (stamp : Nat) : Service :=
  { s with cache := s.cache.map fun c => c.letGo stamp }

theorem letGo_of_cache (hcache : s.cache = some c) (stamp : Nat) :
    s.letGo stamp = { s with cache := some (c.letGo stamp) } := by
  rw [letGo, hcache]
  rfl

/-- Something is answered as if a lock had been let go, and leaves the same but for that lock. -/
def GoesOn (s : Service) (stamp : Nat) (x : ServiceM α) : Prop :=
  perform x (s.letGo stamp) = ((perform x s).1, (perform x s).2.letGo stamp)

/-- What does not concern a principal goes on whoever holds the lock of the principal, and the lock stays that of the
principal. -/
def Undisturbed (key : PrincipalKey) (x : ServiceM α) : Prop :=
  ∀ s c stamp, s.cache = some c → c.Owns key stamp →
    s.GoesOn stamp x ∧ ∃ c', (perform x s).2.cache = some c' ∧ c'.Owns key stamp

theorem Asks.undisturbed {x : ServiceM α} {asked : List Question} (h : Asks kind x asked) : Undisturbed key x := by
  intro s c stamp hcache howns
  rw [GoesOn, h.perform_eq, h.perform_eq]
  exact ⟨rfl, c, hcache, howns⟩

theorem cache_finishSlot {E : Type} (hcache : s.cache = some c) (who : Holder) (p : PrincipalKey) (n : Nat)
    (slot : String) (outcome : Except E Json) :
    (finishSlot who p n slot outcome s).cache = some (c.finish who p n slot outcome) := by
  rw [finishSlot, hcache]
  rfl

theorem finishSlot_letGo {E : Type} (p : PrincipalKey) (n : Nat) (slot : String) (outcome : Except E Json)
    (s : Service) (stamp : Nat) :
    finishSlot .here p n slot outcome (s.letGo stamp) = (finishSlot .here p n slot outcome s).letGo stamp := by
  simp only [finishSlot, letGo, Option.map_map, Function.comp_def, Cache.finish_letGo]

namespace Undisturbed

theorem answer {E : Type} (lift : E → ServiceError) (outcome : Except E α) : Undisturbed key (answer lift outcome) :=
  (Asks.answer lift outcome : Asks .content _ _).undisturbed

theorem bind {x : ServiceM α} {f : α → ServiceM β} (hx : Undisturbed key x) (hf : ∀ a, Undisturbed key (f a)) :
    Undisturbed key (x >>= f) := by
  intro s c stamp hcache howns
  obtain ⟨hfirst, c', hcache', howns'⟩ := hx s c stamp hcache howns
  rw [GoesOn, perform_bind, perform_bind, hfirst]
  cases hperform : perform x s with
  | mk outcome s' =>
      rw [hperform] at hcache'
      cases outcome with
      | error e => exact ⟨rfl, c', hcache', howns'⟩
      | ok a => exact hf a s' c' stamp hcache' howns'

theorem memoize (hp : .number p.userId ≠ key) (slot : String) {factory : ServiceM Json}
    (hfactory : Undisturbed key factory) : Undisturbed key (memoize p slot factory) := by
  intro s c stamp hcache howns
  have hcache' : (s.letGo stamp).cache = some (c.letGo stamp) := by rw [letGo_of_cache hcache]
  have hensure := howns.aged (c.ensure_ages (.number p.userId))
  rw [GoesOn, perform_memoize_of_some hcache, perform_memoize_of_some hcache', perform_compute, perform_compute,
    perform_onCache hcache, perform_onCache hcache', howns.begin_letGo hp]
  obtain ⟨err, hbegin⟩ | ⟨_, ⟨value, _, hbegin⟩ | ⟨_, hbegin⟩⟩ := c.begin_cases (.number p.userId) slot <;>
    rw [hbegin]
  · exact ⟨rfl, _, rfl, hensure⟩
  · exact ⟨rfl, _, rfl, hensure⟩
  · obtain ⟨hperform, c', hcomputed, howns'⟩ :=
      hfactory { s with cache := some (c.begun (.number p.userId)) } _ stamp rfl (howns.aged (c.begun_ages _))
    have hletGo : perform factory { s.letGo stamp with cache := some ((c.begun (.number p.userId)).letGo stamp) } = _ :=
      hperform
    simp only [Except.mapError, hletGo, finishSlot_letGo]
    exact ⟨trivial, _, cache_finishSlot hcomputed .., howns'.aged (c'.finish_ages ..)⟩

end Undisturbed

theorem undisturbed_effectiveIds (hp : .number p.userId ≠ key) : Undisturbed key (effectiveIds kind p) :=
  .memoize hp kind.idsSlot (asks_computeIds kind p).undisturbed

theorem undisturbed_effectivePaths (hp : .number p.userId ≠ key) : Undisturbed key (effectivePaths kind p) :=
  .memoize hp kind.pathsSlot <| (undisturbed_effectiveIds hp).bind (f := storedPaths kind) fun stored =>
    (asks_storedPaths kind stored).undisturbed

theorem undisturbed_hasAccess (hp : .number p.userId ≠ key) (target : Target) :
    Undisturbed key (hasAccess kind target (some p)) :=
  .bind (.answer _ _) fun _ => (undisturbed_effectiveIds hp).bind fun _ => .answer _ _

/-! ### Held up -/

/-- What comes of a lock that the caller cannot take. -/
structure HeldUp (s : Service) (c : Cache Json) (key : PrincipalKey) : Prop where
  /-- No factory is run: there is no report of one. -/
  computations : ∀ {α : Type} slot (factory : Service → (Except ServiceError Json × α) × Service),
    computeReporting key slot factory s = ((.error (.lock (.timedOut key)), none), s)
  ids : ∀ kind p, .number p.userId = key → perform (effectiveIds kind p) s = (.error (.lock (.timedOut key)), s)
  paths : ∀ kind p, .number p.userId = key → perform (effectivePaths kind p) s = (.error (.lock (.timedOut key)), s)
  /-- No target decides access without the start nodes; one without an entity is no target. -/
  access : ∀ kind target p, .number p.userId = key → target ≠ .entity none →
    perform (hasAccess kind target (some p)) s = (.error (.lock (.timedOut key)), s)
  others : ∀ e, c.entry? key = some e → ∀ kind p, .number p.userId ≠ key →
    s.GoesOn e.stamp (effectiveIds kind p) ∧ s.GoesOn e.stamp (effectivePaths kind p) ∧
      ∀ target, s.GoesOn e.stamp (hasAccess kind target (some p))

theorem heldUp_of_contended (hcache : s.cache = some c) (h : c.Contended key) : s.HeldUp c key where
  computations slot factory := computeReporting_of_held hcache h slot factory
  ids kind p hp := perform_memoize_of_held hcache h hp ..
  paths kind p hp := perform_memoize_of_held hcache h hp ..
  access kind target p hp htarget := perform_hasAccess_of_held hcache h hp htarget
  others e hentry kind p hp := by
    have howns := h.reached.orderly.owns hentry
    exact ⟨(undisturbed_effectiveIds hp s c e.stamp hcache howns).1,
      (undisturbed_effectivePaths hp s c e.stamp hcache howns).1,
      fun target => (undisturbed_hasAccess hp target s c e.stamp hcache howns).1⟩

/-- A lock that cannot be taken in time. Whatever is asked about its principal is refused, of the cache and of a service
with that cache; nothing is computed, nothing is changed and the source is not asked. What does not concern the principal
goes on, and a failure that a refusal brings about in the midst of another computation stores nothing. -/
theorem lock_timeout_changes_nothing (key : PrincipalKey) :
    (∀ {V E : Type} (lift : LockError → E) (c : Cache V), c.Contended key → c.HeldUp lift key) ∧
      ∀ (s : Service) (c : Cache Json), s.cache = some c → c.Contended key → s.HeldUp c key :=
  ⟨fun lift _ h => h.heldUp lift, fun _ _ hcache h => heldUp_of_contended hcache h⟩

/-- The start nodes of principal 7 are kept, and somebody else is computing their paths. -/
def besieged : Cache Json :=
  let kept := ((Cache.empty (.whole 0)).set (.number 7) Hierarchy.content.idsSlot (Stored.ofIds [5])).2
  (kept.begin .elsewhere (.number 7) Hierarchy.content.pathsSlot).2

/-- Even what is kept is not given. -/
theorem lock_timeout_changes_nothing_besieged :
    let s : Service := { cache := some besieged }
    besieged.Contended (.number 7) ∧ s.cache = some besieged ∧
      besieged.peek? (.number 7) Hierarchy.content.idsSlot = some (Stored.ofIds [5]) ∧
      besieged.apply (.get (.number 7) Hierarchy.content.idsSlot) = (.error (.timedOut (.number 7)), besieged) ∧
      ∀ p : Profile, p.userId = 7 →
        perform (effectiveIds .content p) s = (.error (.lock (.timedOut (.number 7))), s) := by
  intro s
  have hset := (Cache.Reached.empty (.whole 0)).applied
    (Cache.applied_apply _ (.set (.number 7) Hierarchy.content.idsSlot (Stored.ofIds [5])))
  have h : besieged.Contended (.number 7) :=
    ⟨hset.begin .elsewhere (.number 7) Hierarchy.content.pathsSlot, by decide, by decide⟩
  obtain ⟨hcache, hservice⟩ := lock_timeout_changes_nothing (.number 7)
  have hget := (hcache id besieged h).operations (.get (.number 7) Hierarchy.content.idsSlot) rfl
  have hids := (hservice s besieged rfl h).ids .content
  exact ⟨h, rfl, rfl, hget, fun p hp => hids p (congrArg PrincipalKey.number hp)⟩

end StartNodes.Service
