import StartNodes.Service.Basic

/-!
The service's cache: single operations, computations whose factories ask the service for more, and computations beside
the caller that hold a principal's lock while the caller goes on.
-/

namespace StartNodes.Service

def theCache : ServiceM (Cache Json) := do
  match (← get).cache with
  | some c => return c
  | none => throw .noCache

def setCache (c : Cache Json) : ServiceM Unit :=
  modify fun s => { s with cache := some c }

def onCache {α : Type} (f : Cache Json → Except LockError α × Cache Json) : ServiceM α := do
  let (outcome, c) := f (← theCache)
  setCache c
  answer .lock outcome

def cacheGet (p : PrincipalKey) (slot : String) : ServiceM (Option Json) := do
  answer .lock ((← theCache).get p slot)

def cacheSetListed (p : PrincipalKey) (slot : String) (value : Json) : ServiceM Unit := do
  let items ← answer .ofStored (Stored.listed value)
  onCache fun c => c.set p slot (Stored.ofItems items)

/-- The cache, to see what it holds. -/
def holdings : ServiceM (Cache Json) := do
  match (← get).cache with
  | some c => return c
  | none => throw .noHoldings

def cacheContains (p : PrincipalKey) (slot : String) : ServiceM Bool := do
  answer .lock ((← holdings).contains p slot)

def cacheSize : ServiceM Nat := do
  return (← holdings).size

/-- Drops what a change makes stale; without members no cache is needed. -/
def invalidate (kinds : List Hierarchy) (change : Change) : ServiceM Unit := do
  if (Cache.scopeSlots kinds change.principals).isEmpty then return ()
  onCache fun c => c.invalidate kinds change

/-- Ends a computation in the cache that is in place. -/
def finishSlot {E : Type} (who : Holder) (p : PrincipalKey) (stamp : Nat) (slot : String)
    (outcome : Except E Json) (s : Service) : Service :=
  { s with cache := s.cache.map fun c => c.finish who p stamp slot outcome }

/-- The value of a slot, computed and stored first if it is absent. The factory gives, beside its outcome, a report,
which is passed on. -/
def computeReporting {α : Type} (p : PrincipalKey) (slot : String)
    (factory : Service → (Except ServiceError Json × α) × Service) (s : Service) :
    (Except ServiceError Json × Option α) × Service :=
  match perform (onCache fun c => c.begin .here p slot) s with
  | (.error e, s) => ((.error e, none), s)
  | (.ok (.hit value), s) => ((.ok value, none), s)
  | (.ok (.miss stamp), s) =>
      let ((outcome, report), s) := factory s
      ((outcome, some report), finishSlot .here p stamp slot outcome s)

/-- The value of a slot, computed and stored first if it is absent. -/
def compute (p : PrincipalKey) (slot : String) (factory : ServiceM Json) : ServiceM Json :=
  fun s =>
    let (outcome, s) := computeReporting p slot (fun s =>
      let (outcome, s) := perform factory s
      ((outcome, ()), s)) s
    (outcome.1, s)

/-- What a computation beside the caller comes to. -/
structure Held (α : Type) where
  /-- Whether the computation held the lock while the caller went on. -/
  entered : Bool
  outcome : Except ServiceError Json
  /-- What the caller did meanwhile. -/
  meanwhile : α

/-- Computes a slot beside the caller: the computation takes the principal's lock, the caller goes on with `meanwhile`,
and only then the value is stored and the lock released. Where there is nothing to compute, or the lock cannot be
taken, the caller goes on after that. -/
def hold {α : Type} (p : PrincipalKey) (slot : String) (value : Json) (meanwhile : Service → α × Service)
    (s : Service) : Held α × Service :=
  match perform (onCache fun c => c.begin .elsewhere p slot) s with
  | (.error e, s) =>
      let (a, s) := meanwhile s
      (⟨false, .error e, a⟩, s)
  | (.ok (.hit found), s) =>
      let (a, s) := meanwhile s
      (⟨false, .ok found, a⟩, s)
  | (.ok (.miss stamp), s) =>
      let (a, s) := meanwhile s
      (⟨true, .ok value, a⟩, finishSlot .elsewhere p stamp slot (.ok value : Except ServiceError Json) s)

end StartNodes.Service
