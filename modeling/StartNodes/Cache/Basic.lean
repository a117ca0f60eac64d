import StartNodes.Cache.Timeout

/-!
A cache of computed values: for each principal an entry, and in it named slots. An entry is made when a slot is
written or a computation begins, and dropped when forgetting leaves it empty; one that is made anew is another entry,
with another stamp. Each entry has a lock, which a computation holds from its beginning to its end and which the holder
may take again. A value that has been computed goes to the entry with which its computation began.

Waiting for a lock that is held elsewhere ends in an error; the state records who holds which locks. The message of the
error names the principal in full, however long its number is, and of what is logged nothing is said.
-/

namespace StartNodes

inductive PrincipalKey where
  | number (n : Int)
  | text (s : String)
  deriving DecidableEq, Repr

def PrincipalKey.shown : PrincipalKey → String
  | .number n => Decimal.ofInt n
  | .text s => s

/-- Who takes a lock: the caller, or somebody else beside it. -/
inductive Holder where
  | here
  | elsewhere
  deriving DecidableEq, Repr

inductive LockError where
  | timedOut (p : PrincipalKey)
  /-- The lock is held elsewhere and there is no limit to the waiting. -/
  | endless (p : PrincipalKey)
  /-- The timeout is no number of seconds that can be waited for. -/
  | unusable (f : LockTimeout.Fault)
  deriving DecidableEq, Repr

def LockError.message : LockError → String
  | .timedOut p => s!"Timed out waiting for cache lock of principal {p.shown}"
  | .endless p => s!"Waiting without limit for cache lock of principal {p.shown}"
  | .unusable f => f.message

structure Entry (V : Type) where
  /-- Tells this entry from every other that has been made. -/
  stamp : Nat
  slots : List (String × V) := []

namespace Entry

variable {V : Type}

def get? (e : Entry V) (slot : String) : Option V :=
  e.slots.lookup slot

def has (e : Entry V) (slot : String) : Bool :=
  (e.get? slot).isSome

def put (e : Entry V) (slot : String) (value : V) : Entry V :=
  if e.has slot then
    { e with slots := e.slots.map fun s => if s.1 == slot then (slot, value) else s }
  else { e with slots := e.slots ++ [(slot, value)] }

def drop (e : Entry V) (slot : String) : Entry V :=
  { e with slots := e.slots.filter fun s => s.1 != slot }

end Entry

structure Cache (V : Type) where
  timeout : LockTimeout
  /-- The registry: the entries, in the order in which they were made. -/
  entries : List (PrincipalKey × Entry V) := []
  /-- The stamp of the next entry. -/
  nextStamp : Nat := 0
  /-- The entries whose locks the caller holds, once for each time it has taken one. -/
  heldHere : List Nat := []
  /-- The entries whose locks are held beside the caller. -/
  heldElsewhere : List Nat := []

namespace Cache

variable {V : Type}

def empty (timeout : LockTimeout) : Cache V :=
  { timeout }

/-- An empty cache in place of another. Computations that began in the old one do not write to the new one, as no stamp
is used twice. -/
def renew (c : Cache V) (timeout : LockTimeout) : Cache V :=
  { timeout, nextStamp := c.nextStamp }

def size (c : Cache V) : Nat :=
  c.entries.length

def entry? (c : Cache V) (p : PrincipalKey) : Option (Entry V) :=
  c.entries.lookup p

/-- The value of a slot, whoever holds the lock. -/
def peek? (c : Cache V) (p : PrincipalKey) (slot : String) : Option V :=
  (c.entry? p).bind fun e => e.get? slot

/-- The cache with another entry for a principal that has one. -/
def update (c : Cache V) (p : PrincipalKey) (e : Entry V) : Cache V :=
  { c with entries := c.entries.map fun row => if row.1 == p then (p, e) else row }

def discard (c : Cache V) (p : PrincipalKey) : Cache V :=
  { c with entries := c.entries.filter fun row => row.1 != p }

/-- The entry of a principal, made if it is not there. -/
def ensure (c : Cache V) (p : PrincipalKey) : Entry V × Cache V :=
  match c.entry? p with
  | some e => (e, c)
  | none =>
      let e : Entry V := { stamp := c.nextStamp }
      (e, { c with entries := c.entries ++ [(p, e)], nextStamp := c.nextStamp + 1 })

/-- Whether somebody other than the one who asks holds the lock of an entry. -/
def isBlocked (c : Cache V) (who : Holder) (stamp : Nat) : Bool :=
  match who with
  | .here => c.heldElsewhere.contains stamp
  | .elsewhere => c.heldElsewhere.contains stamp || c.heldHere.contains stamp

/-- Why the lock of a principal's entry is not taken, if it is not. -/
def lockError? (c : Cache V) (who : Holder) (p : PrincipalKey) (e : Entry V) : Option LockError :=
  match c.timeout.fault? with
  | some f => some (.unusable f)
  | none =>
      if c.isBlocked who e.stamp then
        some (if c.timeout.isUnlimited then .endless p else .timedOut p)
      else none

/-! ### Single operations -/

def get (c : Cache V) (p : PrincipalKey) (slot : String) : Except LockError (Option V) :=
  match c.entry? p with
  | none => .ok none
  | some e =>
      match c.lockError? .here p e with
      | some err => .error err
      | none => .ok (e.get? slot)

def contains (c : Cache V) (p : PrincipalKey) (slot : String) : Except LockError Bool :=
  (c.get p slot).map Option.isSome

def set (c : Cache V) (p : PrincipalKey) (slot : String) (value : V) : Except LockError Unit × Cache V :=
  let (e, c) := c.ensure p
  match c.lockError? .here p e with
  | some err => (.error err, c)
  | none => (.ok (), c.update p (e.put slot value))

/-- Leaves a principal with some slots, or without an entry if no slots are left. -/
def settle (c : Cache V) (p : PrincipalKey) (e : Entry V) : Cache V :=
  if e.slots.isEmpty then c.discard p else c.update p e

/-- Removes a slot; what is not there is ignored. -/
def forget (c : Cache V) (p : PrincipalKey) (slot : String) : Except LockError Unit × Cache V :=
  match c.entry? p with
  | none => (.ok (), c)
  | some e =>
      match c.lockError? .here p e with
      | some err => (.error err, c)
      | none => (.ok (), c.settle p (e.drop slot))

def forgetPrincipal (c : Cache V) (p : PrincipalKey) : Except LockError Unit × Cache V :=
  match c.entry? p with
  | none => (.ok (), c)
  | some e =>
      match c.lockError? .here p e with
      | some err => (.error err, c)
      | none => (.ok (), c.discard p)

/-! ### Computations -/

/-- How a computation of a slot begins: with the value that is there, or with the lock taken on the entry of the
given stamp. -/
inductive Beginning (V : Type) where
  | hit (value : V)
  | miss (stamp : Nat)

def begin (c : Cache V) (who : Holder) (p : PrincipalKey) (slot : String) :
    Except LockError (Beginning V) × Cache V :=
  let (e, c) := c.ensure p
  match c.lockError? who p e with
  | some err => (.error err, c)
  | none =>
      match e.get? slot with
      | some value => (.ok (.hit value), c)
      | none =>
          (.ok (.miss e.stamp),
            match who with
            | .here => { c with heldHere := e.stamp :: c.heldHere }
            | .elsewhere => { c with heldElsewhere := e.stamp :: c.heldElsewhere })

def release (c : Cache V) (who : Holder) (stamp : Nat) : Cache V :=
  match who with
  | .here => { c with heldHere := c.heldHere.erase stamp }
  | .elsewhere => { c with heldElsewhere := c.heldElsewhere.erase stamp }

/-- Writes a computed value to the entry with which its computation began. If that entry has been dropped
since, nobody reads it any more, and the value is lost. -/
def store (c : Cache V) (p : PrincipalKey) (stamp : Nat) (slot : String) (value : V) : Cache V :=
  match c.entry? p with
  | some e => if e.stamp == stamp then c.update p (e.put slot value) else c
  | none => c

/-- Ends a computation: a value is stored, a failure is not, and the lock is released. -/
def finish {E : Type} (c : Cache V) (who : Holder) (p : PrincipalKey) (stamp : Nat) (slot : String)
    (outcome : Except E V) : Cache V :=
  match outcome with
  | .ok value => (c.store p stamp slot value).release who stamp
  | .error _ => c.release who stamp

/-- The value of a slot, computed and stored first if it is absent. The factory may use the cache. -/
def getOrCompute {E : Type} (lift : LockError → E) (c : Cache V) (p : PrincipalKey) (slot : String)
    (factory : Cache V → Except E V × Cache V) : Except E V × Cache V :=
  match c.begin .here p slot with
  | (.error err, c) => (.error (lift err), c)
  | (.ok (.hit value), c) => (.ok value, c)
  | (.ok (.miss stamp), c) =>
      let (outcome, c) := factory c
      (outcome, c.finish .here p stamp slot outcome)

end Cache

end StartNodes
