import StartNodes.Proofs.Cache.Computed

/-!
The caches that come of an empty one, whatever the caller and others beside it have done to it, in any order: entries are
made, written and dropped, locks are taken, also by who holds them, and released. In such a cache no two principals have
entries of one stamp, so a lock is that of one principal; and a lock that is held has been taken, so locks can be waited
for.
-/

namespace StartNodes

variable {V E : Type}

namespace Entry

theorem exists_put_eq (e : Entry V) (slot : String) (value : V) : ∃ slots, e.put slot value = { e with slots } := by
  unfold put
  split
  · exact ⟨_, rfl⟩
  · exact ⟨_, rfl⟩

end Entry

namespace Cache

variable {c c' : Cache V} {p : PrincipalKey} {e : Entry V} {slot : String}

/-- The lock of an entry has been taken; `release` is the way back. -/
def take (c : Cache V) (who : Holder) (stamp : Nat) : Cache V :=
  match who with
  | .here => { c with heldHere := stamp :: c.heldHere }
  | .elsewhere => { c with heldElsewhere := stamp :: c.heldElsewhere }

/-- What anybody may make of an empty cache. Locks are taken where they can be waited for. -/
inductive Reached : Cache V → Prop
  | empty (timeout : LockTimeout) : Reached (empty timeout)
  | renewed {c : Cache V} (h : Reached c) (timeout : LockTimeout) : Reached (c.renew timeout)
  | known {c : Cache V} (h : Reached c) (p : PrincipalKey) : Reached (c.ensure p).2
  | written {c : Cache V} {p : PrincipalKey} {e : Entry V} (h : Reached c) (hentry : c.entry? p = some e)
      (slots : List (String × V)) : Reached (c.update p { e with slots })
  | dropped {c : Cache V} (h : Reached c) (p : PrincipalKey) : Reached (c.discard p)
  | taken {c : Cache V} {p : PrincipalKey} {e : Entry V} (h : Reached c) (ht : c.timeout.fault? = none)
      (hentry : c.entry? p = some e) (who : Holder) : Reached (c.take who e.stamp)
  | released {c : Cache V} (h : Reached c) (who : Holder) (stamp : Nat) : Reached (c.release who stamp)

namespace Reached

theorem put (h : c.Reached) (hentry : c.entry? p = some e) (slot : String) (value : V) :
    (c.update p (e.put slot value)).Reached := by
  obtain ⟨slots, hput⟩ := e.exists_put_eq slot value
  rw [hput]
  exact h.written hentry slots

theorem settle (h : c.Reached) (hentry : c.entry? p = some e) (slots : List (String × V)) :
    (c.settle p { e with slots }).Reached := by
  unfold Cache.settle
  split
  · exact h.dropped p
  · exact h.written hentry slots

theorem applied (h : c.Reached) {op : Operation V} {answer : Except LockError (Answer V)}
    (happlied : c.Applied op answer c') : c'.Reached := by
  cases happlied with
  | get | contains | forgetRefused | forgetMissing _ | forgetPrincipalRefused | forgetPrincipalMissing _ => exact h
  | setRefused => exact h.known _
  | set => exact (h.known _).put (entry_ensure_self ..) _ _
  | forget hentry => exact h.settle hentry _
  | forgetPrincipal _ => exact h.dropped _

/-- A computation begins with its principal known, and takes the lock if there is something to compute. -/
theorem begin (h : c.Reached) (who : Holder) (p : PrincipalKey) (slot : String) : (c.begin who p slot).2.Reached := by
  have hknown := h.known p
  have hentry := c.entry_ensure_self p
  unfold Cache.begin
  dsimp only
  split
  · exact hknown
  next hfree =>
    split
    · exact hknown
    have ht : (c.ensure p).2.timeout.fault? = none := by
      cases hfault : (c.ensure p).2.timeout.fault? with
      | none => rfl
      | some f => cases (lockError?_of_fault hfault who p _).symm.trans hfree
    have htaken := hknown.taken ht hentry who
    cases who with
    | here => exact htaken
    | elsewhere => exact htaken

theorem begun {lift : LockError → E} {beginning : Except E V ⊕ Nat} (h : c.Reached)
    (hbegin : (Store.ofCache lift).begin c p slot = (beginning, c')) : c'.Reached := by
  have hreached := h.begin .here p slot
  rwa [← Store.after_begin lift, hbegin] at hreached

theorem finish (h : c.Reached) (who : Holder) (p : PrincipalKey) (stamp : Nat) (slot : String)
    (outcome : Except E V) : (c.finish who p stamp slot outcome).Reached := by
  cases outcome with
  | error err => exact h.released who stamp
  | ok value =>
      refine released ?_ who stamp
      obtain ⟨e, hentry, _, hstore⟩ | ⟨_, hstore⟩ := c.store_cases p stamp slot value
      · rw [hstore]
        exact h.put hentry slot value
      · rw [hstore]
        exact h

end Reached

/-! ### Order among locks -/

/-- Each stamp is that of one principal's entry, and what is held can be waited for. -/
structure Orderly (c : Cache V) : Prop extends c.Stamped where
  distinct : ∀ p q e f, c.entry? p = some e → c.entry? q = some f → e.stamp = f.stamp → p = q
  waitable : c.heldElsewhere ≠ [] → c.timeout.fault? = none

namespace Orderly

/-- Where no entry has been made, each stamp stays with its principal. -/
theorem aged (hc : c.Orderly) (hages : c.Ages c') (hnext : c'.nextStamp = c.nextStamp) : c'.Orderly where
  toStamped := hages.stamped hc.toStamped
  distinct p q e' f' hentry hother hsame := by
    have hold : ∀ p e', c'.entry? p = some e' → ∃ e, c.entry? p = some e ∧ e.stamp = e'.stamp := by
      intro p e' hentry
      refine (hages.stamps p e' hentry).resolve_right fun hmade => ?_
      omega
    obtain ⟨e, he, hstamp⟩ := hold p e' hentry
    obtain ⟨f, hf, hstamp'⟩ := hold q f' hother
    exact hc.distinct p q e f he hf (by omega)
  waitable hheld := by
    rw [hages.timeout]
    exact hc.waitable (hages.heldElsewhere ▸ hheld)

theorem ensure (hc : c.Orderly) (p : PrincipalKey) : (c.ensure p).2.Orderly := by
  have hages := c.ensure_ages p
  cases hentry : c.entry? p with
  | some e =>
      rw [ensure_of_found hentry]
      exact hc
  | none =>
      have hmade : (c.ensure p).1.stamp = c.nextStamp := by
        unfold Cache.ensure
        rw [hentry]
      -- the new stamp is that of `p`, and every other entry is as it was
      have hnew : ∀ q e, Cache.entry? (c.ensure p).2 q = some e → q = p ∧ e.stamp = c.nextStamp ∨
          c.entry? q = some e ∧ e.stamp < c.nextStamp := by
        intro q e he
        by_cases hq : q = p
        · subst hq
          cases (c.entry_ensure_self q).symm.trans he
          exact Or.inl ⟨rfl, hmade⟩
        · have hold : c.entry? q = some e := (entry_ensure_of_ne hq).symm.trans he
          exact Or.inr ⟨hold, hc.entries q e hold⟩
      refine ⟨hages.stamped hc.toStamped, fun q r e f he hf hsame => ?_, fun hheld => ?_⟩
      · rcases hnew q e he with ⟨hq, hstamp⟩ | ⟨hold, hlt⟩ <;> rcases hnew r f hf with ⟨hr, hstamp'⟩ | ⟨hold', hlt'⟩
        · exact hq.trans hr.symm
        · omega
        · omega
        · exact hc.distinct q r e f hold hold' hsame
      · rw [hages.timeout]
        exact hc.waitable (hages.heldElsewhere ▸ hheld)

theorem take (hc : c.Orderly) (ht : c.timeout.fault? = none) (hentry : c.entry? p = some e) (who : Holder) :
    (c.take who e.stamp).Orderly := by
  cases who with
  | here => exact ⟨⟨hc.entries, hc.heldElsewhere⟩, hc.distinct, hc.waitable⟩
  | elsewhere =>
      refine ⟨⟨hc.entries, fun stamp hmem => ?_⟩, hc.distinct, fun _ => ht⟩
      rcases List.mem_cons.mp hmem with rfl | hmem
      · exact hc.entries p e hentry
      · exact hc.heldElsewhere stamp hmem

theorem release (hc : c.Orderly) (who : Holder) (stamp : Nat) : (c.release who stamp).Orderly := by
  refine ⟨hc.toStamped.release who stamp, ?_, ?_⟩
  · cases who with
    | here => exact hc.distinct
    | elsewhere => exact hc.distinct
  · cases who with
    | here => exact hc.waitable
    | elsewhere =>
        intro hheld
        refine hc.waitable fun hnone => hheld ?_
        show c.heldElsewhere.erase stamp = []
        rw [hnone]
        rfl

end Orderly

theorem Reached.orderly (h : c.Reached) : c.Orderly := by
  induction h with
  | empty timeout => exact ⟨stamped_empty timeout, nofun, fun hheld => absurd rfl hheld⟩
  | renewed _ timeout _ => exact ⟨⟨nofun, nofun⟩, nofun, fun hheld => absurd rfl hheld⟩
  | known _ p ih => exact ih.ensure p
  | written _ hentry slots ih => exact ih.aged (update_ages hentry rfl) rfl
  | dropped _ p ih => exact ih.aged (discard_ages _ p) rfl
  | taken _ ht hentry who ih => exact ih.take ht hentry who
  | released _ who stamp ih => exact ih.release who stamp

end Cache

end StartNodes
