import StartNodes.Proofs.Cache.Slots

/-!
What forgetting does to a cache, also while locks are held beside the caller. Slots are forgotten one after the other. A
principal without an entry has no lock to wait for, so the first principal with an entry whose lock is held elsewhere
ends it, and what was forgotten before stays forgotten. Entries are dropped as soon as they are left without slots; none
is made.
-/

namespace StartNodes

/-- A double that is equal to an integer is below zero if the integer is. -/
theorem Decimal.Binary64.isBelowZero_of_toInt? {x : Binary64} {n : Int} (h : x.toInt? = some n) (hn : n < 0) :
    x.isBelowZero = true := by
  cases x with
  | nan => cases h
  | infinite negative => cases h
  | finite negative mantissa exponent =>
      unfold toInt? at h
      simp only at h
      split at h
      · cases negative with
        | false =>
            have hnonneg := Int.natCast_nonneg ((scale 2 mantissa exponent).1 / (scale 2 mantissa exponent).2)
            simp only [Bool.false_eq_true, if_false, Option.some.injEq] at h
            rw [h] at hnonneg
            omega
        | true =>
            rw [isBelowZero, Bool.true_and, bne_iff_ne]
            rintro rfl
            simp [scale] at h
            omega
      · cases h

/-- A number that is not below zero is not the number that stands for no limit. -/
theorem LockTimeout.isUnlimited_eq_false {t : LockTimeout} (h : t.isBelowZero = false) : t.isUnlimited = false := by
  cases t with
  | whole n =>
      simp only [isBelowZero, isUnlimited, decide_eq_false_iff_not, beq_eq_false_iff_ne] at h ⊢
      omega
  | seconds x =>
      rw [isUnlimited, beq_eq_false_iff_ne]
      intro hx
      cases h.symm.trans (Decimal.Binary64.isBelowZero_of_toInt? hx (by decide))

namespace Cache

variable {V : Type} {c c' : Cache V} {p q : PrincipalKey} {slot : String} {rows : List (PrincipalKey × String)}

/-- Whether a principal has an entry whose lock somebody beside the caller holds. -/
def isHeldElsewhere (c : Cache V) (p : PrincipalKey) : Bool :=
  (c.entry? p).any fun e => c.isBlocked .here e.stamp

theorem isHeldElsewhere_of_found {e : Entry V} (h : c.entry? p = some e) :
    c.isHeldElsewhere p = c.isBlocked .here e.stamp := by
  rw [isHeldElsewhere, h, Option.any_some]

theorem Usable.isHeldElsewhere (hc : c.Usable) (p : PrincipalKey) : c.isHeldElsewhere p = false := by
  cases hentry : c.entry? p with
  | none => rw [Cache.isHeldElsewhere, hentry, Option.any_none]
  | some e =>
      rw [isHeldElsewhere_of_found hentry, isBlocked, hc.free]
      rfl

theorem exists_of_isHeldElsewhere (h : c.isHeldElsewhere p = true) :
    ∃ e, c.entry? p = some e ∧ c.isBlocked .here e.stamp = true :=
  Option.any_eq_true _ _ |>.mp h

/-- A lock that nobody else holds is taken, if locks can be waited for. -/
theorem lockError?_of_free (ht : c.timeout.fault? = none) {e : Entry V} (h : c.entry? p = some e)
    (hfree : c.isHeldElsewhere p = false) : c.lockError? .here p e = none := by
  rw [isHeldElsewhere_of_found h] at hfree
  rw [lockError?, ht]
  simp only [hfree, Bool.false_eq_true, if_false]

/-- Waiting for a lock that is held elsewhere ends with the time. -/
theorem lockError?_of_held (ht : c.timeout.fault? = none) (hlimit : c.timeout.isUnlimited = false) {e : Entry V}
    (h : c.entry? p = some e) (hheld : c.isHeldElsewhere p = true) : c.lockError? .here p e = some (.timedOut p) := by
  rw [isHeldElsewhere_of_found h] at hheld
  rw [lockError?, ht]
  simp only [hheld, hlimit, if_true, Bool.false_eq_true, if_false]

/-! ### One slot -/

/-- The values of the second cache are those of the first outside some slots, which are empty. -/
structure Drops (c c' : Cache V) (rows : List (PrincipalKey × String)) : Prop where
  timeout : c'.timeout = c.timeout
  heldElsewhere : c'.heldElsewhere = c.heldElsewhere
  dropped : ∀ q slot, (q, slot) ∈ rows → c'.peek? q slot = none
  kept : ∀ q slot, (q, slot) ∉ rows → c'.peek? q slot = c.peek? q slot

theorem Drops.usable {rows : List (PrincipalKey × String)} (h : c.Drops c' rows) (hc : c.Usable) : c'.Usable :=
  ⟨h.timeout ▸ hc.timeout, h.heldElsewhere ▸ hc.free⟩

/-- Forgetting some slots: beside their values only entries are lost, and an entry of which something was forgotten is
not left without slots. -/
structure Forgets (c c' : Cache V) (rows : List (PrincipalKey × String)) : Prop extends c.Drops c' rows where
  /-- No entry is made, and none is exchanged for another. -/
  stamps : ∀ q e', c'.entry? q = some e' → ∃ e, c.entry? q = some e ∧ e.stamp = e'.stamp
  spared : ∀ q, (∀ slot, (q, slot) ∉ rows) → c'.entry? q = c.entry? q
  settled : ∀ q slot, (q, slot) ∈ rows → ∀ e', c'.entry? q = some e' → e'.slots ≠ []

theorem Forgets.refl (c : Cache V) : c.Forgets c [] :=
  ⟨⟨rfl, rfl, nofun, fun _ _ _ => rfl⟩, fun _ e' h => ⟨e', h, rfl⟩, fun _ _ => rfl, nofun⟩

theorem Forgets.isHeldElsewhere (h : c.Forgets c' rows) (hfree : c.isHeldElsewhere q = false) :
    c'.isHeldElsewhere q = false := by
  cases hentry' : c'.entry? q with
  | none => rw [Cache.isHeldElsewhere, hentry', Option.any_none]
  | some e' =>
      obtain ⟨e, hentry, hstamp⟩ := h.stamps q e' hentry'
      rw [isHeldElsewhere_of_found hentry] at hfree
      rwa [isHeldElsewhere_of_found hentry', isBlocked, h.heldElsewhere, ← hstamp]

/-- Forgetting goes on where forgetting has ended. -/
theorem Forgets.append {c'' : Cache V} {rows' : List (PrincipalKey × String)} (h : c.Forgets c' rows)
    (h' : c'.Forgets c'' rows') : c.Forgets c'' (rows ++ rows') where
  timeout := h'.timeout.trans h.timeout
  heldElsewhere := h'.heldElsewhere.trans h.heldElsewhere
  dropped q slot hmem := by
    by_cases hlast : (q, slot) ∈ rows'
    · exact h'.dropped q slot hlast
    · rw [h'.kept q slot hlast]
      exact h.dropped q slot ((List.mem_append.mp hmem).resolve_right hlast)
  kept q slot hmem := by
    rw [List.mem_append, not_or] at hmem
    rw [h'.kept q slot hmem.2, h.kept q slot hmem.1]
  stamps q e'' hentry'' := by
    obtain ⟨e', hentry', hstamp'⟩ := h'.stamps q e'' hentry''
    obtain ⟨e, hentry, hstamp⟩ := h.stamps q e' hentry'
    exact ⟨e, hentry, hstamp.trans hstamp'⟩
  spared q hspared := by
    simp only [List.mem_append, not_or] at hspared
    rw [h'.spared q fun slot => (hspared slot).2, h.spared q fun slot => (hspared slot).1]
  settled q slot hmem e'' hentry'' := by
    -- what is forgotten last settles the entry; where that is nothing of `q`, the entry is as it was settled before
    by_cases hlast : ∃ other, (q, other) ∈ rows'
    · obtain ⟨other, hother⟩ := hlast
      exact h'.settled q other hother e'' hentry''
    · rw [not_exists] at hlast
      rw [h'.spared q hlast] at hentry''
      exact h.settled q slot ((List.mem_append.mp hmem).resolve_right (hlast slot)) e'' hentry''

theorem forgets_of_missing (h : c.entry? p = none) (slot : String) : c.Forgets c [(p, slot)] where
  timeout := rfl
  heldElsewhere := rfl
  dropped q other hrow := by
    cases List.mem_singleton.mp hrow
    exact peek?_of_missing h slot
  kept _ _ _ := rfl
  stamps _ e' hentry' := ⟨e', hentry', rfl⟩
  spared _ _ := rfl
  settled q other hrow e' hentry' := by
    cases List.mem_singleton.mp hrow
    cases h.symm.trans hentry'

theorem settle_forgets {e : Entry V} (h : c.entry? p = some e) (slot : String) :
    c.Forgets (c.settle p (e.drop slot)) [(p, slot)] where
  timeout := c.timeout_settle ..
  heldElsewhere := c.heldElsewhere_settle ..
  dropped q other hrow := by
    cases List.mem_singleton.mp hrow
    rw [peek?_settle_self h, Entry.get?_drop_self]
  kept q other hrow := by
    by_cases hq : q = p
    · subst hq
      have hslot : other ≠ slot := by
        rintro rfl
        exact hrow (List.mem_singleton_self _)
      rw [peek?_settle_self h, Entry.get?_drop_of_ne e hslot, peek?_of_found h]
    · exact peek?_settle_of_ne hq _ other
  stamps q e' hentry' := by
    by_cases hq : q = p
    · subst hq
      rw [entry_settle_self h] at hentry'
      split at hentry'
      · cases hentry'
      · cases hentry'
        exact ⟨e, h, rfl⟩
    · exact ⟨e', (entry_settle_of_ne hq _).symm.trans hentry', rfl⟩
  spared q hspared := by
    refine entry_settle_of_ne ?_ _
    rintro rfl
    exact hspared slot (List.mem_singleton_self _)
  settled q other hrow e' hentry' := by
    cases List.mem_singleton.mp hrow
    exact slots_ne_nil_of_settle h hentry'

theorem forget_forgets (ht : c.timeout.fault? = none) (hfree : c.isHeldElsewhere p = false) (slot : String) :
    ∃ c', c.forget p slot = (.ok (), c') ∧ c.Forgets c' [(p, slot)] := by
  cases hentry : c.entry? p with
  | none => exact ⟨c, forget_of_missing hentry slot, forgets_of_missing hentry slot⟩
  | some e =>
      have hforget : c.forget p slot = (.ok (), c.settle p (e.drop slot)) := by
        unfold forget
        simp only [hentry, lockError?_of_free ht hentry hfree]
      exact ⟨_, hforget, settle_forgets hentry slot⟩

theorem forget_of_held (ht : c.timeout.fault? = none) (hlimit : c.timeout.isUnlimited = false)
    (hheld : c.isHeldElsewhere p = true) (slot : String) : c.forget p slot = (.error (.timedOut p), c) := by
  obtain ⟨e, hentry, -⟩ := exists_of_isHeldElsewhere hheld
  unfold forget
  simp only [hentry, lockError?_of_held ht hlimit hentry hheld]

/-! ### Slots one after the other -/

theorem forgetAll_of_fault {f : LockTimeout.Fault} (h : c.timeout.fault? = some f)
    (rows : List (PrincipalKey × String)) : (c.forgetAll rows).2 = c := by
  induction rows with
  | nil => rfl
  | cons row rows ih =>
      have hforget := forget_of_fault h row.1 row.2
      unfold forgetAll
      cases hfirst : c.forget row.1 row.2 with
      | mk outcome c' =>
          rw [hfirst] at hforget
          cases hforget
          cases outcome with
          | error err => rfl
          | ok => exact ih

theorem forgetAll_append_of_ok {rows' : List (PrincipalKey × String)} (h : c.forgetAll rows = (.ok (), c')) :
    c.forgetAll (rows ++ rows') = c'.forgetAll rows' := by
  induction rows generalizing c with
  | nil =>
      cases h
      rfl
  | cons row rows ih =>
      rw [forgetAll] at h
      rw [List.cons_append, forgetAll]
      cases hfirst : c.forget row.1 row.2 with
      | mk outcome c₁ =>
          rw [hfirst] at h
          cases outcome with
          | error err => cases h
          | ok => exact ih h

theorem forgetAll_forgets (ht : c.timeout.fault? = none) (rows : List (PrincipalKey × String))
    (hfree : ∀ row ∈ rows, c.isHeldElsewhere row.1 = false) :
    ∃ c', c.forgetAll rows = (.ok (), c') ∧ c.Forgets c' rows := by
  induction rows generalizing c with
  | nil => exact ⟨c, rfl, .refl c⟩
  | cons row rows ih =>
      rw [List.forall_mem_cons] at hfree
      obtain ⟨c₁, hfirst, hforgets₁⟩ := forget_forgets ht hfree.1 row.2
      obtain ⟨c₂, hrest, hforgets₂⟩ :=
        ih (hforgets₁.timeout ▸ ht) fun other hother => hforgets₁.isHeldElsewhere (hfree.2 other hother)
      have hall : c.forgetAll (row :: rows) = (.ok (), c₂) := by
        rw [forgetAll, hfirst]
        exact hrest
      exact ⟨c₂, hall, hforgets₁.append hforgets₂⟩

/-- The first principal whose lock is held elsewhere ends the forgetting. -/
theorem forgetAll_up_to_held (ht : c.timeout.fault? = none) (hlimit : c.timeout.isUnlimited = false)
    (rows : List (PrincipalKey × String)) (hfree : ∀ row ∈ rows, c.isHeldElsewhere row.1 = false)
    (hheld : c.isHeldElsewhere p = true) (slot : String) (rest : List (PrincipalKey × String)) :
    ∃ c', c.forgetAll (rows ++ (p, slot) :: rest) = (.error (.timedOut p), c') ∧ c.Forgets c' rows := by
  obtain ⟨c', hrows, hforgets⟩ := forgetAll_forgets ht rows hfree
  have hspared : ∀ other, (p, other) ∉ rows := by
    intro other hmem
    rw [hfree _ hmem] at hheld
    cases hheld
  -- nothing of `p` has been forgotten, so its lock is held as it was
  have hheld' : c'.isHeldElsewhere p = true := by
    obtain ⟨e, hentry, hblocked⟩ := exists_of_isHeldElsewhere hheld
    rwa [isHeldElsewhere_of_found ((hforgets.spared p hspared).trans hentry), isBlocked, hforgets.heldElsewhere]
  refine ⟨c', ?_, hforgets⟩
  rw [forgetAll_append_of_ok hrows, forgetAll,
    forget_of_held (hforgets.timeout ▸ ht) (hforgets.timeout ▸ hlimit) hheld' slot]

theorem forgetAll_drops (hc : c.Usable) (rows : List (PrincipalKey × String)) :
    ∃ c', c.forgetAll rows = (.ok (), c') ∧ c.Drops c' rows := by
  obtain ⟨c', hall, hforgets⟩ := forgetAll_forgets hc.timeout rows fun row _ => hc.isHeldElsewhere row.1
  exact ⟨c', hall, hforgets.toDrops⟩

/-! ### Announced changes -/

theorem mem_scopeSlots {kinds : List Hierarchy} {ps : List PrincipalKey} :
    (p, slot) ∈ scopeSlots kinds ps ↔ p ∈ ps ∧ ∃ kind ∈ kinds, slot ∈ kind.slots := by
  simp only [scopeSlots, List.mem_flatMap, List.mem_map, Prod.mk.injEq]
  constructor
  · rintro ⟨_, hp, _, hslot, rfl, rfl⟩
    exact ⟨hp, hslot⟩
  · rintro ⟨hp, hslot⟩
    exact ⟨p, hp, slot, hslot, rfl, rfl⟩

/-- A change drops every slot of the hierarchies, for the principals that it concerns and for no others. -/
theorem invalidate_drops (hc : c.Usable) (kinds : List Hierarchy) (change : Change) :
    ∃ c', c.invalidate kinds change = (.ok (), c') ∧ c.Drops c' (scopeSlots kinds change.principals) :=
  forgetAll_drops hc _

/-- What is left of a cache once a change has been announced to it for some principals. -/
structure Invalidated (c c' : Cache V) (kinds : List Hierarchy) (ps : List PrincipalKey) : Prop where
  peek : ∀ q slot, c'.peek? q slot = if q ∈ ps ∧ ∃ kind ∈ kinds, slot ∈ kind.slots then none else c.peek? q slot
  /-- No entry is made, and none is exchanged for another. -/
  stamps : ∀ q e', c'.entry? q = some e' → ∃ e, c.entry? q = some e ∧ e.stamp = e'.stamp
  spared : ∀ q, q ∉ ps → c'.entry? q = c.entry? q
  settled : ∀ q ∈ ps, ∀ e', c'.entry? q = some e' → e'.slots ≠ []

theorem Forgets.invalidated {kinds : List Hierarchy} (hkinds : kinds ≠ []) {ps : List PrincipalKey}
    (h : c.Forgets c' (scopeSlots kinds ps)) : c.Invalidated c' kinds ps where
  peek q slot := by
    split
    · next hmem => exact h.dropped q slot (mem_scopeSlots.mpr hmem)
    · next hmem => exact h.kept q slot (mt mem_scopeSlots.mp hmem)
  stamps := h.stamps
  spared q hq := h.spared q fun slot hmem => hq (mem_scopeSlots.mp hmem).1
  settled q hq := by
    -- some slot of `q` has been forgotten, whichever hierarchy comes first
    obtain ⟨kind, hkind⟩ := List.exists_mem_of_ne_nil kinds hkinds
    exact h.settled q kind.idsSlot (mem_scopeSlots.mpr ⟨hq, kind, hkind, kind.idsSlot_mem_slots⟩)

theorem scopeSlots_append (kinds : List Hierarchy) (ps qs : List PrincipalKey) :
    scopeSlots kinds (ps ++ qs) = scopeSlots kinds ps ++ scopeSlots kinds qs :=
  List.flatMap_append

theorem exists_scopeSlots_cons {kinds : List Hierarchy} (hkinds : kinds ≠ []) (p : PrincipalKey)
    (ps : List PrincipalKey) : ∃ slot rest, scopeSlots kinds (p :: ps) = (p, slot) :: rest := by
  obtain ⟨kind, others, rfl⟩ := List.exists_cons_of_ne_nil hkinds
  exact ⟨_, _, rfl⟩

/-- An announced change is carried out for each principal that it names, or up to the first whose lock is held
elsewhere; the change of a single principal is that of a group with one member. -/
theorem invalidate_up_to_held (c : Cache V) (hzero : c.timeout.isBelowZero = false) (ht : c.timeout.fault? = none)
    {kinds : List Hierarchy} (hkinds : kinds ≠ []) (change : Change) :
    ((∀ q ∈ change.principals, c.isHeldElsewhere q = false) →
        ∃ c', c.invalidate kinds change = (.ok (), c') ∧ c.Invalidated c' kinds change.principals) ∧
      (∀ before p after, change.principals = before ++ p :: after → (∀ q ∈ before, c.isHeldElsewhere q = false) →
        c.isHeldElsewhere p = true → p ∉ before ∧
          ∃ c', c.invalidate kinds change = (.error (.timedOut p), c') ∧ c.Invalidated c' kinds before) ∧
      ∀ p aliasName aliases,
        c.invalidate kinds (.startNodes p) = c.invalidate kinds (.groupStartNodes aliasName [p]) ∧
          c.invalidate kinds (.groups p aliases) = c.invalidate kinds (.groupStartNodes aliasName [p]) := by
  refine ⟨fun hfree => ?_, fun before p after hsplit hfree hheld => ⟨fun hmem => ?_, ?_⟩, fun _ _ _ => ⟨rfl, rfl⟩⟩
  · obtain ⟨c', hall, hforgets⟩ := forgetAll_forgets ht (scopeSlots kinds change.principals) fun row hrow =>
      hfree row.1 (mem_scopeSlots.mp hrow).1
    exact ⟨c', hall, hforgets.invalidated hkinds⟩
  · rw [hfree p hmem] at hheld
    cases hheld
  · obtain ⟨slot, rest, hfirst⟩ := exists_scopeSlots_cons hkinds p after
    have hrows : ∀ row ∈ scopeSlots kinds before, c.isHeldElsewhere row.1 = false := fun row hrow =>
      hfree row.1 (mem_scopeSlots.mp hrow).1
    obtain ⟨c', hall, hforgets⟩ :=
      forgetAll_up_to_held ht (LockTimeout.isUnlimited_eq_false hzero) (scopeSlots kinds before) hrows hheld slot rest
    refine ⟨c', ?_, hforgets.invalidated hkinds⟩
    rw [invalidate, hsplit, scopeSlots_append, hfirst, hall]

/-- Three principals have entries, and the lock of the second is held elsewhere. -/
def contended : Cache Nat where
  timeout := .whole 0
  entries := [(.number 1, ⟨0, [("content_start_node_ids", 5), ("other", 6)]⟩),
    (.number 2, ⟨1, [("media_start_node_ids", 7)]⟩), (.number 3, ⟨2, [("content_start_node_paths", 8)]⟩)]
  nextStamp := 3
  heldElsewhere := [1]

theorem invalidate_up_to_held_contended :
    let change : Change := .groupStartNodes "editors" [.number 3, .number 9, .number 3, .number 2, .number 1]
    contended.timeout.isBelowZero = false ∧ contended.timeout.fault? = none ∧
      [Hierarchy.media, .content] ≠ [] ∧
      change.principals = [.number 3, .number 9, .number 3] ++ .number 2 :: [.number 1] ∧
      (∀ q ∈ [PrincipalKey.number 3, .number 9, .number 3], contended.isHeldElsewhere q = false) ∧
      contended.isHeldElsewhere (.number 2) = true ∧
      ∃ c', contended.invalidate [.media, .content] change = (.error (.timedOut (.number 2)), c') ∧
        contended.Invalidated c' [.media, .content] [.number 3, .number 9, .number 3] := by
  intro change
  have hfree : ∀ q ∈ [PrincipalKey.number 3, .number 9, .number 3], contended.isHeldElsewhere q = false := by decide
  have hheld : contended.isHeldElsewhere (.number 2) = true := by decide
  obtain ⟨-, hstops, -⟩ := invalidate_up_to_held contended (by decide) (by decide)
    (List.cons_ne_nil Hierarchy.media [.content]) change
  exact ⟨by decide, by decide, List.cons_ne_nil _ _, rfl, hfree, hheld, (hstops _ _ _ rfl hfree hheld).2⟩

/-- A number of seconds that is not below zero and cannot be waited for. A write that it refuses leaves an entry, and
with it every announcement is refused, though nobody holds a lock. -/
theorem invalidate_of_unusable_timeout :
    let c := ((Cache.empty (.whole 9223372037) : Cache Nat).set (.number 1) "content_start_node_ids" 5).2
    c.timeout.isBelowZero = false ∧ (∀ q, c.isHeldElsewhere q = false) ∧
      (c.invalidate [.content, .media] (.startNodes (.number 1))).1 = .error (.unusable .tooLarge) := by
  intro c
  refine ⟨by decide, fun q => ?_, by decide⟩
  cases hentry : c.entry? q with
  | none => rw [isHeldElsewhere, hentry, Option.any_none]
  | some e => exact isHeldElsewhere_of_found hentry

end Cache

end StartNodes
