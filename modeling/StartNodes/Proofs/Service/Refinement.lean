import StartNodes.Proofs.Service.Runs
import Mathlib.Data.List.Induction

/-!
A service with a cache and the same service without one, side by side. Where every change that matters to a principal
has been announced for it before it is asked about again, the two give the same replies.
-/

namespace StartNodes.Service

/-! ### What has to be announced -/

/-- A step changes what is in the trees, or what a principal declares. -/
def Touches (kinds : List Hierarchy) (s : Service) (step : Step) (name : String) : Prop :=
  (step.run kinds s).2.source ≠ s.source ∨ (step.run kinds s).2.principals.lookup name ≠ s.principals.lookup name

/-- After every step that touched a principal a change has been announced for it. -/
def Announced (kinds : List Hierarchy) (s : Service) (steps : List Step) (name : String) (userId : Int) : Prop :=
  ∀ before step later, steps = before ++ step :: later → Touches kinds (after kinds before s) step name →
    ∃ change, Step.announce change ∈ later ∧ .number userId ∈ change.principals

/-- No two names call principals of one id. -/
def DistinctIds (s : Service) : Prop :=
  ∀ a b p q, s.principals.lookup a = some p → s.principals.lookup b = some q → p.userId = q.userId → a = b

/-! ### Runs keep what is kept fresh -/

variable {kinds : List Hierarchy} {s s' : Service} {step : Step}

/-- The service is ready: the cache refuses nothing, and principals are told apart by their ids. -/
structure Ready (s : Service) : Prop where
  canServe : CanServe s.cache
  distinct : DistinctIds s

theorem Ready.run (h : Ready s) (step : Step) : Ready (step.run kinds s).2 := by
  have heffect := effect_run kinds h.canServe step
  refine ⟨heffect.canServe h.canServe, fun a b p q hp hq hsame => ?_⟩
  obtain ⟨p', hp', hpid⟩ := heffect.exists_of_lookup hp
  obtain ⟨q', hq', hqid⟩ := heffect.exists_of_lookup hq
  exact h.distinct a b p' q' hp' hq' (hpid.trans (hsame.trans hqid.symm))

/-- What is kept for a principal stays fresh in a step that leaves the trees as they are. -/
theorem Effect.fresh (heffect : Effect kinds s step s') (h : Ready s) {name : String} {p : Profile}
    (hp : s.principals.lookup name = some p) (hsource : s'.source = s.source) (hfresh : Fresh s.source s.cache p) :
    Fresh s'.source s'.cache p := by
  rw [hsource]
  cases heffect with
  | edit => exact hfresh
  | revise _ => exact hfresh
  | @announce change _ hdrops =>
      intro c' hc' slot factory value hfill hvalue
      obtain ⟨c, hc, hdrop⟩ := hdrops c' hc'
      by_cases hrow : (PrincipalKey.number p.userId, slot) ∈ Cache.scopeSlots kinds change.principals
      · rw [hdrop.dropped _ slot hrow] at hvalue
        cases hvalue
      · rw [hdrop.kept _ slot hrow] at hvalue
        exact hfresh c hc slot factory value hfill hvalue
  | ask hserved =>
      rcases hserved with rfl | ⟨other, p', hp', hserved, hstays⟩
      · exact hfresh
      · by_cases hid : p'.userId = p.userId
        · -- the principal itself is asked about, as no other has its id
          have hname := h.distinct other name p' p hp' hp hid
          rw [hname, hp, Option.some_inj] at hp'
          subst hp'
          exact hstays hfresh
        · exact hserved.fresh (fun heq => hid (PrincipalKey.number.inj heq).symm) hfresh

/-- Nothing is kept for a principal for which a change has been announced. -/
theorem Effect.fresh_announced {change : Change} (heffect : Effect kinds s (.announce change) s')
    (hkinds : ∀ kind, kind ∈ kinds) {p : Profile} (hp : .number p.userId ∈ change.principals) :
    Fresh s'.source s'.cache p := by
  cases heffect with
  | announce hdrops =>
      intro c' hc' slot factory value hfill hvalue
      obtain ⟨c, _, hdrop⟩ := hdrops c' hc'
      obtain ⟨kind, hslot⟩ := hfill.mem_slots
      have hrow := Cache.mem_scopeSlots.mpr ⟨hp, kind, hkinds kind, hslot⟩
      rw [hdrop.dropped _ slot hrow] at hvalue
      cases hvalue

theorem Announced.of_append {steps : List Step} {step : Step} {name : String} {userId : Int}
    (h : Announced kinds s (steps ++ [step]) name userId)
    (hstep : ¬ ∃ change, step = .announce change ∧ .number userId ∈ change.principals) :
    Announced kinds s steps name userId ∧ ¬ Touches kinds (after kinds steps s) step name := by
  constructor
  · rintro before touching later rfl htouches
    obtain ⟨change, hmem, hid⟩ := h before touching (later ++ [step]) (by simp) htouches
    rcases List.mem_append.mp hmem with hmem | hmem
    · exact ⟨change, hmem, hid⟩
    · exact absurd ⟨change, (List.mem_singleton.mp hmem).symm, hid⟩ hstep
  · intro htouches
    obtain ⟨_, hmem, _⟩ := h steps step [] rfl htouches
    exact List.not_mem_nil hmem

/-- A principal for which every change has been announced has nothing kept that is stale. -/
theorem fresh_after (h : Ready s) (hkinds : ∀ kind, kind ∈ kinds)
    (hstart : ∀ p, Fresh s.source s.cache p) (steps : List Step) :
    Ready (after kinds steps s) ∧ ∀ name p, (after kinds steps s).principals.lookup name = some p →
      Announced kinds s steps name p.userId → Fresh (after kinds steps s).source (after kinds steps s).cache p := by
  induction steps using List.reverseRecOn with
  | nil => exact ⟨h, fun _ p _ _ => hstart p⟩
  | append_singleton steps step ih =>
      obtain ⟨hready, hfresh⟩ := ih
      rw [after_append_singleton]
      refine ⟨hready.run step, fun name p hp hannounced => ?_⟩
      by_cases hstep : ∃ change, step = .announce change ∧ .number p.userId ∈ change.principals
      · obtain ⟨change, rfl, hid⟩ := hstep
        exact (effect_run kinds hready.canServe _).fresh_announced hkinds hid
      · obtain ⟨hbefore, htouches⟩ := hannounced.of_append hstep
        have hsame := htouches
        rw [Touches, not_or, not_not, not_not] at hsame
        rw [hsame.2] at hp
        exact (effect_run kinds hready.canServe step).fresh hready hp hsame.1 (hfresh name p hp hbefore)

/-! ### Side by side -/

/-- Two services that are the same but for what is kept and recorded; the second keeps nothing. -/
def Matches (s u : Service) : Prop :=
  ∃ recorded, u = { s with cache := none, questions := recorded }

theorem Matches.run {u : Service} (h : Matches s u) (hcan : CanServe s.cache) (step : Step) :
    Matches (step.run kinds s).2 (step.run kinds u).2 := by
  obtain ⟨recorded, rfl⟩ := h
  cases step with
  | edit kind e =>
      show Matches (perform (Service.edit kind e) s).2 (perform (Service.edit kind e) _).2
      rw [perform_edit, perform_edit]
      exact ⟨recorded, rfl⟩
  | revise name groups content media =>
      show Matches (perform (updatePrincipal name _) s).2 (perform (updatePrincipal name _) _).2
      rw [perform_updatePrincipal, perform_updatePrincipal]
      exact ⟨recorded, rfl⟩
  | announce change =>
      obtain ⟨cache, hperform, _⟩ := perform_invalidate hcan kinds change
      obtain ⟨cache', hperform', hdrops'⟩ :=
        perform_invalidate (s := { s with cache := none, questions := recorded }) nofun kinds change
      show Matches (perform (invalidate kinds change) s).2 (perform (invalidate kinds change) _).2
      rw [hperform, hperform']
      cases cache' with
      | none => exact ⟨recorded, rfl⟩
      | some c' =>
          obtain ⟨_, hnone, _⟩ := hdrops' c' rfl
          cases hnone
  | ask q =>
      obtain ⟨_, _, cache, questions, questions', settings, hperform, hperform', _⟩ := replied_ask recorded hcan q
      show Matches (perform q.ask s).2 (perform q.ask _).2
      rw [hperform, hperform']
      exact ⟨questions', rfl⟩

theorem matches_after (kinds : List Hierarchy) (h : Ready s) (steps : List Step) :
    Ready (after kinds steps s) ∧ Matches (after kinds steps s) (after kinds steps { s with cache := none }) := by
  induction steps using List.reverseRecOn with
  | nil => exact ⟨h, s.questions, rfl⟩
  | append_singleton steps step ih =>
      rw [after_append_singleton, after_append_singleton]
      exact ⟨ih.1.run step, ih.2.run ih.1.canServe step⟩

/-- Before a principal is asked about, every change that touched it has been announced for it. -/
def WellAnnounced (kinds : List Hierarchy) (s : Service) (steps : List Step) : Prop :=
  ∀ before q later, steps = before ++ Step.ask q :: later → ∀ name p, q.subject? = some name →
    (after kinds before s).principals.lookup name = some p → Announced kinds s before name p.userId

theorem WellAnnounced.of_append {steps rest : List Step} (h : WellAnnounced kinds s (steps ++ rest)) :
    WellAnnounced kinds s steps := by
  rintro before q later rfl
  exact h before q (later ++ rest) (by simp)

/-- The service with a cache that is empty at the start gives the replies that it gives without one, whatever steps are
taken: as long as locks can be waited for, principals have different ids, announcements concern both hierarchies, and
every change that touches a principal is announced for it before it is asked about again. -/
theorem replies_eq_without_cache (hkinds : ∀ kind, kind ∈ kinds) {timeout : LockTimeout} (htimeout : timeout.fault? = none)
    (hcache : s.cache = some (Cache.empty timeout)) (hdistinct : DistinctIds s) {steps : List Step}
    (hannounced : WellAnnounced kinds s steps) :
    (play kinds steps s).1 = (play kinds steps { s with cache := none }).1 := by
  have hready : Ready s := by
    refine ⟨fun c hc => ?_, hdistinct⟩
    rw [hcache] at hc
    cases hc
    exact ⟨htimeout, rfl⟩
  have hstart : ∀ p, Fresh s.source s.cache p := by
    intro p c hc slot factory value _ hvalue
    rw [hcache] at hc
    cases hc
    cases hvalue
  induction steps using List.reverseRecOn with
  | nil => rfl
  | append_singleton steps step ih =>
      rw [play_append_singleton, play_append_singleton, ih hannounced.of_append]
      congr 1
      cases step with
      | edit => rfl
      | revise => rfl
      | announce => rfl
      | ask q =>
          obtain ⟨hafter, recorded, hmatches⟩ := matches_after kinds hready steps
          obtain ⟨_, hfresh⟩ := fresh_after hready hkinds hstart steps
          obtain ⟨reply, reply', _, _, _, _, hperform, hperform', hor⟩ := replied_ask recorded hafter.canServe q
          show (some (perform q.ask _).1).toList = (some (perform q.ask _).1).toList
          rw [hmatches, hperform, hperform']
          rcases hor with ⟨_, rfl⟩ | ⟨name, p, hsubject, hp, _, hsame⟩
          · rfl
          · have hannounced' := hannounced steps q [] rfl name p hsubject hp
            rw [(hsame (hfresh name p hp hannounced')).1]

/-! ### A run, and a timeout that does not serve -/

theorem distinctIds_of_singleton {name : String} {p : Profile} (h : s.principals = [(name, p)]) : DistinctIds s := by
  have hname : ∀ a q, s.principals.lookup a = some q → a = name := by
    intro a q hq
    rw [h, List.lookup_cons] at hq
    by_cases ha : a = name
    · exact ha
    · rw [beq_eq_false_iff_ne.mpr ha] at hq
      cases hq
  intro a b p q hp hq _
  rw [hname a p hp, hname b q hq]

theorem announced_nil (kinds : List Hierarchy) (s : Service) (name : String) (userId : Int) :
    Announced kinds s [] name userId := by
  intro before step later h
  exact absurd h (by simp)

/-- A change that is announced last is announced after everything that came before. -/
theorem announced_of_last (h : Ready s) (steps : List Step) {change : Change} (name : String) {userId : Int}
    (hid : .number userId ∈ change.principals) :
    Announced kinds s (steps ++ [.announce change]) name userId := by
  intro before step later heq htouches
  rcases List.eq_nil_or_concat later with rfl | ⟨front, last, rfl⟩
  · obtain ⟨hbefore, hlast⟩ := List.append_inj' heq rfl
    obtain ⟨hready, _⟩ := matches_after kinds h before
    obtain ⟨hsource, hprincipals⟩ := (effect_run kinds hready.canServe (.announce change)).same_of_announce
    rw [← (List.cons.inj hlast).1, Touches, hsource, hprincipals] at htouches
    simp at htouches
  · rw [List.concat_eq_append, ← List.cons_append, ← List.append_assoc] at heq
    have hlast := (List.append_inj' heq rfl).2
    refine ⟨change, ?_, hid⟩
    rw [(List.cons.inj hlast).1, List.concat_eq_append]
    exact List.mem_append_right _ (List.mem_singleton_self _)

theorem exists_of_lookup_after (h : Ready s) (steps : List Step) {name : String} {p : Profile}
    (hp : (after kinds steps s).principals.lookup name = some p) :
    ∃ old, s.principals.lookup name = some old ∧ old.userId = p.userId := by
  induction steps using List.reverseRecOn generalizing p with
  | nil => exact ⟨p, hp, rfl⟩
  | append_singleton steps step ih =>
      rw [after_append_singleton] at hp
      have heffect := effect_run kinds (matches_after kinds h steps).1.canServe step
      obtain ⟨old, hold, hid⟩ := heffect.exists_of_lookup hp
      obtain ⟨first, hfirst, hsame⟩ := ih hold
      exact ⟨first, hfirst, hsame.trans hid⟩

/-- A principal that is asked about, revised, announced and asked about again. -/
theorem replies_eq_without_cache_revised :
    let s : Service :=
      { cache := some (Cache.empty (.whole (-1))), principals := [("a", ⟨1, "", [], .arr [], .arr []⟩)] }
    let steps := [Step.ask (.ids .content "a"), .revise "a" [] (.arr [.int (-1)]) (.arr []),
      .announce (.startNodes (.number 1)), .ask (.ids .content "a")]
    WellAnnounced Hierarchy.all s steps ∧
      (play Hierarchy.all steps s).1 = (play Hierarchy.all steps { s with cache := none }).1 ∧
      (play Hierarchy.all steps s).1 = [.ok (.scope (.arr [])), .ok (.scope (.arr [.int (-1)]))] := by
  intro s steps
  have hdistinct : DistinctIds s := distinctIds_of_singleton rfl
  have htimeout : (LockTimeout.whole (-1)).fault? = none := by decide
  have hready : Ready s := by
    refine ⟨?_, hdistinct⟩
    rintro _ ⟨⟩
    exact ⟨htimeout, rfl⟩
  have hannounced : WellAnnounced Hierarchy.all s steps := by
    intro before q later heq name p _ hp
    have hid : p.userId = 1 := by
      obtain ⟨old, hold, hsame⟩ := exists_of_lookup_after hready before hp
      rw [← hsame]
      simp only [s, List.lookup_cons] at hold
      split at hold <;> cases hold
      rfl
    rcases before with _ | ⟨first, _ | ⟨second, _ | ⟨third, _ | ⟨fourth, before⟩⟩⟩⟩
    · exact announced_nil _ _ _ _
    · simp [steps] at heq
    · simp [steps] at heq
    · have hthird : third = .announce (.startNodes (.number 1)) := by
        simp [steps] at heq
        exact heq.2.2.1.symm
      rw [hthird]
      refine announced_of_last hready [first, second] name ?_
      rw [hid]
      exact List.mem_singleton_self _
    · simp [steps] at heq
  have hsame := replies_eq_without_cache Hierarchy.mem_all htimeout rfl hdistinct hannounced
  refine ⟨hannounced, hsame, ?_⟩
  rw [hsame]
  rfl

/-- A timeout may be allowed and yet be no number of seconds that can be waited for; then the cache refuses what is
answered without one. -/
theorem replies_ne_of_unusable_timeout :
    let timeout : LockTimeout := .whole 9223372037
    let s : Service :=
      { cache := some (Cache.empty timeout), principals := [("a", ⟨1, "", [], .arr [], .arr []⟩)] }
    let steps := [Step.ask (.ids .content "a")]
    timeout.isAllowed = true ∧ DistinctIds s ∧ WellAnnounced Hierarchy.all s steps ∧
      (play Hierarchy.all steps s).1 ≠ (play Hierarchy.all steps { s with cache := none }).1 := by
  intro timeout s steps
  refine ⟨by decide, distinctIds_of_singleton rfl, ?_, ?_⟩
  · intro before q later heq name p _ _
    have hbefore : before = [] := by
      cases before with
      | nil => rfl
      | cons step before => simp [steps] at heq
    rw [hbefore]
    exact announced_nil _ _ _ _
  · have hkept : (play Hierarchy.all steps s).1 = [.error (.lock (.unusable .tooLarge))] := rfl
    have hfresh : (play Hierarchy.all steps { s with cache := none }).1 = [.ok (.scope (.arr []))] := rfl
    rw [hkept, hfresh]
    nofun

end StartNodes.Service
