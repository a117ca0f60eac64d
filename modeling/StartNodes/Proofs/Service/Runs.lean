import StartNodes.Proofs.Cache.Forgetting
import StartNodes.Proofs.Service.Serving

/-!
Runs of the service. Steps edit the trees, revise what principals declare, announce changes and ask about principals, in
any order; each changes one part of the service. A question leaves a service with a cache and the same service without
one the same but for what is kept, and gives one reply where what is kept is fresh.
-/

namespace StartNodes.Service

/-! ### Runs -/

/-- What may be asked about principals, which are called by their names. -/
inductive Query where
  | ids (kind : Hierarchy) (name : String)
  | paths (kind : Hierarchy) (name : String)
  | access (kind : Hierarchy) (target : Target) (name : Option String)
  | sensitive (name : Option String)

/-- A reply: the start nodes or paths of a scope, or whether access is given. -/
inductive Reply where
  | scope (value : Json)
  | verdict (given : Bool)

namespace Query

/-- The principal that a query is about, if it is about one. -/
def subject? : Query → Option String
  | .ids _ name => some name
  | .paths _ name => some name
  | .access _ _ name => name
  | .sensitive name => name

/-- Asks what a query asks. -/
def ask : Query → ServiceM Reply
  | .ids kind name => do return .scope (← effectiveIds kind (← principal name))
  | .paths kind name => do return .scope (← effectivePaths kind (← principal name))
  | .access kind target (some name) => do return .verdict (← hasAccess kind target (some (← principal name)))
  | .access kind target none => do return .verdict (← hasAccess kind target none)
  | .sensitive (some name) => do return .verdict (← hasSensitiveAccess (some (← principal name)))
  | .sensitive none => do return .verdict (← hasSensitiveAccess none)

end Query

/-- A step of a run. -/
inductive Step where
  | edit (kind : Hierarchy) (e : Edit Item)
  /-- Gives a principal other groups and other start nodes of its own. -/
  | revise (name : String) (groups : List GroupProfile) (content media : Json)
  /-- Drops from the cache what a change makes stale. -/
  | announce (change : Change)
  | ask (q : Query)

/-- Takes a step, where announcements concern the slots of some hierarchies; gives the reply to a query. -/
def Step.run (kinds : List Hierarchy) (step : Step) (s : Service) : Option (Except ServiceError Reply) × Service :=
  match step with
  | .edit kind e => (none, (perform (Service.edit kind e) s).2)
  | .revise name groups content media =>
      let change (p : Profile) : Profile := { p with groups, startContent := content, startMedia := media }
      (none, (perform (updatePrincipal name change) s).2)
  | .announce change => (none, (perform (invalidate kinds change) s).2)
  | .ask q =>
      let (reply, s) := perform q.ask s
      (some reply, s)

/-- Takes steps, one after the other; gives the replies to the queries among them. -/
def play (kinds : List Hierarchy) : List Step → Service → List (Except ServiceError Reply) × Service
  | [], s => ([], s)
  | step :: steps, s =>
      let (reply, s) := step.run kinds s
      let (replies, s) := play kinds steps s
      (reply.toList ++ replies, s)

/-- The service after some steps. -/
def after (kinds : List Hierarchy) (steps : List Step) (s : Service) : Service :=
  (play kinds steps s).2

theorem play_append (kinds : List Hierarchy) (steps rest : List Step) (s : Service) :
    play kinds (steps ++ rest) s =
      ((play kinds steps s).1 ++ (play kinds rest (after kinds steps s)).1,
        (play kinds rest (after kinds steps s)).2) := by
  induction steps generalizing s with
  | nil => rfl
  | cons step steps ih =>
      simp only [List.cons_append, play, ih, after, List.append_assoc]

theorem after_append_singleton (kinds : List Hierarchy) (steps : List Step) (step : Step) (s : Service) :
    after kinds (steps ++ [step]) s = (step.run kinds (after kinds steps s)).2 := by
  rw [after, play_append]
  rfl

theorem play_append_singleton (kinds : List Hierarchy) (steps : List Step) (step : Step) (s : Service) :
    (play kinds (steps ++ [step]) s).1 =
      (play kinds steps s).1 ++ (step.run kinds (after kinds steps s)).1.toList := by
  rw [play_append]
  simp only [play, List.append_nil]

/-! ### What a step changes -/

/-- The source after an edit, which a source without trees does not take. -/
def edited (kind : Hierarchy) (e : Edit Item) : PathSource → PathSource
  | .trees t => .trees (t.edit kind e).2
  | .fixed t => .fixed t

theorem perform_edit (kind : Hierarchy) (e : Edit Item) (s : Service) :
    (perform (Service.edit kind e) s).2 = { s with source := edited kind e s.source } := by
  have htrees : perform trees s =
      match s.source with
      | .trees t => (.ok t, s)
      | .fixed _ => (.error .noTrees, s) := by
    unfold trees
    rw [perform_bind_of_ok (perform_get s)]
    cases s.source <;> rfl
  unfold Service.edit
  rw [perform_bind, htrees]
  cases hsource : s.source with
  | fixed t =>
      simp only [edited]
      rw [← hsource]
  | trees t =>
      simp only [edited, setTrees]
      cases t.edit kind e with
      | mk outcome t' =>
          simp only
          rw [perform_bind_of_ok (perform_modify _ _), perform_answer]

theorem perform_updatePrincipal (name : String) (change : Profile → Profile) (s : Service) :
    (perform (updatePrincipal name change) s).2 =
      { s with principals :=
          match s.principals.lookup name with
          | some p => (name, change p) :: s.principals.filter fun row => row.1 != name
          | none => s.principals } := by
  unfold updatePrincipal
  rw [perform_bind, perform_principal]
  cases s.principals.lookup name <;> rfl

/-- An announcement empties the slots that it concerns and no others. -/
theorem perform_invalidate_of_some {c : Cache Json} {s : Service} (hcache : s.cache = some c) (hc : c.Usable)
    (kinds : List Hierarchy) (change : Change) :
    ∃ c', (perform (invalidate kinds change) s).2 = { s with cache := some c' } ∧
      c.Drops c' (Cache.scopeSlots kinds change.principals) := by
  unfold invalidate
  by_cases hnone : (Cache.scopeSlots kinds change.principals).isEmpty = true
  · rw [if_pos hnone, List.isEmpty_iff.mp hnone]
    exact ⟨c, by rw [← hcache]; rfl, rfl, rfl, fun _ _ hmem => absurd hmem List.not_mem_nil, fun _ _ _ => rfl⟩
  · rw [if_neg hnone]
    obtain ⟨c', hinvalidate, hdrops⟩ := Cache.invalidate_drops hc kinds change
    exact ⟨c', by rw [perform_onCache hcache, hinvalidate], hdrops⟩

theorem perform_invalidate_of_none {s : Service} (hcache : s.cache = none) (kinds : List Hierarchy) (change : Change) :
    (perform (invalidate kinds change) s).2 = s := by
  unfold invalidate
  split
  · rfl
  · rw [perform_onCache_of_none hcache]

theorem perform_invalidate {s : Service} (hcan : CanServe s.cache) (kinds : List Hierarchy) (change : Change) :
    ∃ cache, (perform (invalidate kinds change) s).2 = { s with cache } ∧
      ∀ c', cache = some c' → ∃ c, s.cache = some c ∧ c.Drops c' (Cache.scopeSlots kinds change.principals) := by
  cases hcache : s.cache with
  | none => exact ⟨none, by rw [perform_invalidate_of_none hcache, ← hcache], nofun⟩
  | some c =>
      obtain ⟨c', hperform, hdrops⟩ := perform_invalidate_of_some hcache (hcan c hcache) kinds change
      refine ⟨some c', hperform, ?_⟩
      rintro _ ⟨⟩
      exact ⟨c, rfl, hdrops⟩

/-- Where locks cannot be waited for, an announcement changes nothing. -/
theorem perform_invalidate_of_fault {c : Cache Json} {s : Service} (hcache : s.cache = some c) {f : LockTimeout.Fault}
    (hfault : c.timeout.fault? = some f) (kinds : List Hierarchy) (change : Change) :
    (perform (invalidate kinds change) s).2 = s := by
  unfold invalidate
  split
  · rfl
  · rw [perform_onCache hcache]
    simp only [Cache.invalidate, Cache.forgetAll_of_fault hfault]
    rw [← hcache]

/-! ### What a query changes -/

/-- Settings are made from the environment, whatever is kept and recorded. -/
theorem perform_currentSettings (s : Service) :
    ∃ outcome settings, ∀ cache questions,
      perform currentSettings { s with cache, questions } = (outcome, { s with cache, questions, settings }) := by
  unfold currentSettings
  cases hsettings : s.settings with
  | some settings =>
      refine ⟨.ok settings, some settings, fun cache questions => ?_⟩
      rw [perform_bind_of_ok (perform_get _)]
      rfl
  | none =>
      cases hload : Settings.load s.environment with
      | error f =>
          refine ⟨.error (.invalid f), none, fun cache questions => ?_⟩
          rw [perform_bind_of_ok (perform_get _)]
          simp only
          rw [perform_bind, perform_answer, hload]
          rfl
      | ok settings =>
          refine ⟨.ok settings, some settings, fun cache questions => ?_⟩
          rw [perform_bind_of_ok (perform_get _)]
          simp only
          rw [perform_bind, perform_answer, hload]
          rfl

theorem perform_hasSensitiveAccess (p : Profile) (s : Service) :
    ∃ outcome settings, ∀ cache questions,
      perform (hasSensitiveAccess (some p)) { s with cache, questions } =
        (outcome, { s with cache, questions, settings }) := by
  obtain ⟨outcome, settings, hsettings⟩ := perform_currentSettings s
  unfold hasSensitiveAccess
  cases outcome with
  | error e => exact ⟨.error e, settings, fun cache questions => perform_bind_of_error (hsettings cache questions)⟩
  | ok made =>
      refine ⟨.ok (p.belongsTo made.sensitiveDataGroupAlias), settings, fun cache questions => ?_⟩
      rw [perform_bind_of_ok (hsettings cache questions), perform_pure]

/-- A question to two services that differ in what is kept and recorded, and have the same otherwise. Afterwards they
still do. Either nothing has been kept and there is one reply, or the question is about a principal; then something may
have been kept for that principal, and there is one reply if what was kept for it is fresh. -/
def Replied (s : Service) (recorded : List Question) (x : ServiceM Reply) (subject? : Option String) : Prop :=
  ∃ reply reply' cache questions questions' settings,
    perform x s = (reply, { s with cache, questions, settings }) ∧
      perform x { s with cache := none, questions := recorded } =
        (reply', { s with cache := none, questions := questions', settings }) ∧
      (cache = s.cache ∧ reply = reply' ∨
        ∃ name p, subject? = some name ∧ s.principals.lookup name = some p ∧
          ServedFor (.number p.userId) s.cache cache ∧
          (Fresh s.source s.cache p → reply = reply' ∧ Fresh s.source cache p))

/-- A question that does not look at what is kept. -/
theorem replied_of_settings {s : Service} {recorded : List Question} {x : ServiceM Reply} {subject? : Option String}
    (h : ∃ outcome settings, ∀ cache questions,
      perform x { s with cache, questions } = (outcome, { s with cache, questions, settings })) :
    Replied s recorded x subject? := by
  obtain ⟨outcome, settings, hperform⟩ := h
  exact ⟨outcome, outcome, s.cache, s.questions, recorded, settings, hperform s.cache s.questions,
    hperform none recorded, Or.inl ⟨rfl, rfl⟩⟩

theorem replied_of_unknown {s : Service} {recorded : List Question} {name : String} (h : s.principals.lookup name = none)
    (x : Profile → ServiceM Reply) : Replied s recorded (do x (← principal name)) (some name) := by
  refine replied_of_settings ⟨.error (.unknownPrincipal name), s.settings, fun cache questions => ?_⟩
  refine perform_bind_of_error ?_
  rw [perform_principal]
  simp only [h]

/-- A question about a principal that serves it. -/
theorem replied_of_serves {s : Service} {recorded : List Question} (hcan : CanServe s.cache) (name : String)
    {x : Profile → ServiceM Reply} (hx : ∀ p, Serves p (x p)) :
    Replied s recorded (do x (← principal name)) (some name) := by
  cases hp : s.principals.lookup name with
  | none => exact replied_of_unknown hp x
  | some p =>
      have hfound : ∀ t : Service, t.principals = s.principals →
          perform (do x (← principal name)) t = perform (x p) t := by
        intro t ht
        refine perform_bind_of_ok ?_
        rw [perform_principal, ht, hp]
      obtain ⟨reply, cache, questions, hperform, hserved, hfresh⟩ := hx p s hcan
      obtain ⟨reply', cache', questions', hperform', hserved', hfresh'⟩ :=
        hx p { s with cache := none, questions := recorded } nofun
      cases hserved'
      refine ⟨reply, reply', cache, questions, questions', s.settings, (hfound s rfl).trans hperform,
        (hfound { s with cache := none, questions := recorded } rfl).trans hperform', Or.inr ⟨name, p, rfl, hp, hserved, fun h => ?_⟩⟩
      obtain ⟨hreply, hcache⟩ := hfresh h
      rw [hreply, (hfresh' (fresh_none _ p)).1]
      exact ⟨rfl, hcache⟩

theorem replied_ask {s : Service} (recorded : List Question) (hcan : CanServe s.cache) (q : Query) :
    Replied s recorded q.ask q.subject? := by
  cases q with
  | ids kind name => exact replied_of_serves hcan name fun p => .bind (serves_effectiveIds kind p) fun _ => .pure _
  | paths kind name => exact replied_of_serves hcan name fun p => .bind (serves_effectivePaths kind p) fun _ => .pure _
  | access kind target name =>
      cases name with
      | some name =>
          exact replied_of_serves hcan name fun p => .bind (serves_hasAccess kind target p) fun _ => .pure _
      | none =>
          -- nobody is asked about, so the question ends before the cache is needed
          refine replied_of_settings ?_
          cases hpath : target.path kind with
          | error e =>
              exact ⟨.error (.access e), s.settings, fun cache questions =>
                perform_bind_of_error (perform_hasAccess_of_error hpath none _)⟩
          | ok path =>
              exact ⟨.error (.access .noPrincipal), s.settings, fun cache questions =>
                perform_bind_of_error (perform_hasAccess_of_nobody hpath _)⟩
  | sensitive name =>
      cases name with
      | none => exact replied_of_settings ⟨.error (.access .noPrincipal), s.settings, fun _ _ => rfl⟩
      | some name =>
          cases hp : s.principals.lookup name with
          | none => exact replied_of_unknown hp _
          | some p =>
              obtain ⟨outcome, settings, hperform⟩ := perform_hasSensitiveAccess p s
              refine replied_of_settings ⟨outcome.map .verdict, settings, fun cache questions => ?_⟩
              have hfound : perform (principal name) { s with cache, questions } =
                  (.ok p, { s with cache, questions }) := by
                rw [perform_principal]
                simp only [hp]
              refine (perform_bind_of_ok hfound).trans ?_
              rw [perform_bind, hperform]
              cases outcome <;> rfl

/-! ### What a step may do -/

variable {kinds : List Hierarchy} {s s' : Service} {step : Step}

/-- What a step may make of a service whose cache refuses nothing. -/
inductive Effect (kinds : List Hierarchy) (s : Service) : Step → Service → Prop
  | edit {kind : Hierarchy} {e : Edit Item} :
      Effect kinds s (.edit kind e) { s with source := edited kind e s.source }
  /-- A name is left to a principal of the same id. -/
  | revise {name : String} {groups : List GroupProfile} {content media : Json} {principals : List (String × Profile)}
      (hids : ∀ name p, principals.lookup name = some p →
        ∃ old, s.principals.lookup name = some old ∧ old.userId = p.userId) :
      Effect kinds s (.revise name groups content media) { s with principals }
  | announce {change : Change} {cache : Option (Cache Json)}
      (hdrops : ∀ c', cache = some c' →
        ∃ c, s.cache = some c ∧ c.Drops c' (Cache.scopeSlots kinds change.principals)) :
      Effect kinds s (.announce change) { s with cache }
  | ask {q : Query} {cache : Option (Cache Json)} {questions : List Question} {settings : Option Settings}
      (hserved : cache = s.cache ∨ ∃ name p, s.principals.lookup name = some p ∧
        ServedFor (.number p.userId) s.cache cache ∧ (Fresh s.source s.cache p → Fresh s.source cache p)) :
      Effect kinds s (.ask q) { s with cache, questions, settings }

theorem lookup_revised {principals : List (String × Profile)} {revised name : String} {old new p : Profile}
    (hold : principals.lookup revised = some old)
    (hp : List.lookup name ((revised, new) :: principals.filter fun row => row.1 != revised) = some p)
    (hid : old.userId = new.userId) :
    ∃ old, principals.lookup name = some old ∧ old.userId = p.userId := by
  by_cases hname : name = revised
  · rw [hname, List.lookup_cons_self] at hp
    cases hp
    exact ⟨old, hname ▸ hold, hid⟩
  · rw [List.lookup_cons, beq_eq_false_iff_ne.mpr hname] at hp
    simp only [lookup_filter_of_ne hname] at hp
    exact ⟨p, hp, rfl⟩

theorem effect_run (kinds : List Hierarchy) (hcan : CanServe s.cache) (step : Step) :
    Effect kinds s step (step.run kinds s).2 := by
  cases step with
  | edit kind e =>
      show Effect kinds s _ (perform (Service.edit kind e) s).2
      rw [perform_edit]
      exact .edit
  | revise revised groups content media =>
      show Effect kinds s _ (perform (updatePrincipal revised _) s).2
      rw [perform_updatePrincipal]
      apply Effect.revise
      intro name p hp
      cases hrevised : s.principals.lookup revised with
      | none =>
          simp only [hrevised] at hp
          exact ⟨p, hp, rfl⟩
      | some old =>
          simp only [hrevised] at hp
          exact lookup_revised hrevised hp rfl
  | announce change =>
      obtain ⟨cache, hperform, hdrops⟩ := perform_invalidate hcan kinds change
      show Effect kinds s _ (perform (invalidate kinds change) s).2
      rw [hperform]
      exact .announce hdrops
  | ask q =>
      obtain ⟨_, _, cache, questions, _, settings, hperform, _, hor⟩ := replied_ask [] hcan q
      show Effect kinds s _ (perform q.ask s).2
      rw [hperform]
      apply Effect.ask
      rcases hor with ⟨hcache, _⟩ | ⟨name, p, _, hp, hserved, hfresh⟩
      · exact Or.inl hcache
      · exact Or.inr ⟨name, p, hp, hserved, fun h => (hfresh h).2⟩

namespace Effect

/-- A step leaves every name to a principal of the same id. -/
theorem exists_of_lookup (h : Effect kinds s step s') {name : String} {p : Profile}
    (hp : s'.principals.lookup name = some p) :
    ∃ old, s.principals.lookup name = some old ∧ old.userId = p.userId := by
  cases h with
  | edit => exact ⟨p, hp, rfl⟩
  | revise hids => exact hids name p hp
  | announce _ => exact ⟨p, hp, rfl⟩
  | ask _ => exact ⟨p, hp, rfl⟩

theorem canServe (h : Effect kinds s step s') (hcan : CanServe s.cache) : CanServe s'.cache := by
  cases h with
  | edit => exact hcan
  | revise _ => exact hcan
  | announce hdrops =>
      intro c' hc'
      obtain ⟨c, hc, hdrop⟩ := hdrops c' hc'
      exact hdrop.usable (hcan c hc)
  | ask hserved =>
      rcases hserved with hcache | ⟨_, _, _, hserved, _⟩
      · show CanServe _
        rw [hcache]
        exact hcan
      · exact hserved.canServe hcan

theorem same_of_announce {change : Change} (h : Effect kinds s (.announce change) s') :
    s'.source = s.source ∧ s'.principals = s.principals := by
  cases h with
  | announce _ => exact ⟨rfl, rfl⟩

end Effect

end StartNodes.Service
