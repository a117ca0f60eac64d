import StartNodes.Proofs.Cache.Refinement
import StartNodes.Proofs.Service.Serving

/-!
What a cache makes of questions about a principal, in closed form. A slot that is filled answers, and the source is not
asked; an empty one is computed, and filled if that succeeds. So the answer, the questions to the source and what is kept
afterwards depend on nothing but the source, what the principal declares and what has been kept.
-/

namespace StartNodes.Service

variable {α β : Type}

/-! ### What is asked of the source -/

/-- Two sources that give the same answers about a hierarchy. -/
structure SameAnswers (kind : Hierarchy) (source source' : PathSource) : Prop where
  paths : source'.paths kind = source.paths kind
  lookUp : source'.lookUp kind = source.lookUp kind

theorem SameAnswers.combineIds {kind : Hierarchy} {source source' : PathSource} (h : SameAnswers kind source source') :
    Scope.combineIds source' kind = Scope.combineIds source kind := by
  funext groups own
  rw [Scope.combineIds, h.paths, Scope.combineIds]

theorem SameAnswers.combineItems {kind : Hierarchy} {source source' : PathSource} (h : SameAnswers kind source source') :
    Scope.combineItems source' kind = Scope.combineItems source kind := by
  funext groups own
  rw [Scope.combineItems, h.lookUp, Scope.combineItems]

/-- What does not look at the cache: it asks the source some questions, and its outcome depends on nothing but what the
source answers about a hierarchy. -/
structure Asks (kind : Hierarchy) (x : ServiceM α) (asked : List Question) : Prop where
  perform_eq : ∀ s, perform x s = (current x s.source, { s with questions := s.questions ++ asked })
  same : ∀ source source', SameAnswers kind source source' → current x source' = current x source

variable {kind : Hierarchy}

/-- The outcome may be given as any function of the source. -/
theorem Asks.of_eq {x : ServiceM α} {asked : List Question} (expected : PathSource → Except ServiceError α)
    (h : ∀ s, perform x s = (expected s.source, { s with questions := s.questions ++ asked }))
    (hsame : ∀ source source', SameAnswers kind source source' → expected source' = expected source) :
    Asks kind x asked := by
  have hcurrent : ∀ source, current x source = expected source := fun source => by rw [current, h]
  refine ⟨fun s => ?_, fun source source' hsources => ?_⟩
  · rw [h s, hcurrent]
  · rw [hcurrent, hcurrent, hsame source source' hsources]

namespace Asks

theorem pure (a : α) : Asks kind (pure a) [] :=
  .of_eq (fun _ => .ok a) (fun s => by rw [perform_pure, List.append_nil]) fun _ _ _ => rfl

theorem answer {E : Type} (lift : E → ServiceError) (outcome : Except E α) : Asks kind (answer lift outcome) [] :=
  .of_eq (fun _ => outcome.mapError lift) (fun s => by rw [perform_answer, List.append_nil]) fun _ _ _ => rfl

/-- What is asked next may depend on the source. -/
theorem source {f : PathSource → ServiceM α} {asked : List Question}
    (hsame : ∀ source source', SameAnswers kind source source' → f source' = f source)
    (h : ∀ source, Asks kind (f source) asked) : Asks kind (do f (← get).source) asked := by
  refine .of_eq (fun source => current (f source) source) (fun s => ?_) fun source source' hsources => ?_
  · rw [perform_bind_of_ok (perform_get s), (h s.source).perform_eq]
  · rw [hsame source source' hsources, (h source).same source source' hsources]

/-- All questions are asked in the first part. -/
theorem bind {x : ServiceM α} {f : α → ServiceM β} {asked : List Question} (hx : Asks kind x asked)
    (hf : ∀ a, Asks kind (f a) []) : Asks kind (x >>= f) asked := by
  refine .of_eq (fun source =>
    match current x source with
    | .ok a => current (f a) source
    | .error e => .error e) (fun s => ?_) fun source source' hsources => ?_
  · rw [perform_bind, hx.perform_eq]
    cases current x s.source with
    | error e => rfl
    | ok a =>
        simp only
        rw [(hf a).perform_eq, List.append_nil]
  · rw [hx.same source source' hsources]
    cases current x source with
    | error e => rfl
    | ok a => exact (hf a).same source source' hsources

/-- All questions are asked after the first part. -/
theorem after {x : ServiceM α} {f : α → ServiceM β} {a : α} {asked : List Question}
    (hx : ∀ s, perform x s = (.ok a, s)) (hf : Asks kind (f a) asked) : Asks kind (x >>= f) asked :=
  .of_eq (current (f a)) (fun s => by rw [perform_bind_of_ok (hx s), hf.perform_eq]) hf.same

theorem of_refused {x : ServiceM α} {f : α → ServiceM β} {e : ServiceError} (hx : ∀ s, perform x s = (.error e, s)) :
    Asks kind (x >>= f) [] :=
  .of_eq (fun _ => .error e) (fun s => by rw [perform_bind_of_error (hx s), List.append_nil]) fun _ _ _ => rfl

theorem record (kind : Hierarchy) (items : List Item) : Asks kind (record kind items) [⟨kind, items⟩] :=
  .of_eq (fun _ => .ok ()) (fun _ => rfl) fun _ _ _ => rfl

end Asks

/-- The questions that computing the effective start nodes of a principal asks. -/
def idsQuestions (kind : Hierarchy) (p : Profile) : List Question :=
  match p.nodes? kind with
  | some (groups, own) => (Scope.questions groups own).map fun ids => ⟨kind, ids.map Item.ofId⟩
  | none =>
      match p.items kind with
      | .ok (groups, own) => (Scope.questions groups own).map fun items => ⟨kind, items⟩
      | .error _ => []

/-- The questions that computing the paths of start nodes asks. -/
def pathsQuestions (kind : Hierarchy) (stored : Json) : List Question :=
  match Stored.ids? stored with
  | some ids =>
      let asked := ids.filter (· != rootId)
      if asked.isEmpty then [] else [⟨kind, asked.map Item.ofId⟩]
  | none =>
      match Stored.listed stored with
      | .ok items => if (Stored.asked items).isEmpty then [] else [⟨kind, Stored.asked items⟩]
      | .error _ => []

theorem asks_computeIds (kind : Hierarchy) (p : Profile) : Asks kind (computeIds kind p) (idsQuestions kind p) := by
  have hrecord : ∀ {γ : Type} (items : γ → List Item) (questions : List γ),
      Asks kind (questions.forM fun question => record kind (items question))
        (questions.map fun question => ⟨kind, items question⟩) :=
    fun items questions => .of_eq (fun _ => .ok ()) (perform_forM_record kind items questions) fun _ _ _ => rfl
  unfold computeIds idsQuestions
  cases p.nodes? kind with
  | some declared =>
      refine .bind (hrecord ..) fun _ => ?_
      exact Asks.source (f := fun source => do
        return Stored.ofIds (← answer .lookup (Scope.combineIds source kind declared.1 declared.2)))
        (fun _ _ h => by rw [h.combineIds]) fun source => .bind (.answer ..) fun ids => .pure _
  | none =>
      simp only
      cases p.items kind with
      | error e => exact .of_refused fun s => perform_answer ..
      | ok declared =>
          refine .after (fun s => perform_answer ..) (.bind (hrecord ..) fun _ => ?_)
          exact Asks.source (f := fun source => do
            return Stored.ofItems (← answer .lookup (Scope.combineItems source kind declared.1 declared.2)))
            (fun _ _ h => by rw [h.combineItems]) fun source => .bind (.answer ..) fun items => .pure _

theorem asks_resolve (kind : Hierarchy) (items : List Item) : Asks kind (resolve kind items) [⟨kind, items⟩] :=
  .bind (.record ..) fun _ => .source (f := fun source => answer .lookup (source.lookUp kind items))
    (fun _ _ h => by rw [h.lookUp]) fun _ => .answer ..

theorem asks_resolveIds (kind : Hierarchy) (ids : List NodeId) :
    Asks kind (resolveIds kind ids) [⟨kind, ids.map Item.ofId⟩] :=
  .bind (.record ..) fun _ => .source (f := fun source => answer .lookup (source.paths kind ids))
    (fun _ _ h => by rw [h.paths]) fun _ => .answer ..

theorem asks_computePaths (kind : Hierarchy) (stored : Json) :
    Asks kind (computePaths kind stored) (pathsQuestions kind stored) := by
  unfold computePaths pathsQuestions
  cases Stored.ids? stored with
  | some ids =>
      simp only
      split
      · exact .bind (.pure []) fun _ => .pure _
      · exact .bind (asks_resolveIds kind _) fun _ => .pure _
  | none =>
      simp only
      cases Stored.listed stored with
      | error e => exact .of_refused fun s => perform_answer ..
      | ok items =>
          refine .after (fun s => perform_answer ..) ?_
          simp only
          split
          · exact .bind (.pure []) fun _ => .answer ..
          · exact .bind (asks_resolve kind _) fun _ => .answer ..

/-! ### Slots -/

section Slots

variable {s : Service} {c : Cache Json} {p : Profile} {slot : String} {factory : ServiceM Json}

/-- A cache whose locks cannot be waited for refuses to compute. -/
theorem perform_memoize_of_fault (hcache : s.cache = some c) {f : LockTimeout.Fault} (hfault : c.timeout.fault? = some f) :
    perform (memoize p slot factory) s =
      (.error (.lock (.unusable f)), { s with cache := some (c.ensure (.number p.userId)).2 }) := by
  rw [perform_memoize_of_some hcache, perform_compute, perform_onCache hcache, Cache.begin_of_fault hfault]
  rfl

/-- A slot that is filled answers, and nothing changes. -/
theorem perform_memoize_of_kept (hcache : s.cache = some c) (hc : c.Usable) {value : Json}
    (hvalue : c.values (.number p.userId) slot = some value) :
    perform (memoize p slot factory) s = (.ok value, s) := by
  rw [perform_memoize_of_some hcache, perform_compute, perform_onCache hcache, Cache.begin_of_hit hc hvalue, ← hcache]
  rfl

/-- An empty slot is computed. The entry with which the computation began is still there when it ends, so its value goes to
that entry. -/
theorem perform_memoize_of_absent {running : List PrincipalKey} (hcache : s.cache = some c) (hc : c.Usable)
    (hnone : c.values (.number p.userId) slot = none) {outcome : Except ServiceError Json} {c' : Cache Json}
    {questions : List Question} {m : SlotMap Json}
    (hfactory : perform factory { s with cache := some (c.begun (.number p.userId)) } =
      (outcome, { s with cache := some c', questions }))
    (htracks : (c.begun (.number p.userId)).Tracks (.number p.userId :: running) c' m) :
    ∃ c'', perform (memoize p slot factory) s = (outcome, { s with cache := some c'', questions }) ∧
      c.Tracks running c'' (m.fill (.number p.userId) slot outcome) := by
  obtain ⟨hstamp, hbegun⟩ := Cache.begun_tracks (.number p.userId :: running) hc (.number p.userId)
  have hfinish := Cache.finish_tracks running htracks.usable (htracks.stamps _ List.mem_cons_self _ hstamp) slot outcome
  rw [htracks.values] at hfinish
  refine ⟨_, ?_, ((hbegun.trans htracks).mono fun q => List.mem_cons_of_mem _).trans hfinish⟩
  rw [perform_memoize_of_some hcache, perform_compute, perform_onCache hcache, Cache.begin_of_miss hc hnone]
  simp only [Except.mapError]
  rw [hfactory]
  rfl

end Slots

/-- What is asked of a service with a cache has an outcome, asks the source some questions and leaves the cache with the
values of a map. The entries of some principals stay those that they were. -/
def Leaves (running : List PrincipalKey) (x : ServiceM α) (s : Service) (c : Cache Json)
    (outcome : Except ServiceError α) (asked : List Question) (m : SlotMap Json) : Prop :=
  ∃ c', perform x s = (outcome, { s with cache := some c', questions := s.questions ++ asked }) ∧ c.Tracks running c' m

section Leaves

variable {running : List PrincipalKey} {s : Service} {c : Cache Json} {m m' : SlotMap Json} {asked asked' : List Question}

theorem Asks.leaves {x : ServiceM α} (h : Asks kind x asked) (hcache : s.cache = some c) (hc : c.Usable) :
    Leaves running x s c (current x s.source) asked c.values :=
  ⟨c, by rw [h.perform_eq, ← hcache], .refl hc⟩

namespace Leaves

theorem bind {x : ServiceM α} {f : α → ServiceM β} {a : α} {outcome : Except ServiceError β}
    (hx : Leaves running x s c (.ok a) asked m)
    (hf : ∀ c' questions, c'.Usable → c'.values = m →
      Leaves running (f a) { s with cache := some c', questions } c' outcome asked' m') :
    Leaves running (x >>= f) s c outcome (asked ++ asked') m' := by
  obtain ⟨c', hperform, htracks⟩ := hx
  obtain ⟨c'', hperform', htracks'⟩ := hf c' (s.questions ++ asked) htracks.usable htracks.values
  refine ⟨c'', ?_, htracks.trans htracks'⟩
  rw [perform_bind_of_ok hperform, hperform', List.append_assoc]

theorem bind_of_error {x : ServiceM α} {f : α → ServiceM β} {e : ServiceError}
    (hx : Leaves running x s c (.error e) asked m) : Leaves running (x >>= f) s c (.error e) asked m := by
  obtain ⟨c', hperform, htracks⟩ := hx
  exact ⟨c', perform_bind_of_error hperform, htracks⟩

/-- An empty slot is computed, and filled if that succeeds. -/
theorem memoize {p : Profile} {slot : String} {factory : ServiceM Json} {outcome : Except ServiceError Json}
    (hcache : s.cache = some c) (hc : c.Usable) (hnone : c.values (.number p.userId) slot = none)
    (hfactory : ∀ c', c'.Usable → c'.values = c.values →
      Leaves (.number p.userId :: running) factory { s with cache := some c' } c' outcome asked m) :
    Leaves running (memoize p slot factory) s c outcome asked (m.fill (.number p.userId) slot outcome) := by
  obtain ⟨-, hbegun⟩ := Cache.begun_tracks [] hc (.number p.userId)
  obtain ⟨c', hperform, htracks⟩ := hfactory _ hbegun.usable hbegun.values
  exact perform_memoize_of_absent hcache hc hnone hperform htracks

end Leaves

/-! ### Scopes -/

variable {p : Profile}

/-- The effective start nodes of a principal: those that are kept, or else those that are computed. -/
def idsFrom (kind : Hierarchy) (p : Profile) (source : PathSource) (m : SlotMap Json) : Except ServiceError Json :=
  match m (.number p.userId) kind.idsSlot with
  | some stored => .ok stored
  | none => current (computeIds kind p) source

/-- The questions that are asked for them. -/
def idsAsked (kind : Hierarchy) (p : Profile) (m : SlotMap Json) : List Question :=
  match m (.number p.userId) kind.idsSlot with
  | some _ => []
  | none => idsQuestions kind p

/-- What is kept once they have been asked for. -/
def idsKept (kind : Hierarchy) (p : Profile) (source : PathSource) (m : SlotMap Json) : SlotMap Json :=
  m.fill (.number p.userId) kind.idsSlot (idsFrom kind p source m)

theorem idsKept_of_some {source : PathSource} {stored : Json}
    (h : m (.number p.userId) kind.idsSlot = some stored) : idsKept kind p source m = m := by
  unfold idsKept idsFrom
  rw [h]
  exact (SlotMap.eq_put h (fun _ _ => rfl) fun _ _ => rfl).symm

theorem leaves_effectiveIds (hcache : s.cache = some c) (hc : c.Usable) :
    Leaves running (effectiveIds kind p) s c (idsFrom kind p s.source c.values) (idsAsked kind p c.values)
      (idsKept kind p s.source c.values) := by
  cases hvalue : c.values (.number p.userId) kind.idsSlot with
  | some stored =>
      refine ⟨c, ?_, hc, (idsKept_of_some hvalue).symm, fun _ _ _ h => h⟩
      unfold idsFrom idsAsked
      simp only [hvalue]
      rw [effectiveIds, perform_memoize_of_kept hcache hc hvalue, List.append_nil, ← hcache]
  | none =>
      unfold idsKept idsFrom idsAsked
      simp only [hvalue]
      exact .memoize hcache hc hvalue fun _ hc' hvalues => hvalues ▸ (asks_computeIds kind p).leaves rfl hc'

/-- The paths of start nodes, as they are kept. -/
def storedPaths (kind : Hierarchy) (stored : Json) : ServiceM Json := do
  return Json.ofStrings (← computePaths kind stored)

theorem asks_storedPaths (kind : Hierarchy) (stored : Json) :
    Asks kind (storedPaths kind stored) (pathsQuestions kind stored) :=
  .bind (asks_computePaths kind stored) fun _ => .pure _

/-- Paths that are kept are given. -/
theorem leaves_effectivePaths_of_kept (hcache : s.cache = some c) (hc : c.Usable) {paths : Json}
    (hvalue : c.values (.number p.userId) kind.pathsSlot = some paths) :
    Leaves running (effectivePaths kind p) s c (.ok paths) [] c.values := by
  refine ⟨c, ?_, .refl hc⟩
  rw [effectivePaths, perform_memoize_of_kept hcache hc hvalue, List.append_nil, ← hcache]

/-- Other paths are computed from the start nodes, which may themselves be kept. -/
theorem leaves_effectivePaths_of_ok (hcache : s.cache = some c) (hc : c.Usable)
    (hnone : c.values (.number p.userId) kind.pathsSlot = none) {stored : Json}
    (hids : idsFrom kind p s.source c.values = .ok stored) :
    Leaves running (effectivePaths kind p) s c (current (storedPaths kind stored) s.source)
      (idsAsked kind p c.values ++ pathsQuestions kind stored)
      ((idsKept kind p s.source c.values).fill (.number p.userId) kind.pathsSlot
        (current (storedPaths kind stored) s.source)) := by
  have hpaths := asks_storedPaths kind stored
  refine .memoize hcache hc hnone fun c' hc' hvalues => ?_
  have hfirst : Leaves (.number p.userId :: running) (effectiveIds kind p) { s with cache := some c' } c' (.ok stored)
      (idsAsked kind p c.values) (idsKept kind p s.source c.values) := by
    rw [← hids, ← hvalues]
    exact leaves_effectiveIds rfl hc'
  exact hfirst.bind (f := storedPaths kind) fun c'' questions hc'' hm => hm ▸ hpaths.leaves rfl hc''

theorem leaves_effectivePaths_of_error (hcache : s.cache = some c) (hc : c.Usable)
    (hnone : c.values (.number p.userId) kind.pathsSlot = none) {e : ServiceError}
    (hids : idsFrom kind p s.source c.values = .error e) :
    Leaves running (effectivePaths kind p) s c (.error e) (idsAsked kind p c.values)
      (idsKept kind p s.source c.values) := by
  refine .memoize hcache hc hnone fun c' hc' hvalues => .bind_of_error ?_
  rw [← hids, ← hvalues]
  exact leaves_effectiveIds rfl hc'

theorem leaves_hasAccess_of_path (hcache : s.cache = some c) (hc : c.Usable) {target : Target} {path : String}
    (htarget : target.path kind = .ok path) :
    Leaves running (hasAccess kind target (some p)) s c
      ((idsFrom kind p s.source c.values).bind fun stored =>
        (Stored.hasPathAccess path stored (Path.bin kind)).mapError .ofStored)
      (idsAsked kind p c.values) (idsKept kind p s.source c.values) := by
  have hids : Leaves running (effectiveIds kind p) s c _ _ _ := leaves_effectiveIds hcache hc
  obtain ⟨c', hperform, htracks⟩ := hids
  refine ⟨c', ?_, htracks⟩
  rw [perform_hasAccess_of_path htarget, hperform]
  cases idsFrom kind p s.source c.values with
  | error e => rfl
  | ok stored => rfl

end Leaves

end StartNodes.Service
