import StartNodes.Proofs.Cache.Slots
import StartNodes.Proofs.Service.Perform

/-!
Answers from a cache. As long as everything that is kept for a principal is what would be computed now, whatever is
asked about the principal has the answer that it has without a cache, and what is kept for the principal afterwards is
again what would be computed. Nothing is added to what is kept for others.
-/

namespace StartNodes.Service

variable {α β : Type} {p : Profile}

/-- The answer where paths come from a source and nothing is kept. -/
def current (x : ServiceM α) (source : PathSource) : Except ServiceError α :=
  (perform x { source }).1

/-- Computes the paths of the effective start nodes of a principal. -/
def freshPaths (kind : Hierarchy) (p : Profile) : ServiceM Json := do
  return Json.ofStrings (← computePaths kind (← effectiveIds kind p))

/-- The slots of a principal, each with what fills it. -/
inductive FilledBy (p : Profile) : String → ServiceM Json → Prop where
  | ids (kind : Hierarchy) : FilledBy p kind.idsSlot (computeIds kind p)
  | paths (kind : Hierarchy) : FilledBy p kind.pathsSlot (freshPaths kind p)

theorem FilledBy.unique {slot : String} {x y : ServiceM Json} (hx : FilledBy p slot x) (hy : FilledBy p slot y) :
    x = y := by
  -- no two slots have one name
  generalize hslot : slot = other at hy
  cases hx with
  | ids kind =>
      cases hy with
      | ids kind' =>
          cases kind <;> cases kind' <;> first | rfl | exact absurd hslot (by decide)
      | paths kind' => cases kind <;> cases kind' <;> exact absurd hslot (by decide)
  | paths kind =>
      cases hy with
      | ids kind' => cases kind <;> cases kind' <;> exact absurd hslot (by decide)
      | paths kind' =>
          cases kind <;> cases kind' <;> first | rfl | exact absurd hslot (by decide)

theorem FilledBy.mem_slots {slot : String} {x : ServiceM Json} (hx : FilledBy p slot x) :
    ∃ kind : Hierarchy, slot ∈ kind.slots := by
  cases hx with
  | ids kind => exact ⟨kind, List.mem_cons_self⟩
  | paths kind => exact ⟨kind, List.mem_cons_of_mem _ (List.mem_singleton_self _)⟩

/-- What a cache keeps for a principal, if there is a cache, is what would be computed now. -/
def Fresh (source : PathSource) (cache : Option (Cache Json)) (p : Profile) : Prop :=
  ∀ c, cache = some c → ∀ slot factory value, FilledBy p slot factory →
    c.peek? (.number p.userId) slot = some value → current factory source = .ok value

/-- The cache, if there is one, refuses nothing. -/
def CanServe (cache : Option (Cache Json)) : Prop :=
  ∀ c, cache = some c → c.Usable

/-- One cache comes from another by work for one principal: nothing has been added for others. -/
inductive ServedFor (key : PrincipalKey) : Option (Cache Json) → Option (Cache Json) → Prop where
  | uncached : ServedFor key none none
  | cached {c c' : Cache Json} (husable : c.Usable → c'.Usable)
      (hothers : ∀ q slot value, q ≠ key → c'.peek? q slot = some value → c.peek? q slot = some value) :
      ServedFor key (some c) (some c')

namespace ServedFor

variable {key : PrincipalKey} {cache cache' cache'' : Option (Cache Json)}

theorem refl (cache : Option (Cache Json)) : ServedFor key cache cache := by
  cases cache with
  | none => exact .uncached
  | some c => exact .cached (fun h => h) fun _ _ _ _ h => h

theorem trans (h : ServedFor key cache cache') (h' : ServedFor key cache' cache'') : ServedFor key cache cache'' := by
  cases h with
  | uncached => exact h'
  | cached husable hothers =>
      cases h' with
      | cached husable' hothers' =>
          exact .cached (fun h => husable' (husable h)) fun q slot value hq h =>
            hothers q slot value hq (hothers' q slot value hq h)

theorem canServe (h : ServedFor key cache cache') (hcan : CanServe cache) : CanServe cache' := by
  cases h with
  | uncached => exact hcan
  | cached husable _ =>
      intro c hc
      cases hc
      exact husable (hcan _ rfl)

/-- What is kept for others stays what would be computed now. -/
theorem fresh (h : ServedFor key cache cache') {source : PathSource} (hp : PrincipalKey.number p.userId ≠ key)
    (hfresh : Fresh source cache p) : Fresh source cache' p := by
  cases h with
  | uncached => exact hfresh
  | cached _ hothers =>
      intro c hc slot factory value hfill hvalue
      cases hc
      exact hfresh _ rfl slot factory value hfill (hothers _ slot value hp hvalue)

theorem of_alike {c c' : Cache Json} (h : c.Alike c') : ServedFor key (some c) (some c') :=
  .cached h.usable fun q slot _ _ hvalue => (h.peek q slot).symm.trans hvalue

theorem finish {E : Type} (c : Cache Json) (stamp : Nat) (slot : String) (outcome : Except E Json) :
    ServedFor key (some c) (some (c.finish .here key stamp slot outcome)) := by
  cases outcome with
  | error e => exact of_alike (c.finish_error_alike key stamp slot e)
  | ok value =>
      obtain ⟨htimeout, hheld, hpeek⟩ := c.finish_fills key stamp slot value
      refine .cached (fun h => ⟨htimeout ▸ h.timeout, hheld ▸ h.free⟩) fun q other found hq hfound => ?_
      exact (hpeek q other found hfound).resolve_right fun h => hq h.1

end ServedFor

theorem fresh_of_alike {source : PathSource} {c c' : Cache Json} (h : c.Alike c') (hfresh : Fresh source (some c) p) :
    Fresh source (some c') p := by
  intro _ hc slot factory value hfill hvalue
  cases hc
  exact hfresh c rfl slot factory value hfill ((h.peek _ slot).symm.trans hvalue)

/-- A computation that ends with what would be computed now leaves what is kept fresh. -/
theorem fresh_finish {source : PathSource} {c : Cache Json} {slot : String} {factory : ServiceM Json}
    (hfill : FilledBy p slot factory) (hfresh : Fresh source (some c) p) (stamp : Nat) :
    Fresh source (some (c.finish .here (.number p.userId) stamp slot (current factory source))) p := by
  cases hcurrent : current factory source with
  | error e => exact fresh_of_alike (c.finish_error_alike _ stamp slot e) hfresh
  | ok value =>
      rintro _ ⟨⟩ other factory' found hfill' hfound
      obtain ⟨_, _, hpeek⟩ := c.finish_fills (.number p.userId) stamp slot value
      rcases hpeek _ other found hfound with hold | ⟨_, rfl, rfl⟩
      · exact hfresh c rfl other factory' found hfill' hold
      · rw [hfill'.unique hfill, hcurrent]

theorem fresh_none (source : PathSource) (p : Profile) : Fresh source none p :=
  nofun

/-! ### What is asked about a principal -/

/-- What is asked about a principal: it changes nothing but the record of questions and, in the cache, what is kept for
the principal. If that is fresh it stays so, and the answer is the one that there is without a cache. -/
def Serves (p : Profile) (x : ServiceM α) : Prop :=
  ∀ s, CanServe s.cache → ∃ outcome cache questions,
    perform x s = (outcome, { s with cache, questions }) ∧ ServedFor (.number p.userId) s.cache cache ∧
      (Fresh s.source s.cache p → outcome = current x s.source ∧ Fresh s.source cache p)

/-- The answer without a cache may be given as any function of the source. -/
theorem Serves.of_eq {x : ServiceM α} (expected : PathSource → Except ServiceError α)
    (h : ∀ s, CanServe s.cache → ∃ outcome cache questions,
      perform x s = (outcome, { s with cache, questions }) ∧ ServedFor (.number p.userId) s.cache cache ∧
        (Fresh s.source s.cache p → outcome = expected s.source ∧ Fresh s.source cache p)) : Serves p x := by
  have hcurrent : ∀ source, current x source = expected source := by
    intro source
    obtain ⟨outcome, _, _, hperform, _, hfresh⟩ := h { source } nofun
    rw [current, hperform]
    exact (hfresh (fresh_none source p)).1
  intro s hcan
  rw [hcurrent]
  exact h s hcan

/-- What does not look at the cache serves every principal. -/
theorem Serves.of_source {x : ServiceM α} (expected : PathSource → Except ServiceError α)
    (h : ∀ s, ∃ questions, perform x s = (expected s.source, { s with questions })) : Serves p x := by
  refine .of_eq expected fun s _ => ?_
  obtain ⟨questions, hperform⟩ := h s
  exact ⟨_, s.cache, questions, hperform, .refl _, fun hfresh => ⟨rfl, hfresh⟩⟩

namespace Serves

theorem pure (a : α) : Serves p (pure a : ServiceM α) :=
  .of_source (fun _ => .ok a) fun s => ⟨s.questions, perform_pure a s⟩

theorem answer {E : Type} (lift : E → ServiceError) (outcome : Except E α) : Serves p (answer lift outcome) :=
  .of_source (fun _ => outcome.mapError lift) fun s => ⟨s.questions, perform_answer lift outcome s⟩

/-- What is asked next may depend on the source. -/
theorem source {f : PathSource → ServiceM α} (h : ∀ source, Serves p (f source)) : Serves p (do f (← get).source) := by
  refine .of_eq (fun source => current (f source) source) fun s hcan => ?_
  rw [perform_bind_of_ok (perform_get s)]
  exact h s.source s hcan

theorem bind {x : ServiceM α} {f : α → ServiceM β} (hx : Serves p x) (hf : ∀ a, Serves p (f a)) :
    Serves p (x >>= f) := by
  refine .of_eq (fun source =>
    match current x source with
    | .ok a => current (f a) source
    | .error e => .error e) fun s hcan => ?_
  obtain ⟨outcome, cache, questions, hperform, hserved, hfresh⟩ := hx s hcan
  cases outcome with
  | error e =>
      refine ⟨.error e, cache, questions, perform_bind_of_error hperform, hserved, fun h => ?_⟩
      obtain ⟨hcurrent, hcache⟩ := hfresh h
      rw [← hcurrent]
      exact ⟨rfl, hcache⟩
  | ok a =>
      obtain ⟨outcome', cache', questions', hperform', hserved', hfresh'⟩ :=
        hf a { s with cache, questions } (hserved.canServe hcan)
      refine ⟨outcome', cache', questions', ?_, hserved.trans hserved', fun h => ?_⟩
      · rw [perform_bind_of_ok hperform, hperform']
      · obtain ⟨hcurrent, hcache⟩ := hfresh h
        rw [← hcurrent]
        exact hfresh' hcache

/-- A slot is filled with what would be computed now, or holds it already. -/
theorem memoize {slot : String} {factory : ServiceM Json} (hfill : FilledBy p slot factory)
    (hfactory : Serves p factory) : Serves p (memoize p slot factory) := by
  refine .of_eq (current factory) fun s hcan => ?_
  cases hcache : s.cache with
  | none =>
      obtain ⟨outcome, cache, questions, hperform, hserved, hfresh⟩ := hfactory s hcan
      rw [hcache] at hserved hfresh
      exact ⟨outcome, cache, questions, (perform_memoize_of_none hcache p slot factory).trans hperform, hserved, hfresh⟩
  | some c =>
      have husable : c.Usable := hcan c hcache
      rw [perform_memoize_of_some hcache, perform_compute, perform_onCache hcache]
      cases hvalue : c.peek? (.number p.userId) slot with
      | some value =>
          rw [Cache.begin_of_hit husable hvalue]
          refine ⟨.ok value, some c, s.questions, rfl, .refl _, fun hfresh => ?_⟩
          exact ⟨(hfresh c rfl slot factory value hfill hvalue).symm, hfresh⟩
      | none =>
          have halike := c.begun_alike (.number p.userId)
          have hcan₁ : CanServe (some (c.begun (.number p.userId))) := by
            rintro _ ⟨⟩
            exact halike.usable husable
          obtain ⟨outcome, cache, questions, hperform, hserved, hfresh⟩ :=
            hfactory { s with cache := some (c.begun (.number p.userId)) } hcan₁
          rw [Cache.begin_of_miss husable hvalue]
          simp only [Except.mapError]
          rw [hperform]
          cases hserved with
          | @cached _ c₂ husable₂ hothers₂ =>
              have hfirst : ServedFor (.number p.userId) (some c) (some c₂) :=
                (ServedFor.of_alike halike).trans (.cached husable₂ hothers₂)
              refine ⟨outcome, some (c₂.finish .here (.number p.userId) _ slot outcome), questions, rfl,
                hfirst.trans (.finish c₂ _ slot outcome), fun h => ?_⟩
              obtain ⟨rfl, hcache₂⟩ := hfresh (fresh_of_alike halike h)
              exact ⟨rfl, fresh_finish hfill hcache₂ _⟩

end Serves

/-! ### Scopes -/

theorem serves_record (p : Profile) (kind : Hierarchy) (items : List Item) : Serves p (record kind items) :=
  .of_source (fun _ => .ok ()) fun _ => ⟨_, rfl⟩

theorem serves_forM_record {γ : Type} (p : Profile) (kind : Hierarchy) (items : γ → List Item) (questions : List γ) :
    Serves p (questions.forM fun question => record kind (items question)) :=
  .of_source (fun _ => .ok ()) fun s => ⟨_, perform_forM_record kind items questions s⟩

theorem serves_computeIds (kind : Hierarchy) (p : Profile) : Serves p (computeIds kind p) := by
  unfold computeIds
  cases p.nodes? kind with
  | some declared =>
      refine .bind (serves_forM_record p kind _ _) fun _ => ?_
      exact Serves.source (f := fun source => do
        return Stored.ofIds (← answer .lookup (Scope.combineIds source kind declared.1 declared.2)))
        fun source => .bind (.answer _ _) fun ids => .pure _
  | none =>
      refine .bind (.answer _ _) fun declared => .bind (serves_forM_record p kind _ _) fun _ => ?_
      exact Serves.source (f := fun source => do
        return Stored.ofItems (← answer .lookup (Scope.combineItems source kind declared.1 declared.2)))
        fun source => .bind (.answer _ _) fun items => .pure _

theorem serves_resolve (p : Profile) (kind : Hierarchy) (items : List Item) : Serves p (resolve kind items) :=
  .bind (serves_record p kind items) fun _ =>
    .source (f := fun source => answer .lookup (source.lookUp kind items)) fun _ => .answer _ _

theorem serves_resolveIds (p : Profile) (kind : Hierarchy) (ids : List NodeId) : Serves p (resolveIds kind ids) :=
  .bind (serves_record p kind _) fun _ =>
    .source (f := fun source => answer .lookup (source.paths kind ids)) fun _ => .answer _ _

theorem serves_computePaths (p : Profile) (kind : Hierarchy) (stored : Json) : Serves p (computePaths kind stored) := by
  unfold computePaths
  cases Stored.ids? stored with
  | some ids =>
      simp only
      split
      · exact .bind (.pure []) fun table => .pure _
      · exact .bind (serves_resolveIds p kind _) fun table => .pure _
  | none =>
      refine .bind (.answer _ _) fun items => ?_
      simp only
      split
      · exact .bind (.pure []) fun table => .answer _ _
      · exact .bind (serves_resolve p kind _) fun table => .answer _ _

theorem serves_effectiveIds (kind : Hierarchy) (p : Profile) : Serves p (effectiveIds kind p) :=
  .memoize (.ids kind) (serves_computeIds kind p)

/-- The paths are computed from start nodes that may themselves be kept. -/
theorem serves_effectivePaths (kind : Hierarchy) (p : Profile) : Serves p (effectivePaths kind p) := by
  have hfresh : Serves p (freshPaths kind p) :=
    .bind (serves_effectiveIds kind p) fun stored => .bind (serves_computePaths p kind stored) fun _ => .pure _
  exact .memoize (.paths kind) hfresh

theorem serves_hasAccess (kind : Hierarchy) (target : Target) (p : Profile) :
    Serves p (hasAccess kind target (some p)) :=
  .bind (.answer _ _) fun _ => .bind (serves_effectiveIds kind p) fun _ => .answer _ _

end StartNodes.Service
