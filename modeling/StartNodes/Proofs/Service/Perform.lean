import StartNodes.Service.Queries
import StartNodes.Proofs.Scope.Combine
import Mathlib.Tactic.Common

/-!
Running what is asked of the service, step by step.
-/

namespace StartNodes.Service

variable {α β : Type}

@[simp]
theorem perform_pure (a : α) (s : Service) : perform (pure a) s = (.ok a, s) := rfl

@[simp]
theorem perform_get (s : Service) : perform get s = (.ok s, s) := rfl

@[simp]
theorem perform_modify (f : Service → Service) (s : Service) : perform (modify f) s = (.ok (), f s) := rfl

theorem perform_bind (x : ServiceM α) (f : α → ServiceM β) (s : Service) :
    perform (x >>= f) s =
      match perform x s with
      | (.ok a, s) => perform (f a) s
      | (.error e, s) => (.error e, s) := by
  show perform (ExceptT.bind x f) s = _
  unfold perform ExceptT.bind ExceptT.mk ExceptT.run
  show (StateT.bind x (ExceptT.bindCont f)) s = _
  unfold StateT.bind
  cases h : x s with
  | mk outcome s' => cases outcome <;> simp [StateT.run, ExceptT.bindCont, h] <;> rfl

theorem perform_bind_of_ok {x : ServiceM α} {f : α → ServiceM β} {s s' : Service} {a : α}
    (h : perform x s = (.ok a, s')) : perform (x >>= f) s = perform (f a) s' := by
  rw [perform_bind, h]

theorem perform_bind_of_error {x : ServiceM α} {f : α → ServiceM β} {s s' : Service} {e : ServiceError}
    (h : perform x s = (.error e, s')) : perform (x >>= f) s = (.error e, s') := by
  rw [perform_bind, h]

theorem perform_answer {E : Type} (lift : E → ServiceError) (outcome : Except E α) (s : Service) :
    perform (answer lift outcome) s = (outcome.mapError lift, s) := by
  cases outcome <;> rfl

theorem perform_forM_record {γ : Type} (kind : Hierarchy) (items : γ → List Item) (questions : List γ) (s : Service) :
    perform (questions.forM fun question => record kind (items question)) s =
      (.ok (), { s with questions := s.questions ++ questions.map fun question => ⟨kind, items question⟩ }) := by
  induction questions generalizing s with
  | nil =>
      rw [List.map_nil, List.append_nil]
      rfl
  | cons question questions ih =>
      have hstep : perform (record kind (items question)) s =
          (.ok (), { s with questions := s.questions ++ [⟨kind, items question⟩] }) := rfl
      rw [List.map_cons, List.append_cons]
      exact (perform_bind_of_ok hstep).trans (ih _)

theorem perform_resolve (kind : Hierarchy) (items : List Item) (s : Service) :
    perform (resolve kind items) s =
      ((s.source.lookUp kind items).mapError .lookup, { s with questions := s.questions ++ [⟨kind, items⟩] }) := by
  unfold resolve record
  rw [perform_bind_of_ok (perform_modify _ s), perform_bind_of_ok (perform_get _), perform_answer]

theorem perform_resolveIds (kind : Hierarchy) (ids : List NodeId) (s : Service) :
    perform (resolveIds kind ids) s =
      ((s.source.paths kind ids).mapError .lookup,
        { s with questions := s.questions ++ [⟨kind, ids.map Item.ofId⟩] }) := by
  unfold resolveIds record
  rw [perform_bind_of_ok (perform_modify _ s), perform_bind_of_ok (perform_get _), perform_answer]

theorem perform_principal (name : String) (s : Service) :
    perform (principal name) s =
      match s.principals.lookup name with
      | some p => (.ok p, s)
      | none => (.error (.unknownPrincipal name), s) := by
  unfold principal
  rw [perform_bind_of_ok (perform_get s)]
  cases s.principals.lookup name <;> rfl

theorem perform_onCache {c : Cache Json} {s : Service} (h : s.cache = some c)
    (f : Cache Json → Except LockError α × Cache Json) :
    perform (onCache f) s = ((f c).1.mapError .lock, { s with cache := some (f c).2 }) := by
  have hcache : perform theCache s = (.ok c, s) := by
    unfold theCache
    rw [perform_bind_of_ok (perform_get s), h]
    rfl
  unfold onCache
  rw [perform_bind_of_ok hcache]
  cases f c with
  | mk outcome c' =>
      simp only [setCache]
      rw [perform_bind_of_ok (perform_modify _ _), perform_answer]

theorem perform_onCache_of_none {s : Service} (h : s.cache = none) (f : Cache Json → Except LockError α × Cache Json) :
    perform (onCache f) s = (.error .noCache, s) := by
  have hcache : perform theCache s = (.error .noCache, s) := by
    unfold theCache
    rw [perform_bind_of_ok (perform_get s), h]
    rfl
  unfold onCache
  rw [perform_bind_of_error hcache]

theorem perform_memoize_of_none {s : Service} (h : s.cache = none) (p : Profile) (slot : String)
    (factory : ServiceM Json) : perform (memoize p slot factory) s = perform factory s := by
  unfold memoize
  rw [perform_bind_of_ok (perform_get s), h]

theorem perform_memoize_of_some {c : Cache Json} {s : Service} (h : s.cache = some c) (p : Profile) (slot : String)
    (factory : ServiceM Json) :
    perform (memoize p slot factory) s = perform (compute (.number p.userId) slot factory) s := by
  unfold memoize
  rw [perform_bind_of_ok (perform_get s), h]

theorem perform_compute (p : PrincipalKey) (slot : String) (factory : ServiceM Json) (s : Service) :
    perform (compute p slot factory) s =
      match perform (onCache fun c => c.begin .here p slot) s with
      | (.error e, s) => (.error e, s)
      | (.ok (.hit value), s) => (.ok value, s)
      | (.ok (.miss stamp), s) =>
          ((perform factory s).1, finishSlot .here p stamp slot (perform factory s).1 (perform factory s).2) := by
  have hrun : perform (compute p slot factory) s =
      ((computeReporting p slot (fun s => (((perform factory s).1, ()), (perform factory s).2)) s).1.1,
        (computeReporting p slot (fun s => (((perform factory s).1, ()), (perform factory s).2)) s).2) := rfl
  rw [hrun, computeReporting]
  cases perform (onCache fun c => c.begin .here p slot) s with
  | mk outcome s' =>
      cases outcome with
      | error e => rfl
      | ok beginning => cases beginning <;> rfl

theorem perform_hasAccess_of_error {kind : Hierarchy} {target : Target} {e : AccessError}
    (htarget : target.path kind = .error e) (p : Option Profile) (s : Service) :
    perform (hasAccess kind target p) s = (.error (.access e), s) := by
  unfold hasAccess
  rw [perform_bind, perform_answer, htarget]
  rfl

/-- Nobody has access to anything. -/
theorem perform_hasAccess_of_nobody {kind : Hierarchy} {target : Target} {path : String}
    (htarget : target.path kind = .ok path) (s : Service) :
    perform (hasAccess kind target none) s = (.error (.access .noPrincipal), s) := by
  unfold hasAccess
  rw [perform_bind, perform_answer, htarget]
  rfl

/-- Access to a target that has a path is decided once the effective start nodes are there. -/
theorem perform_hasAccess_of_path {kind : Hierarchy} {target : Target} {path : String}
    (htarget : target.path kind = .ok path) (p : Profile) (s : Service) :
    perform (hasAccess kind target (some p)) s =
      match perform (effectiveIds kind p) s with
      | (.ok stored, s) => ((Stored.hasPathAccess path stored (Path.bin kind)).mapError .ofStored, s)
      | (.error e, s) => (.error e, s) := by
  have hpath : perform (answer .access (target.path kind)) s = (.ok path, s) := by
    rw [perform_answer, htarget]
    rfl
  unfold hasAccess
  rw [perform_bind_of_ok hpath]
  simp only
  rw [perform_bind]
  cases perform (effectiveIds kind p) s with
  | mk outcome s' =>
      cases outcome with
      | ok stored => exact perform_answer _ _ _
      | error e => rfl

/-- Where a factory works on the cache alone, so does the computation: it is that of the cache. -/
theorem perform_compute_of_cache {c : Cache Json} {s : Service} (h : s.cache = some c) (p : PrincipalKey)
    (slot : String) {factory : ServiceM Json} {f : Cache Json → Except ServiceError Json × Cache Json}
    (hfactory : ∀ c', perform factory { s with cache := some c' } = ((f c').1, { s with cache := some (f c').2 })) :
    perform (compute p slot factory) s =
      ((c.getOrCompute .lock p slot f).1, { s with cache := some (c.getOrCompute .lock p slot f).2 }) := by
  rw [perform_compute, perform_onCache h]
  unfold Cache.getOrCompute
  cases c.begin .here p slot with
  | mk beginning c' =>
      cases beginning with
      | error err => rfl
      | ok beginning =>
          cases beginning with
          | hit value => rfl
          | miss stamp =>
              simp only [Except.mapError, hfactory c']
              rfl

/-! ### Recorded questions -/

section Asking

variable {ι : Type} [BEq ι] {kind : Hierarchy}

/-- Combines start nodes with paths that are asked for: once, about all declared nodes, or not at all if there are none. -/
def combineAsking (root : ι) (ask : List ι → ServiceM (PathTable ι)) (kind : Hierarchy) (groups own : List ι) :
    ServiceM (List ι) := do
  let ids := Scope.declared groups own
  let table ← if ids.isEmpty then pure [] else ask ids
  return Scope.combine kind (PathTable.pathFrom? table root) groups own

/-- Where each look-up records its own question, the questions recorded are those that are recorded beside a look-up that
records nothing. -/
theorem perform_combineAsking {root : ι} {ask : List ι → ServiceM (PathTable ι)} {items : List ι → List Item}
    (lookUp : PathSource → List ι → Except LookupError (PathTable ι))
    (hask : ∀ ids s, perform (ask ids) s =
      ((lookUp s.source ids).mapError .lookup, { s with questions := s.questions ++ [⟨kind, items ids⟩] }))
    (groups own : List ι) (s : Service) :
    perform (combineAsking root ask kind groups own) s =
      ((Scope.combineFrom root (lookUp s.source) kind groups own).mapError .lookup,
        { s with questions := s.questions ++ (Scope.questions groups own).map fun ids => ⟨kind, items ids⟩ }) := by
  unfold combineAsking Scope.combineFrom Scope.questions
  simp only
  by_cases hnone : (Scope.declared groups own).isEmpty = true
  · simp only [if_pos hnone, List.map_nil, List.append_nil]
    rfl
  · simp only [if_neg hnone, List.map_cons, List.map_nil]
    rw [perform_bind, hask]
    cases lookUp s.source (Scope.declared groups own) <;> rfl

/-- Computing start nodes of ids records the questions that its look-ups ask. -/
theorem perform_computeIds_of_nodes {p : Profile} {groups own : List NodeId} (h : p.nodes? kind = some (groups, own))
    (s : Service) :
    perform (computeIds kind p) s =
      perform (do return Stored.ofIds (← combineAsking rootId (resolveIds kind) kind groups own)) s := by
  unfold computeIds
  rw [h]
  simp only
  rw [perform_bind_of_ok (perform_forM_record kind _ _ s), perform_bind_of_ok (perform_get _), perform_bind, perform_answer,
    perform_bind, perform_combineAsking (fun source => source.paths kind) (perform_resolveIds kind)]
  rfl

/-- Computing start nodes of items records the questions that its look-ups ask. -/
theorem perform_computeIds_of_items {p : Profile} {groups own : List Item} (hnodes : p.nodes? kind = none)
    (hitems : p.items kind = .ok (groups, own)) (s : Service) :
    perform (computeIds kind p) s =
      perform (do return Stored.ofItems (← combineAsking Item.root (resolve kind) kind groups own)) s := by
  have hdeclared : perform (answer .ofStored (p.items kind)) s = (.ok (groups, own), s) := by
    rw [perform_answer, hitems]
    rfl
  unfold computeIds
  rw [hnodes]
  simp only
  rw [perform_bind_of_ok hdeclared]
  simp only
  rw [perform_bind_of_ok (perform_forM_record kind (fun items => items) _ s), perform_bind_of_ok (perform_get _),
    perform_bind, perform_answer, perform_bind,
    perform_combineAsking (fun source => source.lookUp kind) (perform_resolve kind)]
  rfl

end Asking

end StartNodes.Service
