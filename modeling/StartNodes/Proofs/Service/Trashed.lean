import StartNodes.Proofs.Cache.Programs
import StartNodes.Proofs.Service.Lookups
import StartNodes.Proofs.Service.Runs

/-!
Nodes below the recycle bin. Nothing but an edit changes the trees, whatever is done with principals and whatever is
written to the cache, rightly or not; and what lies below the bin of a tree is refused on the text of its path, before
anything that has been kept is looked at. So no history of the service opens a node that is below the bin now.
-/

namespace StartNodes.Service

open StartNodes.Graph

variable {α β : Type}

/-! ### What leaves the source of paths alone -/

/-- Whatever comes of it, the source of paths stays the same. -/
structure KeepsSource (x : ServiceM α) : Prop where
  source_eq : ∀ s, (perform x s).2.source = s.source

namespace KeepsSource

theorem pure (a : α) : KeepsSource (pure a) := ⟨fun _ => rfl⟩

theorem get : KeepsSource (get : ServiceM Service) := ⟨fun _ => rfl⟩

theorem throw (e : ServiceError) : KeepsSource (throw e : ServiceM α) := ⟨fun _ => rfl⟩

theorem modify {f : Service → Service} (hf : ∀ s, (f s).source = s.source) : KeepsSource (modify f) := ⟨hf⟩

theorem answer {E : Type} (lift : E → ServiceError) (outcome : Except E α) : KeepsSource (answer lift outcome) :=
  ⟨fun s => by rw [perform_answer]⟩

theorem bind {x : ServiceM α} {f : α → ServiceM β} (hx : KeepsSource x) (hf : ∀ a, KeepsSource (f a)) :
    KeepsSource (x >>= f) := by
  refine ⟨fun s => ?_⟩
  have hfirst := hx.source_eq s
  rw [perform_bind]
  cases hperform : perform x s with
  | mk outcome s' =>
      rw [hperform] at hfirst
      cases outcome with
      | error e => exact hfirst
      | ok a => exact ((hf a).source_eq s').trans hfirst

theorem theCache : KeepsSource theCache := by
  refine .bind .get fun s => ?_
  split
  · exact .pure _
  · exact .throw _

theorem onCache (f : Cache Json → Except LockError α × Cache Json) : KeepsSource (onCache f) :=
  .bind .theCache fun _ => .bind (.modify fun _ => rfl) fun _ => .answer ..

/-- A computation keeps the source if its factory does, however it begins. -/
theorem compute {factory : ServiceM Json} (h : KeepsSource factory) (p : PrincipalKey) (slot : String) :
    KeepsSource (compute p slot factory) := by
  refine ⟨fun s => ?_⟩
  have hbegin := (onCache fun c => c.begin .here p slot).source_eq s
  rw [perform_compute]
  cases hperform : perform (Service.onCache fun c => c.begin .here p slot) s with
  | mk outcome s' =>
      rw [hperform] at hbegin
      cases outcome with
      | error e => exact hbegin
      | ok beginning =>
          cases beginning with
          | hit value => exact hbegin
          | miss stamp => exact (h.source_eq s').trans hbegin

theorem memoize {factory : ServiceM Json} (h : KeepsSource factory) (p : Profile) (slot : String) :
    KeepsSource (memoize p slot factory) := by
  refine .bind .get fun s => ?_
  split
  · exact h
  · exact h.compute ..

theorem record (kind : Hierarchy) (items : List Item) : KeepsSource (record kind items) :=
  .modify fun _ => rfl

theorem computeIds (kind : Hierarchy) (p : Profile) : KeepsSource (computeIds kind p) := by
  have hrecord : ∀ {γ : Type} (items : γ → List Item) (questions : List γ),
      KeepsSource (questions.forM fun question => Service.record kind (items question)) := by
    intro γ items questions
    exact ⟨fun s => by rw [perform_forM_record]⟩
  unfold Service.computeIds
  split
  · exact .bind (hrecord ..) fun _ => .bind .get fun _ => .bind (.answer ..) fun _ => .pure _
  · exact .bind (.answer ..) fun _ => .bind (hrecord ..) fun _ => .bind .get fun _ => .bind (.answer ..) fun _ => .pure _

theorem effectiveIds (kind : Hierarchy) (p : Profile) : KeepsSource (effectiveIds kind p) :=
  (computeIds kind p).memoize ..

theorem computePaths (kind : Hierarchy) (stored : Json) : KeepsSource (computePaths kind stored) := by
  have hresolve : ∀ items, KeepsSource (resolve kind items) := fun items =>
    .bind (.record kind items) fun _ => .bind .get fun _ => .answer ..
  have hresolveIds : ∀ ids, KeepsSource (resolveIds kind ids) := fun ids =>
    .bind (.record kind _) fun _ => .bind .get fun _ => .answer ..
  unfold Service.computePaths
  split
  · simp only
    split
    · exact .bind (.pure _) fun _ => .pure _
    · exact .bind (hresolveIds _) fun _ => .pure _
  · refine .bind (.answer ..) fun items => ?_
    simp only
    split
    · exact .bind (.pure _) fun _ => .answer ..
    · exact .bind (hresolve _) fun _ => .answer ..

theorem effectivePaths (kind : Hierarchy) (p : Profile) : KeepsSource (effectivePaths kind p) :=
  .memoize (.bind (.effectiveIds kind p) fun stored => .bind (.computePaths kind stored) fun _ => .pure _) ..

theorem hasAccess (kind : Hierarchy) (target : Target) (p : Option Profile) : KeepsSource (hasAccess kind target p) := by
  refine .bind (.answer ..) fun path => ?_
  split
  · exact .throw _
  · exact .bind (.effectiveIds ..) fun _ => .answer ..

theorem currentSettings : KeepsSource currentSettings := by
  refine .bind .get fun s => ?_
  split
  · exact .pure _
  · exact .bind (.answer ..) fun _ => .bind (.modify fun _ => rfl) fun _ => .pure _

theorem principal (name : String) : KeepsSource (principal name) := by
  refine .bind .get fun s => ?_
  split
  · exact .pure _
  · exact .throw _

theorem putPrincipal (name : String) (p : Profile) : KeepsSource (putPrincipal name p) :=
  .modify fun _ => rfl

theorem invalidate (kinds : List Hierarchy) (change : Change) : KeepsSource (invalidate kinds change) := by
  unfold Service.invalidate
  split
  · exact .pure _
  · exact .onCache _

theorem renewCache (given : Option LockTimeout) : KeepsSource (renewCache given) := by
  have htimeout : KeepsSource (timeoutFor given) := by
    unfold timeoutFor
    cases given with
    | none => exact .bind .currentSettings fun _ => .pure _
    | some t =>
        refine .bind (.pure t) fun timeout => ?_
        split
        · exact .pure _
        · exact .throw _
  have hreplace : KeepsSource (replaceCache given) :=
    .bind htimeout fun _ => .bind (.modify fun _ => rfl) fun _ => .bind (.modify fun _ => rfl) fun _ => .pure _
  refine .bind hreplace fun timeout => ?_
  split
  · exact .pure _
  · exact .throw _

theorem ask (q : Query) : KeepsSource q.ask := by
  cases q with
  | ids kind name => exact .bind (.principal name) fun _ => .bind (.effectiveIds ..) fun _ => .pure _
  | paths kind name => exact .bind (.principal name) fun _ => .bind (.effectivePaths ..) fun _ => .pure _
  | access kind target name =>
      cases name with
      | none => exact .bind (.hasAccess ..) fun _ => .pure _
      | some name => exact .bind (.principal name) fun _ => .bind (.hasAccess ..) fun _ => .pure _
  | sensitive name =>
      cases name with
      | none => exact .bind (.throw _) fun _ => .pure _
      | some name =>
          exact .bind (.principal name) fun _ => .bind (.bind .currentSettings fun _ => .pure _) fun _ => .pure _

end KeepsSource

/-! ### Histories -/

/-- Something done with the service. A computation is two acts, and whatever happens in its factory stands between
them. -/
inductive Act where
  | edit (kind : Hierarchy) (e : Edit NodeId)
  | enrol (name : String) (p : Profile)
  | revise (name : String) (change : Profile → Profile)
  | announce (kinds : List Hierarchy) (change : Change)
  | ask (q : Query)
  | renewCache (given : Option LockTimeout)
  | operate (op : Operation Json)
  | begin (who : Holder) (p : PrincipalKey) (slot : String)
  | finish (who : Holder) (p : PrincipalKey) (stamp : Nat) (slot : String) (outcome : Except ServiceError Json)

/-- The service after an act, whether or not the act is refused. -/
def Act.run (s : Service) : Act → Service
  | .edit kind e => (perform (Service.edit kind (e.map Item.ofId)) s).2
  | .enrol name p => (perform (putPrincipal name p) s).2
  | .revise name change => (perform (updatePrincipal name change) s).2
  | .announce kinds change => (perform (invalidate kinds change) s).2
  | .ask q => (perform q.ask s).2
  | .renewCache given => (perform (Service.renewCache given) s).2
  | .operate op => (perform (onCache fun c => c.apply op) s).2
  | .begin who p slot => (perform (onCache fun c => c.begin who p slot) s).2
  | .finish who p stamp slot outcome => finishSlot who p stamp slot outcome s

/-- The service after acts, one after the other. -/
def afterActs (acts : List Act) (s : Service) : Service :=
  acts.foldl Act.run s

/-- A computation whose factory runs is its beginning, what the factory does, and its end. -/
theorem computeReporting_eq_afterActs {s : Service} {p : PrincipalKey} {slot : String} {stamp : Nat} {s₁ : Service}
    (hbegin : perform (onCache fun c => c.begin .here p slot) s = (.ok (.miss stamp), s₁)) (acts : List Act)
    (outcome : Service → Except ServiceError Json) :
    (computeReporting p slot (fun s => ((outcome s, ()), afterActs acts s)) s).2 =
      afterActs (.begin .here p slot :: acts ++ [.finish .here p stamp slot (outcome s₁)]) s := by
  have hrun : Act.run s (.begin .here p slot) = s₁ := congrArg Prod.snd hbegin
  rw [computeReporting, hbegin, List.cons_append, afterActs, List.foldl_cons, hrun, List.foldl_append]
  rfl

/-- The trees are those of a directory that has been edited. -/
def HasEditedTrees (s : Service) : Prop :=
  ∃ d : Directory NodeId, s.source = .trees (.plain d) ∧ d.HasTrees

theorem HasEditedTrees.of_source {s s' : Service} (h : HasEditedTrees s) (hsource : s'.source = s.source) :
    HasEditedTrees s' := by
  obtain ⟨d, hd, htrees⟩ := h
  exact ⟨d, hsource.trans hd, htrees⟩

theorem HasEditedTrees.run {s : Service} (h : HasEditedTrees s) (act : Act) : HasEditedTrees (act.run s) := by
  cases act with
  | edit kind e =>
      obtain ⟨d, hsource, htrees⟩ := h
      refine ⟨(d.edit kind e).2, ?_, htrees.edit kind e⟩
      show (perform (Service.edit kind (e.map Item.ofId)) s).2.source = _
      rw [perform_edit, hsource, edited, Trees.edit_plain]
  | enrol name p => exact h.of_source ((KeepsSource.putPrincipal name p).source_eq s)
  | revise name change =>
      have hkeeps : KeepsSource (updatePrincipal name change) := .bind (.principal name) fun _ => .putPrincipal _ _
      exact h.of_source (hkeeps.source_eq s)
  | announce kinds change => exact h.of_source ((KeepsSource.invalidate kinds change).source_eq s)
  | ask q => exact h.of_source ((KeepsSource.ask q).source_eq s)
  | renewCache given => exact h.of_source ((KeepsSource.renewCache given).source_eq s)
  | operate op => exact h.of_source ((KeepsSource.onCache fun c => c.apply op).source_eq s)
  | begin who p slot => exact h.of_source ((KeepsSource.onCache fun c => c.begin who p slot).source_eq s)
  | finish who p stamp slot outcome => exact h.of_source rfl

theorem HasEditedTrees.afterActs {s : Service} (h : HasEditedTrees s) (acts : List Act) :
    HasEditedTrees (afterActs acts s) := by
  induction acts generalizing s with
  | nil => exact h
  | cons act acts ih => exact ih (h.run act)

/-! ### Below the recycle bin -/

theorem stored_hasPathAccess_of_isUnder {path bin : String} (hempty : ¬ path.isEmpty = true)
    (hunder : Path.isUnder path bin = true) (stored : Json) : Stored.hasPathAccess path stored bin = .ok false := by
  unfold Stored.hasPathAccess
  split
  · rw [Scope.hasPathAccess, if_neg hempty, if_pos hunder]
    rfl
  · rw [if_neg hempty, if_pos hunder]

/-- Whatever start nodes are kept or computed, a path under the bin is not accessible. -/
theorem perform_hasAccess_of_isUnder {kind : Hierarchy} {e : EntityPath} (hempty : ¬ e.path.isEmpty = true)
    (hunder : Path.isUnder e.path (Path.bin kind) = true) (p : Profile) (s : Service) :
    (perform (hasAccess kind (.entity (some e)) (some p)) s).1 =
      (perform (effectiveIds kind p) s).1.map fun _ => false := by
  have hpath : Target.path kind (.entity (some e)) = .ok e.path := rfl
  rw [perform_hasAccess_of_path hpath]
  cases perform (effectiveIds kind p) s with
  | mk outcome s' =>
      cases outcome with
      | error err => rfl
      | ok stored =>
          simp only
          rw [stored_hasPathAccess_of_isUnder hempty hunder]
          rfl

/-- The paths of nodes that are not below the bin do not lie under its path. -/
theorem isUnder_bin_of_mem_pathsOf {d : Directory NodeId} {kind : Hierarchy} (h : (d.tree kind).IsTreeOf kind)
    {starts asked : List NodeId} {table : PathTable NodeId} (htable : d.paths kind asked = .ok table)
    (hstarts : ∀ id ∈ starts, ¬ (d.tree kind).IsBelow id kind.binId) :
    ∀ path ∈ Scope.pathsOf table.path? starts, Path.isUnder path (Path.bin kind) = false := by
  intro path hpath
  obtain ⟨id, hid, hsome⟩ := List.mem_filterMap.mp hpath
  have hin : (⟨id, path⟩ : Scope.Placed NodeId).IsIn (d.tree kind) := by
    rw [PathTable.path?, PathTable.pathFrom?] at hsome
    -- the root is not asked for, its path is known
    by_cases hroot : id = rootId
    · rw [hroot, beq_self_eq_true, if_pos rfl] at hsome
      exact ⟨[rootId], hroot ▸ Lineage.start, (Option.some.inj hsome).symm.trans Directory.join_root.symm⟩
    · rw [beq_eq_false_iff_ne.mpr hroot, if_neg Bool.false_ne_true] at hsome
      obtain ⟨chain, hjoin, hchain⟩ := (Directory.lookup_of_paths h.toWellFormed htable id).2 path hsome
      exact ⟨chain, hchain, hjoin⟩
  rw [Bool.eq_false_iff]
  exact mt (Scope.isUnder_bin_iff h hin).mp (hstarts id hid)

variable {d : Directory NodeId} {kind : Hierarchy}

/-- What is kept plays no part, since the path alone decides. -/
theorem hasAccess_below_bin (h : (d.tree kind).IsTreeOf kind) {m : NodeId} (hm : (d.tree kind).IsBelow m kind.binId)
    (s : Service) :
    ∃ path, d.path? kind m = .ok (some path) ∧
      ∀ p entityId, (perform (hasAccess kind (.entity (some ⟨entityId, path⟩)) (some p)) s).1 =
        (perform (effectiveIds kind p) s).1.map fun _ => false := by
  obtain ⟨chain, hchain⟩ := h.exists_lineage (hm.target_mem h.toWellFormed)
  have hempty : ¬ (Path.join chain).isEmpty = true := by
    rw [Path.isEmpty_join hchain.ne_nil]
    exact Bool.false_ne_true
  have hunder : Path.isUnder (Path.join chain) (Path.bin kind) = true :=
    (Scope.isUnder_bin_iff (n := ⟨m, Path.join chain⟩) h ⟨chain, hchain, rfl⟩).mpr hm
  exact ⟨Path.join chain, Directory.path?_of_lineage h.toIsTree hchain, fun p entityId =>
    perform_hasAccess_of_isUnder (e := ⟨entityId, Path.join chain⟩) hempty hunder p s⟩

theorem effective_outside_bin (h : (d.tree kind).IsTreeOf kind) {s : Service} (hsource : s.source = .trees (.plain d))
    (hcache : s.cache = none) (p : Principal) :
    ∃ starts paths s₁ s₂,
      perform (effectiveIds kind p.profile) s = (.ok (Stored.ofIds starts), s₁) ∧
        (∀ id ∈ starts, ¬ (d.tree kind).IsBelow id kind.binId) ∧
        perform (effectivePaths kind p.profile) s = (.ok (Json.ofStrings paths), s₂) ∧
        ∀ path ∈ paths, Path.isUnder path (Path.bin kind) = false := by
  obtain ⟨starts, hcombine, hstarts⟩ := Scope.combineIds_trees h (p.groupStarts kind) (p.userStarts kind)
  have hout : ∀ id ∈ starts, ¬ (d.tree kind).IsBelow id kind.binId :=
    fun id hid => ((hstarts id).mp hid).stands.2
  obtain ⟨table, htable, _⟩ := Directory.paths_eq_ok h.toIsTree (starts.filter (· != rootId))
  rw [← hsource] at hcombine
  obtain ⟨questions, hids⟩ := perform_effectiveIds_uncached hcache kind p
  rw [hcombine] at hids
  obtain ⟨questions', hpaths⟩ := perform_effectivePaths_uncached hsource hcache hcombine htable
  exact ⟨starts, _, _, _, hids, hout, hpaths, isUnder_bin_of_mem_pathsOf h htable hout⟩

/-- Whatever has been done with the service, and whatever its cache holds, a question whether a principal has access to
a node below the recycle bin is answered no, if the principal's start nodes can be had at all. Without the cache, the
effective start nodes are not below the bin, nor are their paths under its path. -/
theorem trashed_is_out_of_reach (acts : List Act) (s₀ : Service) :
    let s := afterActs acts { s₀ with source := .trees .seeded }
    ∃ d : Directory NodeId, s.source = .trees (.plain d) ∧ ∀ kind,
      (∀ m, (d.tree kind).IsBelow m kind.binId →
        ∃ path, d.path? kind m = .ok (some path) ∧
          ∀ p entityId, (perform (hasAccess kind (.entity (some ⟨entityId, path⟩)) (some p)) s).1 =
            (perform (effectiveIds kind p) s).1.map fun _ => false) ∧
      ∀ p : Principal, ∃ starts paths s₁ s₂,
        perform (effectiveIds kind p.profile) { s with cache := none } = (.ok (Stored.ofIds starts), s₁) ∧
          (∀ id ∈ starts, ¬ (d.tree kind).IsBelow id kind.binId) ∧
          perform (effectivePaths kind p.profile) { s with cache := none } = (.ok (Json.ofStrings paths), s₂) ∧
          ∀ path ∈ paths, Path.isUnder path (Path.bin kind) = false := by
  have hseeded : HasEditedTrees { s₀ with source := .trees .seeded } := ⟨.seeded, rfl, Directory.hasTrees_seeded⟩
  have hafter := hseeded.afterActs acts
  intro s
  change HasEditedTrees s at hafter
  -- of the history, no more is needed than what it leaves
  clear_value s
  obtain ⟨d, hsource, htrees⟩ := hafter
  exact ⟨d, hsource, fun kind => ⟨fun m hm => hasAccess_below_bin (htrees kind) hm s,
    fun p => effective_outside_bin (htrees kind) (s := { s with cache := none }) hsource rfl p⟩⟩

end StartNodes.Service
