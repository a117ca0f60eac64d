import StartNodes.Proofs.Directory.Paths
import StartNodes.Proofs.Service.Kept
import StartNodes.Proofs.Service.Lookups
import StartNodes.Proofs.Service.Runs

/-!
What a query about a principal does where the cache refuses nothing: its reply, its questions to the source of paths and
what it leaves behind, as functions of what the source has and of what has been kept. Computed start nodes can always be
looked up again, so where no look-up fails every question that is asked fills a slot.
-/

namespace StartNodes

/-- The path that a node has, if it has one; the root always does. -/
def Directory.pathNow? (d : Directory NodeId) (kind : Hierarchy) (id : NodeId) : Option String :=
  if id == rootId then some Path.root else (d.path? kind id).toOption.join

/-- A table lists the paths that the nodes have. -/
theorem Directory.pathNow?_of_paths {d : Directory NodeId} {kind : Hierarchy} {ids : List NodeId}
    {table : PathTable NodeId} (h : d.paths kind (ids.filter (· != rootId)) = .ok table) {id : NodeId} (hid : id ∈ ids) :
    table.path? id = d.pathNow? kind id := by
  unfold pathNow? PathTable.path? PathTable.pathFrom?
  by_cases hroot : id = rootId
  · rw [hroot, beq_self_eq_true, if_pos rfl, if_pos rfl]
  · obtain ⟨table', htable', hrows⟩ := paths_of_path? (path?_of_paths h)
    cases h.symm.trans htable'
    have hasked : id ∈ ids.filter (· != rootId) := List.mem_filter.mpr ⟨hid, bne_iff_ne.mpr hroot⟩
    rw [(hrows id).1 hasked, beq_eq_false_iff_ne.mpr hroot, if_neg Bool.false_ne_true, if_neg Bool.false_ne_true]
    rfl

namespace Service

/-! ### What is computed -/

section Computed

variable {kind : Hierarchy} {p : Profile} {source : PathSource} {stored : Json} {ids : List NodeId}

/-- A list of items that can be looked up, as computed start nodes are. -/
def IsScope (stored : Json) : Prop :=
  ∃ items, stored = Stored.ofItems items ∧ ∀ item ∈ items, item.isKey = true

theorem isScope_ofIds (ids : List NodeId) : IsScope (Stored.ofIds ids) := by
  refine ⟨ids.map Item.ofId, ?_, ?_⟩
  · rw [Stored.ofIds, Json.ofInts, Stored.ofItems, List.map_map]
    rfl
  · intro item hitem
    obtain ⟨id, -, rfl⟩ := List.mem_map.mp hitem
    rfl

theorem current_computeIds_of_nodes {declared : List NodeId × List NodeId} (h : p.nodes? kind = some declared) :
    current (computeIds kind p) source =
      ((Scope.combineIds source kind declared.1 declared.2).mapError .lookup).map Stored.ofIds := by
  unfold current computeIds
  rw [h]
  simp only
  rw [perform_bind_of_ok (perform_forM_record kind _ _ _), perform_bind_of_ok (perform_get _), perform_bind,
    perform_answer]
  cases Scope.combineIds source kind declared.1 declared.2 <;> rfl

theorem current_computeIds_of_items {declared : List Item × List Item} (h : p.nodes? kind = none)
    (hitems : p.items kind = .ok declared) :
    current (computeIds kind p) source =
      ((Scope.combineItems source kind declared.1 declared.2).mapError .lookup).map Stored.ofItems := by
  unfold current computeIds
  rw [h]
  simp only
  rw [hitems, perform_bind_of_ok (perform_answer ..), perform_bind_of_ok (perform_forM_record kind _ _ _),
    perform_bind_of_ok (perform_get _), perform_bind, perform_answer]
  cases Scope.combineItems source kind declared.1 declared.2 <;> rfl

theorem isKey_of_items {declared : List Item × List Item} (h : p.items kind = .ok declared) :
    ∀ item ∈ declared.1 ++ declared.2, item.isKey = true := by
  have hkeys : ∀ items found, Stored.keys items = .ok found → ∀ item ∈ found, item.isKey = true := by
    intro items found hfound
    unfold Stored.keys at hfound
    split at hfound
    · next hall =>
      cases hfound
      exact List.all_eq_true.mp hall
    · cases hfound
  obtain ⟨own, -, h⟩ := exists_of_bind_eq_ok h
  obtain ⟨groupKeys, hgroups, h⟩ := exists_of_bind_eq_ok h
  obtain ⟨ownKeys, hown, h⟩ := exists_of_bind_eq_ok h
  cases h
  intro item hitem
  rcases List.mem_append.mp hitem with hitem | hitem
  · exact hkeys _ _ hgroups item hitem
  · exact hkeys _ _ hown item hitem

/-- Start nodes are computed to a list that can be looked up, unless a look-up fails or nothing is asked. -/
theorem computeIds_cases (kind : Hierarchy) (p : Profile) (source : PathSource) :
    (∃ stored, current (computeIds kind p) source = .ok stored ∧ IsScope stored) ∨
      (∃ e, current (computeIds kind p) source = .error (.lookup e)) ∨
      (∃ e, current (computeIds kind p) source = .error e) ∧ idsQuestions kind p = [] ∧ p.nodes? kind = none := by
  cases hnodes : p.nodes? kind with
  | some declared =>
      rw [current_computeIds_of_nodes hnodes]
      cases Scope.combineIds source kind declared.1 declared.2 with
      | ok starts => exact .inl ⟨_, rfl, isScope_ofIds starts⟩
      | error e => exact .inr (.inl ⟨e, rfl⟩)
  | none =>
      cases hitems : p.items kind with
      | ok declared =>
          rw [current_computeIds_of_items hnodes hitems]
          cases hstarts : Scope.combineItems source kind declared.1 declared.2 with
          | ok starts =>
              exact .inl ⟨_, rfl, starts, rfl, fun item hitem =>
                isKey_of_items hitems item (Scope.mem_of_combineFrom hstarts hitem)⟩
          | error e => exact .inr (.inl ⟨e, rfl⟩)
      | error e =>
          refine .inr (.inr ⟨⟨.ofStored e, ?_⟩, ?_, rfl⟩)
          · unfold current computeIds
            rw [hnodes]
            simp only
            rw [hitems, perform_bind_of_error (perform_answer ..)]
          · unfold idsQuestions
            simp only [hnodes, hitems]

theorem current_storedPaths_of_ids (h : Stored.ids? stored = some ids) :
    current (storedPaths kind stored) source =
      if (ids.filter (· != rootId)).isEmpty then .ok (Json.ofStrings (Scope.pathsOf (PathTable.path? []) ids))
      else ((source.paths kind (ids.filter (· != rootId))).mapError .lookup).map fun table =>
        Json.ofStrings (Scope.pathsOf (PathTable.path? table) ids) := by
  unfold current storedPaths computePaths
  rw [h]
  simp only
  split
  · rfl
  · rw [perform_bind, perform_bind, perform_resolveIds]
    cases source.paths kind (ids.filter (· != rootId)) <;> rfl

theorem current_storedPaths_of_items {items : List Item} (h : Stored.ids? (Stored.ofItems items) = none)
    (hkeys : ∀ item ∈ items, item.isKey = true) :
    current (storedPaths kind (Stored.ofItems items)) source =
      if (Stored.asked items).isEmpty then .ok (Json.ofStrings (Scope.pathsOf (PathTable.pathFrom? [] Item.root) items))
      else ((source.lookUp kind (Stored.asked items)).mapError .lookup).map fun table =>
        Json.ofStrings (Scope.pathsOf (table.pathFrom? Item.root) items) := by
  have hlisted : Stored.listed (Stored.ofItems items) = .ok items := by
    rw [Stored.ofItems, Stored.listed, List.map_map]
    exact congrArg Except.ok (List.map_id items)
  have hall : ∀ table, Stored.pathsOf table items = .ok (Scope.pathsOf (table.pathFrom? Item.root) items) := by
    intro table
    rw [Stored.pathsOf, Stored.keys, if_pos (List.all_eq_true.mpr hkeys)]
    rfl
  unfold current storedPaths computePaths
  rw [h]
  simp only
  rw [hlisted, perform_bind, perform_bind_of_ok (perform_answer ..)]
  simp only [hall]
  by_cases hnone : (Stored.asked items).isEmpty = true
  · rw [if_pos hnone, if_pos hnone]
    rfl
  · rw [if_neg hnone, if_neg hnone]
    rw [perform_bind, perform_resolve]
    cases source.lookUp kind (Stored.asked items) <;> rfl

/-- The paths of computed start nodes can be had, unless a look-up fails. -/
theorem storedPaths_cases (h : IsScope stored) (kind : Hierarchy) (source : PathSource) :
    (∃ paths, current (storedPaths kind stored) source = .ok paths) ∨
      ∃ e, current (storedPaths kind stored) source = .error (.lookup e) := by
  obtain ⟨items, rfl, hkeys⟩ := h
  cases hids : Stored.ids? (Stored.ofItems items) with
  | some ids =>
      rw [current_storedPaths_of_ids hids]
      split
      · exact .inl ⟨_, rfl⟩
      · cases source.paths kind (ids.filter (· != rootId)) with
        | ok table => exact .inl ⟨_, rfl⟩
        | error e => exact .inr ⟨e, rfl⟩
  | none =>
      rw [current_storedPaths_of_items hids hkeys]
      split
      · exact .inl ⟨_, rfl⟩
      · cases source.lookUp kind (Stored.asked items) with
        | ok table => exact .inl ⟨_, rfl⟩
        | error e => exact .inr ⟨e, rfl⟩

/-- In a directory, the paths of start nodes are those that the nodes have. -/
theorem storedPaths_plain {d : Directory NodeId} {paths : Json} (hids : Stored.ids? stored = some ids)
    (h : current (storedPaths kind stored) (.trees (.plain d)) = .ok paths) :
    paths = Json.ofStrings (ids.filterMap (d.pathNow? kind)) := by
  have htable : ∃ table, d.paths kind (ids.filter (· != rootId)) = .ok table ∧
      paths = Json.ofStrings (Scope.pathsOf (PathTable.path? table) ids) := by
    rw [current_storedPaths_of_ids hids] at h
    split at h
    · next hnone =>
      cases h
      exact ⟨[], by rw [List.isEmpty_iff.mp hnone, Directory.paths], rfl⟩
    · rw [PathSource.paths] at h
      cases htable : d.paths kind (ids.filter (· != rootId)) with
      | error e =>
          rw [htable] at h
          cases h
      | ok table =>
          rw [htable] at h
          cases h
          exact ⟨table, rfl, rfl⟩
  obtain ⟨table, htable, rfl⟩ := htable
  rw [Scope.pathsOf, List.filterMap_congr fun id hid => Directory.pathNow?_of_paths htable hid]

theorem length_idsQuestions_le (kind : Hierarchy) (p : Profile) : (idsQuestions kind p).length ≤ 1 := by
  have hone : ∀ {ι : Type} [BEq ι] (groups own : List ι), (Scope.questions groups own).length ≤ 1 := by
    intro ι _ groups own
    unfold Scope.questions
    simp only
    split <;> simp
  unfold idsQuestions
  split
  · rw [List.length_map]
    exact hone ..
  · split
    · rw [List.length_map]
      exact hone ..
    · exact Nat.zero_le 1

theorem length_pathsQuestions_le (kind : Hierarchy) (stored : Json) : (pathsQuestions kind stored).length ≤ 1 := by
  unfold pathsQuestions
  split
  · simp only
    split <;> simp
  · split
    · split <;> simp
    · exact Nat.zero_le 1

end Computed

/-! ### What questions about a principal fill -/

section Progress

variable {kind : Hierarchy} {key : PrincipalKey} {asked asked' : List Question} {m m' m'' : SlotMap Json}

/-- How many slots of a principal's scope in a hierarchy are filled. -/
def filled (kind : Hierarchy) (key : PrincipalKey) (m : SlotMap Json) : Nat :=
  kind.slots.countP fun slot => (m key slot).isSome

/-- From one map to another by questions about a principal in a hierarchy: whatever was kept is kept, and of the
principal's scope at least as many slots have been filled as questions were put to the source. -/
structure Progress (kind : Hierarchy) (key : PrincipalKey) (asked : List Question) (m m' : SlotMap Json) : Prop where
  kept : ∀ q slot value, m q slot = some value → m' q slot = some value
  others : ∀ q slot, q ≠ key ∨ slot ∉ kind.slots → m' q slot = m q slot
  kinds : ∀ question ∈ asked, question.kind = kind
  count : asked.length + filled kind key m ≤ filled kind key m'

theorem Progress.refl (kind : Hierarchy) (key : PrincipalKey) (m : SlotMap Json) : Progress kind key [] m m :=
  ⟨fun _ _ _ h => h, fun _ _ _ => rfl, nofun, by simp⟩

theorem Progress.trans (h : Progress kind key asked m m') (h' : Progress kind key asked' m' m'') :
    Progress kind key (asked ++ asked') m m'' := by
  refine ⟨fun q slot value hvalue => h'.kept q slot value (h.kept q slot value hvalue),
    fun q slot hother => (h'.others q slot hother).trans (h.others q slot hother), fun question hmem => ?_, ?_⟩
  · exact (List.mem_append.mp hmem).elim (h.kinds question) (h'.kinds question)
  · have hfirst := h.count
    have hsecond := h'.count
    rw [List.length_append]
    omega

theorem filled_eq (kind : Hierarchy) (key : PrincipalKey) (m : SlotMap Json) :
    filled kind key m = (m key kind.pathsSlot).isSome.toNat + (m key kind.idsSlot).isSome.toNat := by
  unfold filled Hierarchy.slots
  rw [List.countP_cons, List.countP_singleton]
  cases (m key kind.pathsSlot).isSome <;> cases (m key kind.idsSlot).isSome <;> rfl

theorem filled_le (kind : Hierarchy) (key : PrincipalKey) (m : SlotMap Json) : filled kind key m ≤ 2 :=
  List.countP_le_length

theorem filled_put {slot : String} (hslot : slot ∈ kind.slots) (hnone : m key slot = none) (value : Json) :
    filled kind key (m.put key slot (some value)) = filled kind key m + 1 := by
  have hne := kind.idsSlot_ne_pathsSlot kind
  rw [filled_eq, filled_eq]
  rcases List.mem_pair.mp hslot with rfl | rfl
  · rw [SlotMap.put_self, SlotMap.put_of_ne (.inr hne.symm) m, hnone]
    rfl
  · rw [SlotMap.put_self, SlotMap.put_of_ne (.inr hne) m, hnone]
    show 1 + _ = 0 + _ + 1
    omega

/-- An empty slot is filled after one question, or none. -/
theorem Progress.put {slot : String} (hslot : slot ∈ kind.slots) (hnone : m key slot = none)
    (hkinds : ∀ question ∈ asked, question.kind = kind) (hlength : asked.length ≤ 1) (value : Json) :
    Progress kind key asked m (m.put key slot (some value)) := by
  refine ⟨fun q other found hfound => ?_, fun q other hother => ?_, hkinds, ?_⟩
  · rw [SlotMap.put_of_ne ?_ m, hfound]
    by_contra hsame
    rw [not_or, not_not, not_not] at hsame
    rw [hsame.1, hsame.2, hnone] at hfound
    cases hfound
  · exact SlotMap.put_of_ne (hother.imp_right fun h => (ne_of_mem_of_not_mem hslot h).symm) m _
  · rw [filled_put hslot hnone]
    omega

variable {p : Profile} {source : PathSource} {stored : Json}

theorem kind_of_mem_idsQuestions {question : Question} (h : question ∈ idsQuestions kind p) : question.kind = kind := by
  unfold idsQuestions at h
  split at h
  · obtain ⟨_, -, rfl⟩ := List.mem_map.mp h
    rfl
  · split at h
    · obtain ⟨_, -, rfl⟩ := List.mem_map.mp h
      rfl
    · cases h

theorem kind_of_mem_pathsQuestions {question : Question} (h : question ∈ pathsQuestions kind stored) :
    question.kind = kind := by
  unfold pathsQuestions at h
  split at h
  · simp only at h
    split at h
    · cases h
    · rw [List.mem_singleton.mp h]
  · split at h
    · split at h
      · cases h
      · rw [List.mem_singleton.mp h]
    · cases h

/-- Where no look-up fails, asking for start nodes fills their slot, or asks nothing. -/
theorem progress_ids (hfound : ∀ e, idsFrom kind p source m ≠ .error (.lookup e)) :
    Progress kind (.number p.userId) (idsAsked kind p m) m (idsKept kind p source m) := by
  cases hvalue : m (.number p.userId) kind.idsSlot with
  | some stored =>
      rw [idsKept_of_some hvalue, idsAsked, hvalue]
      exact .refl ..
  | none =>
      unfold idsKept idsAsked idsFrom at *
      simp only [hvalue] at hfound ⊢
      rcases computeIds_cases kind p source with ⟨stored, hstored, -⟩ | ⟨e, he⟩ | ⟨⟨e, he⟩, hnothing, -⟩
      · rw [hstored]
        exact .put kind.idsSlot_mem_slots hvalue (fun _ => kind_of_mem_idsQuestions) (length_idsQuestions_le kind p) stored
      · exact absurd he (hfound e)
      · rw [he, hnothing]
        exact .refl ..

/-- Asking for start nodes leaves paths as they are. -/
theorem idsKept_pathsSlot (kind other : Hierarchy) (p : Profile) (source : PathSource) (m : SlotMap Json)
    (q : PrincipalKey) : idsKept kind p source m q other.pathsSlot = m q other.pathsSlot := by
  unfold idsKept
  cases idsFrom kind p source m with
  | ok stored => exact SlotMap.put_of_ne (.inr (kind.idsSlot_ne_pathsSlot other).symm) m _
  | error e => rfl

/-- Start nodes that have been given are kept. -/
theorem idsKept_idsSlot (h : idsFrom kind p source m = .ok stored) :
    idsKept kind p source m (.number p.userId) kind.idsSlot = some stored := by
  rw [idsKept, h]
  exact SlotMap.put_self ..

/-- Start nodes that are kept can be looked up, if those were that were kept before. -/
theorem isScope_idsKept (hscope : ∀ stored, m (.number p.userId) kind.idsSlot = some stored → IsScope stored)
    (h : idsKept kind p source m (.number p.userId) kind.idsSlot = some stored) : IsScope stored := by
  cases hvalue : m (.number p.userId) kind.idsSlot with
  | some old =>
      rw [idsKept_of_some hvalue] at h
      exact hscope stored h
  | none =>
      unfold idsKept idsFrom at h
      simp only [hvalue] at h
      rcases computeIds_cases kind p source with ⟨found, hfound, hscope⟩ | ⟨e, he⟩ | ⟨⟨e, he⟩, -⟩
      · rw [hfound] at h
        cases (SlotMap.put_self m _ _ _).symm.trans h
        exact hscope
      · rw [he] at h
        cases hvalue.symm.trans h
      · rw [he] at h
        cases hvalue.symm.trans h

end Progress

/-! ### What a query does -/

/-- The principal that a query is about, if its name is known. -/
def Query.about? (q : Query) (s : Service) : Option Profile :=
  q.subject?.bind fun name => s.principals.lookup name

/-- The hierarchy that a query is about, if it is about one. -/
def Query.kind? : Query → Option Hierarchy
  | .ids kind _ => some kind
  | .paths kind _ => some kind
  | .access kind _ _ => some kind
  | .sensitive _ => none

/-- What a query about a principal may do where the cache refuses nothing: its reply, the questions that it puts to the
source, and what is kept afterwards. -/
inductive Answering (p : Profile) (source : PathSource) (m : SlotMap Json) :
    Query → Except ServiceError Reply → List Question → SlotMap Json → Prop
  | ids {kind : Hierarchy} {name : String} :
      Answering p source m (.ids kind name) ((idsFrom kind p source m).map .scope) (idsAsked kind p m)
        (idsKept kind p source m)
  | pathsKept {kind : Hierarchy} {name : String} {paths : Json}
      (hkept : m (.number p.userId) kind.pathsSlot = some paths) :
      Answering p source m (.paths kind name) (.ok (.scope paths)) [] m
  | pathsComputed {kind : Hierarchy} {name : String} {stored paths : Json}
      (hnone : m (.number p.userId) kind.pathsSlot = none) (hids : idsFrom kind p source m = .ok stored)
      (hpaths : current (storedPaths kind stored) source = .ok paths) :
      Answering p source m (.paths kind name) (.ok (.scope paths)) (idsAsked kind p m ++ pathsQuestions kind stored)
        ((idsKept kind p source m).put (.number p.userId) kind.pathsSlot (some paths))
  | pathsFailed {kind : Hierarchy} {name : String} {stored : Json} {e : ServiceError}
      (hids : idsFrom kind p source m = .ok stored) (hpaths : current (storedPaths kind stored) source = .error e) :
      Answering p source m (.paths kind name) (.error e) (idsAsked kind p m ++ pathsQuestions kind stored)
        (idsKept kind p source m)
  | pathsRefused {kind : Hierarchy} {name : String} {e : ServiceError}
      (hids : idsFrom kind p source m = .error e) :
      Answering p source m (.paths kind name) (.error e) (idsAsked kind p m) (idsKept kind p source m)
  | access {kind : Hierarchy} {target : Target} {name : Option String} {path : String}
      (htarget : target.path kind = .ok path) :
      Answering p source m (.access kind target name)
        (((idsFrom kind p source m).bind fun stored =>
          (Stored.hasPathAccess path stored (Path.bin kind)).mapError .ofStored).map .verdict)
        (idsAsked kind p m) (idsKept kind p source m)
  | accessRefused {kind : Hierarchy} {target : Target} {name : Option String} {e : AccessError}
      (htarget : target.path kind = .error e) :
      Answering p source m (.access kind target name) (.error (.access e)) [] m
  | sensitive {name : Option String} {reply : Except ServiceError Reply} :
      Answering p source m (.sensitive name) reply [] m

section Ask

variable {s : Service} {c : Cache Json} {p : Profile} {name : String} {β : Type}

theorem perform_named {α : Type} (hp : s.principals.lookup name = some p) (x : Profile → ServiceM α) (f : α → β) :
    perform (do return f (← x (← principal name))) s = ((perform (x p) s).1.map f, (perform (x p) s).2) := by
  have hfound : perform (principal name) s = (.ok p, s) := by
    rw [perform_principal, hp]
  rw [perform_bind_of_ok hfound, perform_bind]
  cases perform (x p) s with
  | mk outcome s' => cases outcome <;> rfl

theorem ask_answering (hcache : s.cache = some c) (hc : c.Usable) {q : Query} (hp : q.about? s = some p) :
    ∃ reply asked m c' settings,
      perform q.ask s = (reply, { s with cache := some c', questions := s.questions ++ asked, settings }) ∧
        c.Tracks [] c' m ∧ Answering p s.source c.values q reply asked m := by
  obtain ⟨name, hsubject, hp⟩ := Option.bind_eq_some_iff.mp hp
  -- the query is what it asks of the principal, with its answer wrapped
  have hasks : ∀ {α : Type} (x : Profile → ServiceM α) (f : α → Reply),
      q.ask = (do return f (← x (← principal name))) →
        ∀ outcome asked m, Leaves [] (x p) s c outcome asked m →
          ∃ c' settings, perform q.ask s =
            (outcome.map f, { s with cache := some c', questions := s.questions ++ asked, settings }) ∧
              c.Tracks [] c' m := by
    intro α x f hq outcome asked m ⟨c', hperform, htracks⟩
    refine ⟨c', s.settings, ?_, htracks⟩
    rw [hq, perform_named hp, hperform]
  cases q with
  | ids kind other =>
      cases hsubject
      obtain ⟨c', settings, hperform, htracks⟩ := hasks (effectiveIds kind) .scope rfl _ _ _ (leaves_effectiveIds hcache hc)
      exact ⟨_, _, _, c', settings, hperform, htracks, .ids⟩
  | paths kind other =>
      cases hsubject
      cases hvalue : c.values (.number p.userId) kind.pathsSlot with
      | some paths =>
          obtain ⟨c', settings, hperform, htracks⟩ :=
            hasks (effectivePaths kind) .scope rfl _ _ _ (leaves_effectivePaths_of_kept hcache hc hvalue)
          exact ⟨_, _, _, c', settings, hperform, htracks, .pathsKept hvalue⟩
      | none =>
          cases hids : idsFrom kind p s.source c.values with
          | error e =>
              obtain ⟨c', settings, hperform, htracks⟩ :=
                hasks (effectivePaths kind) .scope rfl _ _ _ (leaves_effectivePaths_of_error hcache hc hvalue hids)
              exact ⟨_, _, _, c', settings, hperform, htracks, .pathsRefused hids⟩
          | ok stored =>
              obtain ⟨c', settings, hperform, htracks⟩ :=
                hasks (effectivePaths kind) .scope rfl _ _ _ (leaves_effectivePaths_of_ok hcache hc hvalue hids)
              cases hpaths : current (storedPaths kind stored) s.source with
              | ok paths =>
                  rw [hpaths] at hperform htracks
                  exact ⟨_, _, _, c', settings, hperform, htracks, .pathsComputed hvalue hids hpaths⟩
              | error e =>
                  rw [hpaths] at hperform htracks
                  exact ⟨_, _, _, c', settings, hperform, htracks, .pathsFailed hids hpaths⟩
  | access kind target other =>
      cases hsubject
      cases htarget : target.path kind with
      | error e =>
          refine ⟨_, [], _, c, s.settings, ?_, .refl hc, .accessRefused htarget⟩
          rw [List.append_nil, ← hcache]
          refine (perform_named hp (fun p => hasAccess kind target (some p)) Reply.verdict).trans ?_
          rw [perform_hasAccess_of_error htarget]
          rfl
      | ok path =>
          obtain ⟨c', settings, hperform, htracks⟩ := hasks (fun p => hasAccess kind target (some p)) .verdict rfl _ _ _
            (leaves_hasAccess_of_path hcache hc htarget)
          exact ⟨_, _, _, c', settings, hperform, htracks, .access htarget⟩
  | sensitive other =>
      cases hsubject
      obtain ⟨outcome, settings, hperform⟩ := perform_hasSensitiveAccess p s
      refine ⟨outcome.map .verdict, [], _, c, settings, ?_, .refl hc, .sensitive⟩
      have hsame : perform (hasSensitiveAccess (some p)) s = (outcome, { s with settings }) := hperform s.cache s.questions
      rw [List.append_nil, ← hcache]
      refine (perform_named hp (fun p => hasSensitiveAccess (some p)) Reply.verdict).trans ?_
      rw [hsame]

/-- A query about nobody who is known is refused, whatever else there is. -/
theorem ask_of_unknown (q : Query) : ∃ e, ∀ s, q.about? s = none → perform q.ask s = (.error e, s) := by
  have hunknown : ∀ name (s : Service), s.principals.lookup name = none →
      perform (principal name) s = (.error (.unknownPrincipal name), s) := by
    intro name s hnone
    rw [perform_principal, hnone]
  cases q with
  | ids kind name => exact ⟨_, fun s hp => perform_bind_of_error (hunknown name s hp)⟩
  | paths kind name => exact ⟨_, fun s hp => perform_bind_of_error (hunknown name s hp)⟩
  | access kind target name =>
      cases name with
      | some name => exact ⟨_, fun s hp => perform_bind_of_error (hunknown name s hp)⟩
      | none =>
          cases htarget : target.path kind with
          | error e => exact ⟨_, fun s _ => perform_bind_of_error (perform_hasAccess_of_error htarget none s)⟩
          | ok path =>
              exact ⟨.access .noPrincipal, fun s _ => perform_bind_of_error (perform_hasAccess_of_nobody htarget s)⟩
  | sensitive name =>
      cases name with
      | some name => exact ⟨_, fun s hp => perform_bind_of_error (hunknown name s hp)⟩
      | none => exact ⟨.access .noPrincipal, fun _ _ => rfl⟩

/-- Where locks cannot be waited for, a query about a scope is refused and asks the source nothing. -/
theorem ask_of_fault (hcache : s.cache = some c) {f : LockTimeout.Fault} (hfault : c.timeout.fault? = some f) {q : Query}
    (hp : q.about? s = some p) :
    ∃ reply c' settings, perform q.ask s = (reply, { s with cache := some c', settings }) ∧ c.Alike c' ∧
      ∀ kind, q.kind? = some kind → ∃ e, reply = .error e := by
  obtain ⟨name, hsubject, hp⟩ := Option.bind_eq_some_iff.mp hp
  have hids : ∀ kind, perform (effectiveIds kind p) s = _ := fun kind => perform_memoize_of_fault hcache hfault
  have halike := c.ensure_alike (.number p.userId)
  cases q with
  | ids kind other =>
      cases hsubject
      refine ⟨.error (.lock (.unusable f)), _, s.settings, ?_, halike, fun _ _ => ⟨_, rfl⟩⟩
      refine (perform_named hp (effectiveIds kind) Reply.scope).trans ?_
      rw [hids]
      rfl
  | paths kind other =>
      cases hsubject
      refine ⟨.error (.lock (.unusable f)), _, s.settings, ?_, halike, fun _ _ => ⟨_, rfl⟩⟩
      refine (perform_named hp (effectivePaths kind) Reply.scope).trans ?_
      rw [effectivePaths, perform_memoize_of_fault hcache hfault]
      rfl
  | access kind target other =>
      cases hsubject
      cases htarget : target.path kind with
      | error e =>
          refine ⟨.error (.access e), c, s.settings, ?_, ⟨rfl, rfl, fun _ _ => rfl⟩, fun _ _ => ⟨_, rfl⟩⟩
          refine (perform_named hp (fun p => hasAccess kind target (some p)) Reply.verdict).trans ?_
          rw [perform_hasAccess_of_error htarget, ← hcache]
          rfl
      | ok path =>
          refine ⟨.error (.lock (.unusable f)), _, s.settings, ?_, halike, fun _ _ => ⟨_, rfl⟩⟩
          refine (perform_named hp (fun p => hasAccess kind target (some p)) Reply.verdict).trans ?_
          rw [perform_hasAccess_of_path htarget, hids]
          rfl
  | sensitive other =>
      cases hsubject
      obtain ⟨outcome, settings, hperform⟩ := perform_hasSensitiveAccess p s
      have hsame : perform (hasSensitiveAccess (some p)) s = (outcome, { s with settings }) := hperform s.cache s.questions
      refine ⟨outcome.map .verdict, c, settings, ?_, ⟨rfl, rfl, fun _ _ => rfl⟩, fun kind hkind => ?_⟩
      · refine (perform_named hp (fun p => hasSensitiveAccess (some p)) Reply.verdict).trans ?_
        rw [hsame, ← hcache]
      · cases hkind

end Ask

/-- A reply is what the start nodes and paths give that are kept for a principal. -/
def RepliesFrom (kept : String → Option Json) : Query → Reply → Prop
  | .ids kind _, reply => ∃ stored, kept kind.idsSlot = some stored ∧ reply = .scope stored
  | .paths kind _, reply => ∃ paths, kept kind.pathsSlot = some paths ∧ reply = .scope paths
  | .access kind target _, reply =>
      ∃ stored path given, kept kind.idsSlot = some stored ∧ target.path kind = .ok path ∧
        Stored.hasPathAccess path stored (Path.bin kind) = .ok given ∧ reply = .verdict given
  | .sensitive _, _ => True

namespace Answering

variable {p : Profile} {source : PathSource} {m m' : SlotMap Json} {q : Query} {reply : Except ServiceError Reply}
  {asked : List Question}

/-- What is kept for others, and in other hierarchies, stays as it is. -/
theorem others (h : Answering p source m q reply asked m') {key : PrincipalKey} {slot : String}
    (hother : key ≠ .number p.userId ∨ ∀ kind, q.kind? = some kind → slot ∉ kind.slots) : m' key slot = m key slot := by
  have hput : ∀ {kind : Hierarchy} {filled : String} (m : SlotMap Json) found, q.kind? = some kind → filled ∈ kind.slots →
      m.put (.number p.userId) filled found key slot = m key slot :=
    fun m found hkind hfilled => SlotMap.put_of_ne
      (hother.imp_right fun hslot => (ne_of_mem_of_not_mem hfilled (hslot _ hkind)).symm) m found
  have hids : ∀ kind, q.kind? = some kind → idsKept kind p source m key slot = m key slot := by
    intro kind hkind
    unfold idsKept
    cases idsFrom kind p source m with
    | ok stored => exact hput m _ hkind kind.idsSlot_mem_slots
    | error e => rfl
  cases h with
  | @pathsComputed kind => exact (hput _ _ rfl kind.pathsSlot_mem_slots).trans (hids kind rfl)
  | ids | pathsFailed | pathsRefused | access => exact hids _ rfl
  | pathsKept | accessRefused | sensitive => rfl

/-- Where no look-up fails, slots of one scope are filled as questions are asked. -/
theorem progress (h : Answering p source m q reply asked m')
    (hscope : ∀ (kind : Hierarchy) stored, m (.number p.userId) kind.idsSlot = some stored → IsScope stored)
    (hfound : ∀ e, reply ≠ .error (.lookup e)) :
    ∃ kind, (∀ other, q.kind? = some other → other = kind) ∧ Progress kind (.number p.userId) asked m m' := by
  have hids : ∀ kind, (∀ e, idsFrom kind p source m = .error e → reply = .error e) →
      Progress kind (.number p.userId) (idsAsked kind p m) m (idsKept kind p source m) :=
    fun kind hreply => progress_ids fun e he => hfound e (hreply _ he)
  cases h with
  | @ids kind _ => exact ⟨kind, fun _ h => (Option.some.inj h).symm, hids kind fun e he => by rw [he]; rfl⟩
  | @pathsKept kind _ _ _ => exact ⟨kind, fun _ h => (Option.some.inj h).symm, .refl ..⟩
  | @pathsComputed kind _ stored paths hnone hstored hpaths =>
      refine ⟨kind, fun _ h => (Option.some.inj h).symm, (hids kind fun e he => ?_).trans (.put ?_ ?_ ?_ ?_ paths)⟩
      · cases hstored.symm.trans he
      · exact kind.pathsSlot_mem_slots
      · rw [idsKept_pathsSlot, hnone]
      · exact fun _ => kind_of_mem_pathsQuestions
      · exact length_pathsQuestions_le kind stored
  | @pathsFailed kind _ stored e hstored hpaths =>
      -- kept start nodes can be looked up, so no more than a look-up can fail
      rcases storedPaths_cases (isScope_idsKept (hscope kind) (idsKept_idsSlot hstored)) kind source with
        ⟨paths, hok⟩ | ⟨e', he'⟩
      · cases hpaths.symm.trans hok
      · cases hpaths.symm.trans he'
        exact absurd rfl (hfound e')
  | @pathsRefused kind _ e he => exact ⟨kind, fun _ h => (Option.some.inj h).symm, hids kind fun e' he' => by
      cases he.symm.trans he'
      rfl⟩
  | @access kind _ _ path _ => exact ⟨kind, fun _ h => (Option.some.inj h).symm, hids kind fun e he => by rw [he]; rfl⟩
  | @accessRefused kind _ _ _ _ => exact ⟨kind, fun _ h => (Option.some.inj h).symm, .refl ..⟩
  | sensitive => exact ⟨.content, nofun, .refl ..⟩

/-- Start nodes that are kept can be looked up, if those were that were kept before. -/
theorem scope (h : Answering p source m q reply asked m')
    (hscope : ∀ (kind : Hierarchy) stored, m (.number p.userId) kind.idsSlot = some stored → IsScope stored)
    (kind : Hierarchy) {stored : Json} (hstored : m' (.number p.userId) kind.idsSlot = some stored) :
    IsScope stored := by
  have hids : ∀ other, idsKept other p source m (.number p.userId) kind.idsSlot = some stored → IsScope stored := by
    intro other hkept
    by_cases hkind : other = kind
    · subst hkind
      exact isScope_idsKept (hscope other) hkept
    · refine hscope kind stored ?_
      rw [← hkept, idsKept]
      have hslot := Hierarchy.ne_of_mem_slots (Ne.symm hkind) kind.idsSlot_mem_slots other.idsSlot_mem_slots
      cases idsFrom other p source m with
      | ok found => exact (SlotMap.put_of_ne (.inr hslot) m _).symm
      | error e => rfl
  cases h with
  | @pathsComputed other =>
      rw [SlotMap.put_of_ne (.inr (kind.idsSlot_ne_pathsSlot other))] at hstored
      exact hids other hstored
  | ids | pathsFailed | pathsRefused | access => exact hids _ hstored
  | pathsKept | accessRefused | sensitive => exact hscope kind _ hstored

/-- A query for the start nodes or paths of a principal that declares nodes is answered, if no look-up fails. -/
theorem exists_reply (h : Answering p source m q reply asked m')
    (hscope : ∀ (kind : Hierarchy) stored, m (.number p.userId) kind.idsSlot = some stored → IsScope stored)
    (hfound : ∀ e, reply ≠ .error (.lookup e)) {kind : Hierarchy} {name : String}
    (hq : q = .ids kind name ∨ q = .paths kind name) (hnodes : p.nodes? kind ≠ none) :
    ∃ answer, reply = .ok answer := by
  have hids : ∀ e, idsFrom kind p source m = .error e → ∃ e', e = .lookup e' := by
    intro e he
    unfold idsFrom at he
    split at he
    · cases he
    · rcases computeIds_cases kind p source with ⟨stored, hstored, -⟩ | ⟨e', he'⟩ | ⟨-, -, hnone⟩
      · cases he.symm.trans hstored
      · exact ⟨e', Except.error.inj (he.symm.trans he')⟩
      · exact absurd hnone hnodes
  cases h with
  | ids =>
      rcases hq with hq | hq <;> cases hq
      cases houtcome : idsFrom kind p source m with
      | ok stored => exact ⟨_, rfl⟩
      | error e =>
          obtain ⟨e', rfl⟩ := hids e houtcome
          rw [houtcome] at hfound
          exact absurd rfl (hfound e')
  | pathsKept | pathsComputed => exact ⟨_, rfl⟩
  | pathsFailed hstored hpaths =>
      rcases hq with hq | hq <;> cases hq
      rcases storedPaths_cases (isScope_idsKept (hscope kind) (idsKept_idsSlot hstored)) kind source with
        ⟨paths, hok⟩ | ⟨e', he'⟩
      · cases hpaths.symm.trans hok
      · cases hpaths.symm.trans he'
        exact absurd rfl (hfound e')
  | pathsRefused he =>
      rcases hq with hq | hq <;> cases hq
      obtain ⟨e', rfl⟩ := hids _ he
      exact absurd rfl (hfound e')
  | access | accessRefused | sensitive => rcases hq with hq | hq <;> cases hq

/-- Paths are filled in by a query for them, which gives them. -/
theorem filledPaths (h : Answering p source m q reply asked m') {kind : Hierarchy} {paths : Json}
    (hnone : m (.number p.userId) kind.pathsSlot = none) (hpaths : m' (.number p.userId) kind.pathsSlot = some paths) :
    ∃ name, q = .paths kind name ∧ reply = .ok (.scope paths) := by
  have hids : ∀ other, idsKept other p source m (.number p.userId) kind.pathsSlot ≠ some paths := by
    intro other
    rw [idsKept_pathsSlot, hnone]
    exact nofun
  cases h with
  | @pathsComputed other name stored found hother hstored hfound =>
      by_cases hkind : kind = other
      · subst hkind
        rw [SlotMap.put_self] at hpaths
        cases hpaths
        exact ⟨name, rfl, rfl⟩
      · have hslot := Hierarchy.ne_of_mem_slots hkind kind.pathsSlot_mem_slots other.pathsSlot_mem_slots
        rw [SlotMap.put_of_ne (.inr hslot)] at hpaths
        exact absurd hpaths (hids other)
  | ids | pathsFailed | pathsRefused | access => exact absurd hpaths (hids _)
  | pathsKept | accessRefused | sensitive =>
      rw [hnone] at hpaths
      cases hpaths

/-- Paths that were not kept are those of the start nodes that are kept from then on. -/
theorem exists_storedPaths {kind : Hierarchy} {name : String} {paths : Json}
    (h : Answering p source m (.paths kind name) (.ok (.scope paths)) asked m')
    (hnone : m (.number p.userId) kind.pathsSlot = none) :
    ∃ stored, m' (.number p.userId) kind.idsSlot = some stored ∧ current (storedPaths kind stored) source = .ok paths := by
  cases h with
  | pathsKept hkept =>
      rw [hnone] at hkept
      cases hkept
  | @pathsComputed _ _ stored _ _ hids hpaths =>
      refine ⟨stored, ?_, hpaths⟩
      rw [SlotMap.put_of_ne (.inr (kind.idsSlot_ne_pathsSlot kind)), idsKept_idsSlot hids]

/-- A reply is what is kept once it has been given. -/
theorem repliesFrom {answer : Reply} (h : Answering p source m q (.ok answer) asked m') :
    RepliesFrom (m' (.number p.userId)) q answer := by
  generalize hreply : (Except.ok answer : Except ServiceError Reply) = reply at h
  cases h with
  | @ids kind _ =>
      cases hids : idsFrom kind p source m with
      | error e =>
          rw [hids] at hreply
          cases hreply
      | ok stored =>
          rw [hids] at hreply
          cases hreply
          exact ⟨stored, idsKept_idsSlot hids, rfl⟩
  | pathsKept hkept =>
      cases hreply
      exact ⟨_, hkept, rfl⟩
  | pathsComputed =>
      cases hreply
      exact ⟨_, SlotMap.put_self .., rfl⟩
  | pathsFailed | pathsRefused | accessRefused => cases hreply
  | @access kind target _ path htarget =>
      cases hids : idsFrom kind p source m with
      | error e =>
          rw [hids] at hreply
          cases hreply
      | ok stored =>
          rw [hids] at hreply
          cases hgiven : Stored.hasPathAccess path stored (Path.bin kind) with
          | error e =>
              simp only [Except.bind, hgiven] at hreply
              cases hreply
          | ok given =>
              simp only [Except.bind, hgiven] at hreply
              cases hreply
              exact ⟨stored, path, given, idsKept_idsSlot hids, htarget, hgiven, rfl⟩
  | sensitive => exact trivial

end Answering

end Service

end StartNodes
