import StartNodes.Proofs.Principal.View
import StartNodes.Proofs.Service.Answering

/-!
Services that have the same in one hierarchy: the same tree, the same of each principal that the hierarchy shows, and the
same in its slots. Whatever is asked about that hierarchy, they answer it alike and stay alike.
-/

namespace StartNodes

namespace Directory

variable {ι : Type} [BEq ι] [NodeName ι] {kind : Hierarchy}

theorem searchFrom_congr {d d' : Directory Item} (h : d'.tree kind = d.tree kind) (table : PathTable Item)
    (items : List Item) : d'.searchFrom kind table items = d.searchFrom kind table items := by
  induction items generalizing table with
  | nil => rfl
  | cons item items ih => simp only [searchFrom, pathOf?, path?_congr h, ih]

end Directory

namespace Service

variable {kind : Hierarchy} {α β : Type}

theorem sameAnswers_of_tree_eq {d d' : Directory NodeId} (h : d'.tree kind = d.tree kind) :
    SameAnswers kind (.trees (.plain d)) (.trees (.plain d')) := by
  have hitems : (d'.map Item.ofId).tree kind = (d.map Item.ofId).tree kind := by
    rw [Directory.tree_map, Directory.tree_map, h]
  constructor
  · funext ids
    rw [PathSource.paths, Directory.paths_congr h, PathSource.paths]
  · funext items
    exact Directory.searchFrom_congr hitems [] items

section Views

variable {p p' : Profile}

/-- What is asked about a hierarchy depends on what it shows of the principal. -/
theorem computeIds_congr (h : p'.view kind = p.view kind) : computeIds kind p' = computeIds kind p := by
  have hstarts : p'.userStarts kind = p.userStarts kind := congrArg (fun view => view.2.1) h
  have hgroups : p'.groupDeclarations kind = p.groupDeclarations kind := by
    rw [p'.groupDeclarations_eq_view, h, p.groupDeclarations_eq_view]
  have hnodes : p'.nodes? kind = p.nodes? kind := by
    rw [Profile.nodes?, hgroups, hstarts, Profile.nodes?]
  have hitems : p'.items kind = p.items kind := by
    rw [Profile.items, Profile.groupItems, hgroups, hstarts, Profile.items, Profile.groupItems]
  unfold computeIds
  rw [hnodes, hitems]

theorem effectiveIds_congr (h : p'.view kind = p.view kind) : effectiveIds kind p' = effectiveIds kind p := by
  have hid : p'.userId = p.userId := congrArg Prod.fst h
  unfold effectiveIds memoize
  rw [computeIds_congr h, hid]

theorem effectivePaths_congr (h : p'.view kind = p.view kind) : effectivePaths kind p' = effectivePaths kind p := by
  have hid : p'.userId = p.userId := congrArg Prod.fst h
  unfold effectivePaths memoize
  rw [effectiveIds_congr h, hid]

theorem hasAccess_congr (h : p'.view kind = p.view kind) (target : Target) :
    hasAccess kind target (some p') = hasAccess kind target (some p) := by
  unfold hasAccess
  simp only [effectiveIds_congr h]

end Views

/-! ### Services that only the other hierarchy tells apart -/

/-- Two caches that refuse the same and keep the same in the slots of a hierarchy. No lock is held beside the caller. -/
structure SameSlots (kind : Hierarchy) (c c' : Cache Json) : Prop where
  fault : c'.timeout.fault? = c.timeout.fault?
  free : c.heldElsewhere = []
  free' : c'.heldElsewhere = []
  values : ∀ key, ∀ slot ∈ kind.slots, c'.values key slot = c.values key slot

namespace SameSlots

variable {c c' c'' c₁ c₁' : Cache Json}

theorem refl (h : c.heldElsewhere = []) : SameSlots kind c c :=
  ⟨rfl, h, h, fun _ _ _ => rfl⟩

theorem symm (h : SameSlots kind c c') : SameSlots kind c' c :=
  ⟨h.fault.symm, h.free', h.free, fun key slot hslot => (h.values key slot hslot).symm⟩

theorem trans (h : SameSlots kind c c') (h' : SameSlots kind c' c'') : SameSlots kind c c'' :=
  ⟨h'.fault.trans h.fault, h.free, h'.free',
    fun key slot hslot => (h'.values key slot hslot).trans (h.values key slot hslot)⟩

theorem of_alike (h : c.heldElsewhere = []) (halike : c.Alike c₁) : SameSlots kind c c₁ :=
  ⟨by rw [halike.timeout], h, halike.heldElsewhere.trans h, fun key slot _ => halike.peek key slot⟩

/-- Caches that refuse nothing. -/
theorem of_usable (hc : c.Usable) (hc' : c'.Usable)
    (h : ∀ key, ∀ slot ∈ kind.slots, c'.values key slot = c.values key slot) : SameSlots kind c c' :=
  ⟨hc'.timeout.trans hc.timeout.symm, hc.free, hc'.free, h⟩

theorem usable (h : SameSlots kind c c') (hfault : c.timeout.fault? = none) : c.Usable ∧ c'.Usable :=
  ⟨⟨hfault, h.free⟩, ⟨h.fault.trans hfault, h.free'⟩⟩

/-- The same slot is filled in both. -/
theorem fill {m m' : SlotMap Json} (h : ∀ key, ∀ slot ∈ kind.slots, m' key slot = m key slot) (p : PrincipalKey)
    (filled : String) (outcome : Except ServiceError Json) (key : PrincipalKey) :
    ∀ slot ∈ kind.slots, m'.fill p filled outcome key slot = m.fill p filled outcome key slot := by
  intro slot hslot
  cases outcome with
  | error e => exact h key slot hslot
  | ok value => simp only [SlotMap.fill, SlotMap.put, h key slot hslot]

theorem forgetAll (h : SameSlots kind c c') (rows rows' : List (PrincipalKey × String))
    (hrows : ∀ key, ∀ slot ∈ kind.slots, (key, slot) ∈ rows' ↔ (key, slot) ∈ rows) :
    SameSlots kind (c.forgetAll rows).2 (c'.forgetAll rows').2 := by
  cases hfault : c.timeout.fault? with
  | some f =>
      rw [Cache.forgetAll_of_fault hfault, Cache.forgetAll_of_fault (h.fault.trans hfault)]
      exact h
  | none =>
      obtain ⟨hc, hc'⟩ := h.usable hfault
      obtain ⟨c₁, hforget, hdrops⟩ := Cache.forgetAll_drops hc rows
      obtain ⟨c₁', hforget', hdrops'⟩ := Cache.forgetAll_drops hc' rows'
      rw [hforget, hforget']
      refine .of_usable (hdrops.usable hc) (hdrops'.usable hc') fun key slot hslot => ?_
      by_cases hrow : (key, slot) ∈ rows
      · exact (hdrops'.dropped key slot ((hrows key slot hslot).mpr hrow)).trans (hdrops.dropped key slot hrow).symm
      · rw [Cache.values, hdrops'.kept key slot fun hmem => hrow ((hrows key slot hslot).mp hmem)]
        exact (h.values key slot hslot).trans (hdrops.kept key slot hrow).symm

theorem apply (h : SameSlots kind c c') (op op' : Operation Json)
    (hop : ∀ key, ∀ slot ∈ kind.slots, (c'.values.apply op').2 key slot = (c.values.apply op).2 key slot) :
    SameSlots kind (c.apply op).2 (c'.apply op').2 := by
  cases hfault : c.timeout.fault? with
  | some f =>
      have hsame : SameSlots kind c _ := .of_alike h.free (Cache.apply_of_fault hfault op)
      have hsame' : SameSlots kind c' _ := .of_alike h.free' (Cache.apply_of_fault (h.fault.trans hfault) op')
      exact (hsame.symm.trans h).trans hsame'
  | none =>
      obtain ⟨hc, hc'⟩ := h.usable hfault
      have htracks := Cache.apply_tracks_outside hc op
      have htracks' := Cache.apply_tracks_outside hc' op'
      refine .of_usable htracks.usable htracks'.usable ?_
      rw [htracks.values, htracks'.values]
      exact hop

theorem apply_same (h : SameSlots kind c c') (op : Operation Json) : SameSlots kind (c.apply op).2 (c'.apply op).2 := by
  refine h.apply op op fun key slot hslot => ?_
  have hvalues := h.values key slot hslot
  cases op with
  | get | contains => exact hvalues
  | set p other value => simp only [SlotMap.apply, SlotMap.put, hvalues]
  | forget p other => simp only [SlotMap.apply, SlotMap.put, hvalues]
  | forgetPrincipal p => simp only [SlotMap.apply, SlotMap.clear, hvalues]

end SameSlots

/-- Two services that have the same in a hierarchy, whatever they have in the other. Their source is a directory. -/
structure Indistinct (kind : Hierarchy) (s s' : Service) : Prop where
  trees : ∃ d d', s.source = .trees (.plain d) ∧ s'.source = .trees (.plain d') ∧ d'.tree kind = d.tree kind
  cache : Option.Rel (SameSlots kind) s.cache s'.cache
  principals : ∀ name, (s'.principals.lookup name).map (fun p => p.view kind) =
    (s.principals.lookup name).map fun p => p.view kind

namespace Indistinct

variable {s s' s'' : Service}

theorem refl {d : Directory NodeId} (hsource : s.source = .trees (.plain d))
    (hfree : ∀ c, s.cache = some c → c.heldElsewhere = []) : Indistinct kind s s := by
  refine ⟨⟨d, d, hsource, hsource, rfl⟩, ?_, fun _ => rfl⟩
  cases hcache : s.cache with
  | none => exact .none
  | some c => exact .some (.refl (hfree c hcache))

theorem symm (h : Indistinct kind s s') : Indistinct kind s' s := by
  obtain ⟨⟨d, d', hd, hd', htree⟩, hcache, hprincipals⟩ := h
  refine ⟨⟨d', d, hd', hd, htree.symm⟩, ?_, fun name => (hprincipals name).symm⟩
  generalize s.cache = cache, s'.cache = cache' at hcache
  cases hcache with
  | none => exact .none
  | some h => exact .some h.symm

theorem trans (h : Indistinct kind s s') (h' : Indistinct kind s' s'') : Indistinct kind s s'' := by
  obtain ⟨⟨d, d', hd, hd', htree⟩, hcache, hprincipals⟩ := h
  obtain ⟨⟨e, e', he, he', htree'⟩, hcache', hprincipals'⟩ := h'
  cases hd'.symm.trans he
  refine ⟨⟨d, e', hd, he', htree'.trans htree⟩, ?_, fun name => (hprincipals' name).trans (hprincipals name)⟩
  generalize s.cache = cache, s'.cache = cache', s''.cache = cache'' at hcache hcache'
  cases hcache with
  | none => exact hcache'
  | some hc =>
      cases hcache' with
      | some hc' => exact .some (hc.trans hc')

theorem left (h : Indistinct kind s s') : Indistinct kind s s :=
  h.trans h.symm

theorem sameAnswers (h : Indistinct kind s s') : SameAnswers kind s.source s'.source := by
  obtain ⟨d, d', hd, hd', htree⟩ := h.trees
  rw [hd, hd']
  exact sameAnswers_of_tree_eq htree

/-- What else changes does not tell the services apart. -/
theorem with_cache (h : Indistinct kind s s') {cache cache' : Option (Cache Json)}
    (hcache : Option.Rel (SameSlots kind) cache cache') (questions questions' : List Question)
    (settings settings' : Option Settings) :
    Indistinct kind { s with cache, questions, settings }
      { s' with cache := cache', questions := questions', settings := settings' } :=
  ⟨h.trees, hcache, h.principals⟩

theorem caches (h : Indistinct kind s s') :
    s.cache = none ∧ s'.cache = none ∨
      ∃ c c', s.cache = some c ∧ s'.cache = some c' ∧ SameSlots kind c c' := by
  have hcache := h.cache
  generalize s.cache = cache, s'.cache = cache' at hcache ⊢
  cases hcache with
  | none => exact .inl ⟨rfl, rfl⟩
  | some hc => exact .inr ⟨_, _, rfl, rfl, hc⟩

end Indistinct

/-! ### What is asked about a hierarchy -/

/-- What cannot tell two services apart that have the same in a hierarchy, and leaves them so. Where the cache refuses
nothing, entries that are in use stay the ones that they were. -/
structure Confined (kind : Hierarchy) (x : ServiceM α) : Prop where
  same : ∀ {s s'}, Indistinct kind s s' →
    (perform x s').1 = (perform x s).1 ∧ Indistinct kind (perform x s).2 (perform x s').2
  tracks : ∀ running {s c}, s.cache = some c → c.Usable → ∃ outcome c' questions,
    perform x s = (outcome, { s with cache := some c', questions }) ∧ c.Tracks running c' c'.values

theorem Asks.confined {x : ServiceM α} {asked : List Question} (h : Asks kind x asked) : Confined kind x where
  same {s s'} hs := by
    rw [h.perform_eq, h.perform_eq, h.same _ _ hs.sameAnswers]
    exact ⟨rfl, hs.with_cache hs.cache ..⟩
  tracks running s c hcache hc := ⟨_, c, _, by rw [h.perform_eq, ← hcache], .refl hc⟩

namespace Confined

theorem bind {x : ServiceM α} {f : α → ServiceM β} (hx : Confined kind x) (hf : ∀ a, Confined kind (f a)) :
    Confined kind (x >>= f) where
  same {s s'} hs := by
    obtain ⟨houtcome, hafter⟩ := hx.same hs
    rw [perform_bind, perform_bind]
    cases hperform : perform x s with
    | mk outcome t =>
        cases hperform' : perform x s' with
        | mk outcome' t' =>
            rw [hperform, hperform'] at houtcome hafter
            cases houtcome
            cases outcome with
            | error e => exact ⟨rfl, hafter⟩
            | ok a => exact (hf a).same hafter
  tracks running s c hcache hc := by
    obtain ⟨outcome, c', questions, hperform, htracks⟩ := hx.tracks running hcache hc
    cases outcome with
    | error e => exact ⟨.error e, c', questions, perform_bind_of_error hperform, htracks⟩
    | ok a =>
        obtain ⟨outcome', c'', questions', hperform', htracks'⟩ :=
          (hf a).tracks running (s := { s with cache := some c', questions }) rfl htracks.usable
        exact ⟨outcome', c'', questions', by rw [perform_bind_of_ok hperform, hperform'], htracks.trans htracks'⟩

section Memoize

variable {p : Profile} {slot : String} {factory : ServiceM Json}

/-- An empty slot is filled in the cache in which the factory ends. -/
theorem exists_memoize_of_absent (h : Confined kind factory) (running : List PrincipalKey) {s : Service} {c : Cache Json}
    (hcache : s.cache = some c) (hc : c.Usable) (hnone : c.values (.number p.userId) slot = none) :
    ∃ outcome c₁ c₂ questions,
      perform factory { s with cache := some (c.begun (.number p.userId)) } =
          (outcome, { s with cache := some c₁, questions }) ∧
        perform (Service.memoize p slot factory) s = (outcome, { s with cache := some c₂, questions }) ∧
        c.Tracks running c₂ (c₁.values.fill (.number p.userId) slot outcome) := by
  obtain ⟨-, hbegun⟩ := Cache.begun_tracks [] hc (.number p.userId)
  obtain ⟨outcome, c₁, questions, hperform, htracks⟩ := h.tracks (.number p.userId :: running)
    (s := { s with cache := some (c.begun _) }) rfl hbegun.usable
  obtain ⟨c₂, hmemoize, hfilled⟩ := perform_memoize_of_absent hcache hc hnone hperform htracks
  exact ⟨outcome, c₁, c₂, questions, hperform, hmemoize, hfilled⟩

/-- Two services that have nothing in a slot compute it from services that are as alike as they are. -/
theorem same_memoize_of_absent (h : Confined kind factory) {s s' : Service} (hs : Indistinct kind s s') {c c' : Cache Json}
    (hcache : s.cache = some c) (hcache' : s'.cache = some c') (hslots : SameSlots kind c c') (hc : c.Usable)
    (hc' : c'.Usable) (hnone : c.values (.number p.userId) slot = none)
    (hnone' : c'.values (.number p.userId) slot = none) :
    (perform (Service.memoize p slot factory) s').1 = (perform (Service.memoize p slot factory) s).1 ∧
      Indistinct kind (perform (Service.memoize p slot factory) s).2 (perform (Service.memoize p slot factory) s').2 := by
  obtain ⟨outcome, c₁, c₂, questions, hperform, hmemoize, hfilled⟩ := h.exists_memoize_of_absent [] hcache hc hnone
  obtain ⟨outcome', c₁', c₂', questions', hperform', hmemoize', hfilled'⟩ :=
    h.exists_memoize_of_absent [] hcache' hc' hnone'
  obtain ⟨-, hbegun⟩ := Cache.begun_tracks [] hc (.number p.userId)
  obtain ⟨-, hbegun'⟩ := Cache.begun_tracks [] hc' (.number p.userId)
  have hbegan := hs.with_cache (.some (.of_usable hbegun.usable hbegun'.usable
    (hbegun.values ▸ hbegun'.values ▸ hslots.values))) s.questions s'.questions s.settings s'.settings
  obtain ⟨houtcome, hended⟩ := h.same hbegan
  rw [hperform, hperform'] at houtcome hended
  cases houtcome
  obtain ⟨_, _, ⟨⟩, ⟨⟩, hslots₁⟩ := hended.caches.resolve_left nofun
  rw [hmemoize, hmemoize']
  refine ⟨rfl, hs.with_cache (.some (.of_usable hfilled.usable hfilled'.usable ?_)) ..⟩
  rw [hfilled.values, hfilled'.values]
  exact SameSlots.fill hslots₁.values _ slot outcome

/-- A slot of the hierarchy is filled alike, by a factory that cannot tell the services apart. -/
theorem memoize (hslot : slot ∈ kind.slots) (h : Confined kind factory) (p : Profile) :
    Confined kind (memoize p slot factory) where
  same {s s'} hs := by
    rcases hs.caches with ⟨hcache, hcache'⟩ | ⟨c, c', hcache, hcache', hslots⟩
    · rw [perform_memoize_of_none hcache, perform_memoize_of_none hcache']
      exact h.same hs
    cases hfault : c.timeout.fault? with
    | some f =>
        rw [perform_memoize_of_fault hcache hfault, perform_memoize_of_fault hcache' (hslots.fault.trans hfault)]
        have hensure : SameSlots kind c _ := .of_alike hslots.free (c.ensure_alike (.number p.userId))
        have hensure' : SameSlots kind c' _ := .of_alike hslots.free' (c'.ensure_alike (.number p.userId))
        exact ⟨rfl, hs.with_cache (.some ((hensure.symm.trans hslots).trans hensure')) ..⟩
    | none =>
        obtain ⟨hc, hc'⟩ := hslots.usable hfault
        have hvalues := hslots.values (.number p.userId) slot hslot
        cases hvalue : c.values (.number p.userId) slot with
        | some value =>
            rw [perform_memoize_of_kept hcache hc hvalue, perform_memoize_of_kept hcache' hc' (hvalues.trans hvalue)]
            exact ⟨rfl, hs⟩
        | none => exact h.same_memoize_of_absent hs hcache hcache' hslots hc hc' hvalue (hvalues.trans hvalue)
  tracks running s c hcache hc := by
    cases hvalue : c.values (.number p.userId) slot with
    | some value => exact ⟨_, c, s.questions, by rw [perform_memoize_of_kept hcache hc hvalue, ← hcache], .refl hc⟩
    | none =>
        obtain ⟨outcome, _, c', questions, -, hmemoize, hfilled⟩ := h.exists_memoize_of_absent running hcache hc hvalue
        exact ⟨outcome, c', questions, hmemoize, hfilled.usable, rfl, hfilled.stamps⟩

end Memoize

theorem effectiveIds (kind : Hierarchy) (p : Profile) : Confined kind (effectiveIds kind p) :=
  .memoize kind.idsSlot_mem_slots (asks_computeIds kind p).confined p

theorem effectivePaths (kind : Hierarchy) (p : Profile) : Confined kind (effectivePaths kind p) :=
  .memoize kind.pathsSlot_mem_slots
    (.bind (.effectiveIds kind p) fun stored => (asks_storedPaths kind stored).confined) p

theorem hasAccess (kind : Hierarchy) (target : Target) (p : Profile) : Confined kind (hasAccess kind target (some p)) :=
  .bind (Asks.answer ..).confined fun _ => .bind (.effectiveIds kind p) fun _ => (Asks.answer ..).confined

end Confined

variable {s s' : Service}

/-- A query about a hierarchy has one reply from both services. -/
theorem Indistinct.ask (h : Indistinct kind s s') {q : Query} (hq : q.kind? = some kind) :
    (perform q.ask s').1 = (perform q.ask s).1 ∧ Indistinct kind (perform q.ask s).2 (perform q.ask s').2 := by
  -- the name stands for principals that the hierarchy shows alike, so one thing is asked about both
  have hnamed : ∀ {γ : Type} (name : String) (x : Profile → ServiceM γ) (f : γ → Reply),
      q.subject? = some name → q.ask = (do return f (← x (← principal name))) → (∀ p, Confined kind (x p)) →
        (∀ p p' : Profile, p'.view kind = p.view kind → x p' = x p) →
          (perform q.ask s').1 = (perform q.ask s).1 ∧ Indistinct kind (perform q.ask s).2 (perform q.ask s').2 := by
    intro γ name x f hsubject hask hconfined hviews
    have hprincipals := h.principals name
    cases hp : s.principals.lookup name with
    | none =>
        rw [hp, Option.map_none, Option.map_eq_none_iff] at hprincipals
        obtain ⟨e, hunknown⟩ := ask_of_unknown q
        rw [hunknown s (by rw [Query.about?, hsubject]; exact hp),
          hunknown s' (by rw [Query.about?, hsubject]; exact hprincipals)]
        exact ⟨rfl, h⟩
    | some p =>
        rw [hp, Option.map_some] at hprincipals
        obtain ⟨p', hp', hview⟩ := Option.map_eq_some_iff.mp hprincipals
        obtain ⟨houtcome, hafter⟩ := (hconfined p).same h
        rw [hask, perform_named hp, perform_named hp', hviews p p' hview, houtcome]
        exact ⟨rfl, hafter⟩
  cases q with
  | ids other name =>
      cases hq
      exact hnamed name (effectiveIds kind) .scope rfl rfl (.effectiveIds kind) fun _ _ => effectiveIds_congr
  | paths other name =>
      cases hq
      exact hnamed name (effectivePaths kind) .scope rfl rfl (.effectivePaths kind) fun _ _ => effectivePaths_congr
  | access other target name =>
      cases hq
      cases name with
      | some name =>
          exact hnamed name (fun p => hasAccess kind target (some p)) .verdict rfl rfl (.hasAccess kind target)
            fun _ _ hview => hasAccess_congr hview target
      | none =>
          obtain ⟨e, hunknown⟩ := ask_of_unknown (.access kind target none)
          rw [hunknown s rfl, hunknown s' rfl]
          exact ⟨rfl, h⟩
  | sensitive name => cases hq

end Service

end StartNodes
