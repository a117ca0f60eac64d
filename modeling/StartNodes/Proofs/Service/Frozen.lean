import StartNodes.Proofs.Service.Answering
import StartNodes.Proofs.Service.Trashed

/-!
Frozen scopes. As long as nothing that is kept for a principal is forgotten or written over, its start nodes and their paths
in a hierarchy stay what they were when they were first asked for, whatever becomes of the trees and of what it declares,
and the source of paths is asked for each of them no more than once.
-/

namespace StartNodes.Service

/-! ### Acts that leave a principal's scopes alone -/

/-- An act forgets nothing that is kept for the principal of an id, and writes nothing for it. -/
def Act.Spares (u : Int) : Act → Prop
  | .announce _ change => .number u ∉ change.principals
  | .operate (.set p _ _) => p ≠ .number u
  | .operate (.forget p _) => p ≠ .number u
  | .operate (.forgetPrincipal p) => p ≠ .number u
  | .renewCache _ => False
  | .begin _ _ _ => False
  | .finish _ _ _ _ _ => False
  | _ => True

/-- Whether an act asks about the principal of an id. -/
def Act.isAbout (u : Int) (s : Service) : Act → Bool
  | .ask q => (q.about? s).any fun p => p.userId == u
  | _ => false

/-- The questions about a hierarchy that an act puts to the source for the principal of an id. -/
def Act.asked (u : Int) (kind : Hierarchy) (s : Service) (act : Act) : List Question :=
  if act.isAbout u s then
    ((act.run s).questions.drop s.questions.length).filter fun question => question.kind == kind
  else []

/-- The questions about a hierarchy that a run puts to the source for the principal of an id. -/
def askedFor (u : Int) (kind : Hierarchy) : List Act → Service → List Question
  | [], _ => []
  | act :: acts, s => act.asked u kind s ++ askedFor u kind acts (act.run s)

variable {u : Int} {s : Service} {c c' : Cache Json} {act : Act} {acts : List Act} {timeout : LockTimeout}

theorem isAbout_ask_iff {q : Query} :
    (Act.ask q).isAbout u s = true ↔ ∃ p, q.about? s = some p ∧ p.userId = u := by
  rw [Act.isAbout]
  cases q.about? s <;> simp

theorem asked_of_not_isAbout (h : act.isAbout u s = false) (kind : Hierarchy) : act.asked u kind s = [] := by
  rw [Act.asked, h, if_neg Bool.false_ne_true]

theorem asked_of_questions {q : Query} {asked : List Question}
    (h : (perform q.ask s).2.questions = s.questions ++ asked) (habout : (Act.ask q).isAbout u s = true)
    (kind : Hierarchy) : (Act.ask q).asked u kind s = asked.filter fun question => question.kind == kind := by
  have hrun : ((Act.ask q).run s).questions = s.questions ++ asked := h
  rw [Act.asked, if_pos habout, hrun, List.drop_left]

/-! ### One act -/

/-- A service keeps in a cache that refuses nothing start nodes that can be looked up. -/
structure Holds (u : Int) (s : Service) (c : Cache Json) : Prop where
  cache : s.cache = some c
  usable : c.Usable
  scope : ∀ (kind : Hierarchy) stored, c.values (.number u) kind.idsSlot = some stored → IsScope stored

/-- What an act makes of what is kept for a principal: nothing gets lost, slots are filled as questions are asked, and paths
are filled in by a query for them. -/
structure Advances (u : Int) (act : Act) (s : Service) (c c' : Cache Json) : Prop where
  holds : Holds u (act.run s) c'
  kept : ∀ slot value, c.values (.number u) slot = some value → c'.values (.number u) slot = some value
  count : ∀ kind, (act.asked u kind s).length + filled kind (.number u) c.values ≤ filled kind (.number u) c'.values
  paths : ∀ (kind : Hierarchy) paths, c.values (.number u) kind.pathsSlot = none →
    c'.values (.number u) kind.pathsSlot = some paths →
      ∃ name, act = .ask (.paths kind name) ∧ act.isAbout u s = true ∧
        (perform (Query.paths kind name).ask s).1 = .ok (.scope paths)

theorem filled_congr {kind : Hierarchy} {key : PrincipalKey} {m m' : SlotMap Json}
    (h : ∀ slot ∈ kind.slots, m' key slot = m key slot) : filled kind key m' = filled kind key m := by
  rw [filled_eq, filled_eq, h _ kind.idsSlot_mem_slots, h _ kind.pathsSlot_mem_slots]

/-- An act that does not ask about the principal and leaves its slots alone. -/
theorem Advances.of_same (h : Holds u s c) (hcache : (act.run s).cache = some c') (hc' : c'.Usable)
    (hsame : ∀ slot, c'.values (.number u) slot = c.values (.number u) slot) (habout : act.isAbout u s = false) :
    Advances u act s c c' := by
  refine ⟨⟨hcache, hc', fun kind stored hstored => ?_⟩, fun slot value hvalue => ?_, fun kind => ?_,
    fun kind paths hnone hpaths => ?_⟩
  · exact h.scope kind stored ((hsame _).symm.trans hstored)
  · rw [hsame, hvalue]
  · rw [asked_of_not_isAbout habout, List.length_nil, Nat.zero_add, filled_congr fun slot _ => hsame slot]
  · rw [hsame, hnone] at hpaths
    cases hpaths

/-- Where no look-up fails, a query about the principal fills slots as it asks questions. -/
theorem Advances.of_answering {p : Profile} {q : Query} {reply : Except ServiceError Reply} {asked : List Question}
    {m : SlotMap Json} {settings : Option Settings} (h : Holds p.userId s c) (hp : q.about? s = some p)
    (hperform : perform q.ask s = (reply, { s with cache := some c', questions := s.questions ++ asked, settings }))
    (htracks : c.Tracks [] c' m) (hanswering : Answering p s.source c.values q reply asked m)
    (hfound : ∀ e, reply ≠ .error (.lookup e)) : Advances p.userId (.ask q) s c c' := by
  obtain ⟨kind, -, hprogress⟩ := hanswering.progress h.scope hfound
  have hcache : ((Act.ask q).run s).cache = some c' := by
    rw [Act.run, hperform]
  have hquestions : (perform q.ask s).2.questions = s.questions ++ asked := by
    rw [hperform]
  have habout : (Act.ask q).isAbout p.userId s = true := by
    rw [Act.isAbout, hp, Option.any_some, beq_self_eq_true]
  obtain rfl := htracks.values
  refine ⟨⟨hcache, htracks.usable, fun _ _ => hanswering.scope h.scope _⟩, hprogress.kept _, fun other => ?_,
    fun other paths hnone hpaths => ?_⟩
  · rw [asked_of_questions hquestions habout]
    by_cases hkind : other = kind
    · subst hkind
      have hall := List.length_filter_le (fun question : Question => question.kind == other) asked
      have hcount := hprogress.count
      omega
    · -- nothing is asked about the other hierarchy, and nothing is filled in it
      have hnothing : (asked.filter fun question => question.kind == other) = [] := by
        refine List.filter_eq_nil_iff.mpr fun question hmem => ?_
        rw [hprogress.kinds question hmem, beq_iff_eq]
        exact Ne.symm hkind
      have hsame : filled other (.number p.userId) c'.values = filled other (.number p.userId) c.values :=
        filled_congr fun slot hslot => hprogress.others _ _ <| .inr fun hmem =>
          Hierarchy.ne_of_mem_slots hkind hslot hmem rfl
      rw [hnothing, hsame, List.length_nil, Nat.zero_add]
  · obtain ⟨name, rfl, rfl⟩ := hanswering.filledPaths hnone hpaths
    exact ⟨name, rfl, habout, congrArg Prod.fst hperform⟩

theorem exists_advances_ask (h : Holds u s c) {q : Query} (hfound : ∀ e, (perform q.ask s).1 ≠ .error (.lookup e)) :
    ∃ c', Advances u (.ask q) s c c' := by
  cases hp : q.about? s with
  | none =>
      obtain ⟨e, hperform⟩ := ask_of_unknown q
      refine ⟨c, .of_same h ?_ h.usable (fun _ => rfl) ?_⟩
      · rw [Act.run, hperform s hp, h.cache]
      · rw [Act.isAbout, hp]
        rfl
  | some p =>
      obtain ⟨reply, asked, m, c', settings, hperform, htracks, hanswering⟩ := ask_answering h.cache h.usable hp
      refine ⟨c', ?_⟩
      by_cases hu : p.userId = u
      · subst hu
        rw [hperform] at hfound
        exact .of_answering h hp hperform htracks hanswering hfound
      · refine .of_same h ?_ htracks.usable (fun slot => ?_) ?_
        · rw [Act.run, hperform]
        · rw [htracks.values, hanswering.others (.inl fun heq => hu (PrincipalKey.number.inj heq).symm)]
        · rw [Act.isAbout, hp, Option.any_some, beq_eq_false_iff_ne.mpr hu]

/-- What spares a principal advances what is kept for it, if no look-up fails. -/
theorem exists_advances (h : Holds u s c) (hspares : act.Spares u)
    (hfound : ∀ q, act = .ask q → ∀ e, (perform q.ask s).1 ≠ .error (.lookup e)) : ∃ c', Advances u act s c c' := by
  cases act with
  | edit kind e =>
      refine ⟨c, .of_same h ?_ h.usable (fun _ => rfl) rfl⟩
      rw [Act.run, perform_edit, h.cache]
  | enrol name p => exact ⟨c, .of_same h h.cache h.usable (fun _ => rfl) rfl⟩
  | revise name change =>
      refine ⟨c, .of_same h ?_ h.usable (fun _ => rfl) rfl⟩
      rw [Act.run, perform_updatePrincipal, h.cache]
  | announce kinds change =>
      obtain ⟨c', hperform, hdrops⟩ := perform_invalidate_of_some h.cache h.usable kinds change
      refine ⟨c', .of_same h ?_ (hdrops.usable h.usable) (fun slot => ?_) rfl⟩
      · rw [Act.run, hperform]
      · exact hdrops.kept _ _ fun hmem => hspares (Cache.mem_scopeSlots.mp hmem).1
  | ask q => exact exists_advances_ask h (hfound q rfl)
  | operate op =>
      have htracks := Cache.apply_tracks_outside h.usable op
      refine ⟨_, .of_same h ?_ htracks.usable (fun slot => ?_) rfl⟩
      · rw [Act.run, perform_onCache h.cache]
      · rw [htracks.values]
        cases op with
        | get | contains => rfl
        | set p other value => exact SlotMap.put_of_ne (.inl hspares.symm) _ _
        | forget p other => exact SlotMap.put_of_ne (.inl hspares.symm) _ _
        | forgetPrincipal p => exact if_neg hspares.symm
  | renewCache | begin | finish => exact hspares.elim

/-- Where locks cannot be waited for, it stays so, and nothing is asked for the principal. -/
theorem run_of_fault (hcache : s.cache = some c) {f : LockTimeout.Fault} (hfault : c.timeout.fault? = some f)
    (hspares : act.Spares u) :
    ∃ c', (act.run s).cache = some c' ∧ c'.timeout = c.timeout ∧ ∀ kind, act.asked u kind s = [] := by
  cases act with
  | edit kind e => exact ⟨c, by rw [Act.run, perform_edit, hcache], rfl, asked_of_not_isAbout rfl⟩
  | enrol name p => exact ⟨c, hcache, rfl, asked_of_not_isAbout rfl⟩
  | revise name change => exact ⟨c, by rw [Act.run, perform_updatePrincipal, hcache], rfl, asked_of_not_isAbout rfl⟩
  | announce kinds change =>
      exact ⟨c, by rw [Act.run, perform_invalidate_of_fault hcache hfault, hcache], rfl, asked_of_not_isAbout rfl⟩
  | ask q =>
      cases hp : q.about? s with
      | none =>
          obtain ⟨e, hperform⟩ := ask_of_unknown q
          refine ⟨c, by rw [Act.run, hperform s hp, hcache], rfl, asked_of_not_isAbout ?_⟩
          rw [Act.isAbout, hp]
          rfl
      | some p =>
          obtain ⟨reply, c', settings, hperform, halike, -⟩ := ask_of_fault hcache hfault hp
          refine ⟨c', by rw [Act.run, hperform], halike.timeout, fun kind => ?_⟩
          have hrun : ((Act.ask q).run s).questions = s.questions := by
            rw [Act.run, hperform]
          rw [Act.asked, hrun, List.drop_length, List.filter_nil, ite_self]
  | operate op =>
      exact ⟨_, by rw [Act.run, perform_onCache hcache], (Cache.apply_of_fault hfault op).timeout, asked_of_not_isAbout rfl⟩
  | renewCache | begin | finish => exact hspares.elim

/-! ### Runs -/

/-- The reply to a query after some acts. -/
def replyAfter (before : List Act) (q : Query) (s : Service) : Except ServiceError Reply :=
  (perform q.ask (afterActs before s)).1

/-- No look-up of the source fails in a run. -/
def LookupsSucceed (acts : List Act) (s : Service) : Prop :=
  ∀ before q later, acts = before ++ .ask q :: later → ∀ e, replyAfter before q s ≠ .error (.lookup e)

/-- After some of its acts, a run goes on with a query about the principal of an id. -/
def AskedAbout (u : Int) (acts : List Act) (s : Service) (before : List Act) (q : Query) : Prop :=
  (∃ later, acts = before ++ .ask q :: later) ∧ (Act.ask q).isAbout u (afterActs before s) = true

theorem afterActs_append (acts rest : List Act) (s : Service) :
    afterActs (acts ++ rest) s = afterActs rest (afterActs acts s) :=
  List.foldl_append

theorem LookupsSucceed.of_append {acts rest : List Act} (h : LookupsSucceed (acts ++ rest) s) :
    LookupsSucceed acts s ∧ LookupsSucceed rest (afterActs acts s) := by
  constructor
  · rintro before q later rfl
    exact h before q (later ++ rest) (by simp)
  · rintro before q later rfl
    have hrest := h (acts ++ before) q later (List.append_assoc ..).symm
    rwa [replyAfter, afterActs_append] at hrest

theorem LookupsSucceed.nil : LookupsSucceed [] s := by
  intro before q later hsplit
  simp at hsplit

theorem LookupsSucceed.uncons (h : LookupsSucceed (act :: acts) s) :
    (∀ q, act = .ask q → ∀ e, (perform q.ask s).1 ≠ .error (.lookup e)) ∧ LookupsSucceed acts (act.run s) := by
  refine ⟨?_, fun before q later hsplit => h (act :: before) q later (congrArg (act :: ·) hsplit)⟩
  rintro q rfl
  exact h [] q acts rfl

theorem LookupsSucceed.cons (hact : ∀ q, act = .ask q → ∀ e, (perform q.ask s).1 ≠ .error (.lookup e))
    (hrest : LookupsSucceed acts (act.run s)) : LookupsSucceed (act :: acts) s := by
  intro before q later hsplit
  cases before with
  | nil =>
      cases hsplit
      exact hact q rfl
  | cons first before =>
      cases hsplit
      exact hrest before q later rfl

theorem AskedAbout.cons {before : List Act} {q : Query} (h : AskedAbout u acts (act.run s) before q) :
    AskedAbout u (act :: acts) s (act :: before) q := by
  obtain ⟨⟨later, rfl⟩, habout⟩ := h
  exact ⟨⟨later, rfl⟩, habout⟩

theorem exists_advances_run (h : Holds u s c) (hspares : ∀ act ∈ acts, act.Spares u) (hfound : LookupsSucceed acts s) :
    ∃ c', Holds u (afterActs acts s) c' ∧
      (∀ slot value, c.values (.number u) slot = some value → c'.values (.number u) slot = some value) ∧
      (∀ kind, (askedFor u kind acts s).length + filled kind (.number u) c.values ≤ filled kind (.number u) c'.values) ∧
      ∀ (kind : Hierarchy) paths, c.values (.number u) kind.pathsSlot = none →
        c'.values (.number u) kind.pathsSlot = some paths →
          ∃ before name, AskedAbout u acts s before (.paths kind name) ∧
            replyAfter before (.paths kind name) s = .ok (.scope paths) := by
  induction acts generalizing s c with
  | nil =>
      refine ⟨c, h, fun _ _ hvalue => hvalue, fun kind => (Nat.zero_add _).le, fun kind paths hnone hpaths => ?_⟩
      rw [hnone] at hpaths
      cases hpaths
  | cons act acts ih =>
      obtain ⟨hfirst, hrest⟩ := hfound.uncons
      obtain ⟨c₁, hadvances⟩ := exists_advances h (hspares act List.mem_cons_self) hfirst
      obtain ⟨c₂, hholds, hkept, hcount, hpaths⟩ :=
        ih hadvances.holds (fun act hmem => hspares act (List.mem_cons_of_mem _ hmem)) hrest
      refine ⟨c₂, hholds, fun slot value hvalue => hkept slot value (hadvances.kept slot value hvalue), fun kind => ?_,
        fun kind paths hnone hsome => ?_⟩
      · have hact := hadvances.count kind
        have hacts := hcount kind
        rw [askedFor, List.length_append]
        omega
      · cases hvalue : c₁.values (.number u) kind.pathsSlot with
        | none =>
            obtain ⟨before, name, hasked, hreply⟩ := hpaths kind paths hvalue hsome
            exact ⟨act :: before, name, hasked.cons, hreply⟩
        | some found =>
            cases (hkept _ _ hvalue).symm.trans hsome
            obtain ⟨name, rfl, habout, hreply⟩ := hadvances.paths kind paths hnone hvalue
            exact ⟨[], name, ⟨⟨acts, rfl⟩, habout⟩, hreply⟩

theorem afterActs_of_fault (hcache : s.cache = some c) {f : LockTimeout.Fault} (hfault : c.timeout.fault? = some f)
    (hspares : ∀ act ∈ acts, act.Spares u) :
    ∃ c', (afterActs acts s).cache = some c' ∧ c'.timeout = c.timeout ∧ ∀ kind, askedFor u kind acts s = [] := by
  induction acts generalizing s c with
  | nil => exact ⟨c, hcache, rfl, fun _ => rfl⟩
  | cons act acts ih =>
      obtain ⟨c₁, hcache₁, htimeout₁, hasked₁⟩ := run_of_fault hcache hfault (hspares act List.mem_cons_self)
      obtain ⟨c₂, hcache₂, htimeout₂, hasked₂⟩ :=
        ih hcache₁ (htimeout₁ ▸ hfault) fun act hmem => hspares act (List.mem_cons_of_mem _ hmem)
      refine ⟨c₂, hcache₂, htimeout₂.trans htimeout₁, fun kind => ?_⟩
      rw [askedFor, hasked₁, hasked₂]
      rfl

/-- Where locks cannot be waited for, no query about a scope is answered. -/
theorem kind?_of_fault (hcache : s.cache = some c) {f : LockTimeout.Fault} (hfault : c.timeout.fault? = some f)
    (hspares : ∀ act ∈ acts, act.Spares u) {before : List Act} {q : Query} (hasked : AskedAbout u acts s before q)
    {reply : Reply} (hreply : replyAfter before q s = .ok reply) : q.kind? = none := by
  obtain ⟨⟨later, rfl⟩, habout⟩ := hasked
  obtain ⟨c₀, hcache₀, htimeout₀, -⟩ :=
    afterActs_of_fault hcache hfault fun act hmem => hspares act (List.mem_append_left _ hmem)
  obtain ⟨p, hp, -⟩ := isAbout_ask_iff.mp habout
  obtain ⟨_, _, _, hperform, -, hrefused⟩ := ask_of_fault hcache₀ (htimeout₀.symm ▸ hfault) hp
  refine Option.eq_none_iff_forall_ne_some.mpr fun kind hkind => ?_
  obtain ⟨e, rfl⟩ := hrefused kind hkind
  rw [replyAfter, hperform] at hreply
  cases hreply

/-! ### Frozen scopes -/

theorem RepliesFrom.mono {kept kept' : String → Option Json} (hkept : ∀ slot value, kept slot = some value →
    kept' slot = some value) {q : Query} {reply : Reply} (h : RepliesFrom kept q reply) : RepliesFrom kept' q reply := by
  cases q with
  | ids kind name =>
      obtain ⟨stored, hstored, hreply⟩ := h
      exact ⟨stored, hkept _ _ hstored, hreply⟩
  | paths kind name =>
      obtain ⟨paths, hpaths, hreply⟩ := h
      exact ⟨paths, hkept _ _ hpaths, hreply⟩
  | access kind target name =>
      obtain ⟨stored, path, given, hstored, hrest⟩ := h
      exact ⟨stored, path, given, hkept _ _ hstored, hrest⟩
  | sensitive name => exact trivial

theorem holds_empty (hcache : s.cache = some (Cache.empty timeout)) (htimeout : timeout.fault? = none) :
    Holds u s (Cache.empty timeout) :=
  ⟨hcache, ⟨htimeout, rfl⟩, nofun⟩

/-- What is known of a query about a principal, asked in a run that spares it: what was kept before, with where kept paths
come from, and that what is kept then is kept to the end. -/
theorem answering_of_asked (hcache : s.cache = some (Cache.empty timeout)) (htimeout : timeout.fault? = none)
    (hspares : ∀ act ∈ acts, act.Spares u) (hfound : LookupsSucceed acts s) (hfinal : (afterActs acts s).cache = some c')
    {before : List Act} {q : Query} (hasked : AskedAbout u acts s before q) :
    ∃ c₀ p asked m, q.about? (afterActs before s) = some p ∧ p.userId = u ∧ Holds u (afterActs before s) c₀ ∧
      (∀ (kind : Hierarchy) paths, c₀.values (.number u) kind.pathsSlot = some paths →
        ∃ earlier name, AskedAbout u before s earlier (.paths kind name) ∧
          replyAfter earlier (.paths kind name) s = .ok (.scope paths)) ∧
      Answering p (afterActs before s).source c₀.values q (replyAfter before q s) asked m ∧
      ∀ slot value, m (.number u) slot = some value → c'.values (.number u) slot = some value := by
  obtain ⟨⟨later, rfl⟩, habout⟩ := hasked
  obtain ⟨hfoundBefore, hfoundAfter⟩ := hfound.of_append
  obtain ⟨hfoundAsk, hfoundLater⟩ := hfoundAfter.uncons
  obtain ⟨c₀, hholds, -, -, hpaths⟩ := exists_advances_run (holds_empty hcache htimeout)
    (fun act hmem => hspares act (List.mem_append_left _ hmem)) hfoundBefore
  obtain ⟨c₁, hadvances⟩ := exists_advances_ask hholds (hfoundAsk q rfl)
  obtain ⟨c₂, hholds₂, hkept, -, -⟩ := exists_advances_run hadvances.holds
    (fun act hmem => hspares act (List.mem_append_right _ (List.mem_cons_of_mem _ hmem))) hfoundLater
  rw [afterActs_append] at hfinal
  cases hfinal.symm.trans hholds₂.cache
  obtain ⟨p, hp, hid⟩ := isAbout_ask_iff.mp habout
  obtain ⟨reply, asked, m, c₁', settings, hperform, htracks, hanswering⟩ := ask_answering hholds.cache hholds.usable hp
  have hrun : ((Act.ask q).run (afterActs before s)).cache = some c₁' := by
    rw [Act.run, hperform]
  cases hrun.symm.trans hadvances.holds.cache
  have hreply : replyAfter before q s = reply := congrArg Prod.fst hperform
  rw [hreply]
  exact ⟨c₀, p, asked, m, hp, hid, hholds, fun kind paths => hpaths kind paths rfl, hanswering,
    fun slot value hvalue => hkept slot value (htracks.values ▸ hvalue)⟩

/-- Scopes are frozen. A run starts with an empty cache, spares what is kept for the principal of an id, and no look-up in it
fails. Then all answers about the principal's start nodes in a hierarchy are the same, and so are all answers about their
paths; what is answered about access is decided by those start nodes; and for each hierarchy the source is asked for them no
more than twice. The paths are those that the start nodes still had, in their order, when paths were first answered. Where
locks can be waited for, a query for the start nodes or paths of a checked principal is answered. -/
theorem scopes_are_frozen (hcache : s.cache = some (Cache.empty timeout)) (hspares : ∀ act ∈ acts, act.Spares u)
    (hfound : LookupsSucceed acts s) :
    ∃ frozen : String → Option Json,
      (∀ before q reply, AskedAbout u acts s before q → replyAfter before q s = .ok reply → RepliesFrom frozen q reply) ∧
      (∀ kind, (askedFor u kind acts s).length ≤ 2) ∧
      (∀ before kind name paths nodes d, AskedAbout u acts s before (.paths kind name) →
        replyAfter before (.paths kind name) s = .ok (.scope paths) →
        (∀ earlier other reply, AskedAbout u before s earlier (.paths kind other) →
          replyAfter earlier (.paths kind other) s ≠ .ok reply) →
        (afterActs before s).source = .trees (.plain d) → frozen kind.idsSlot = some (Stored.ofIds nodes) →
          paths = Json.ofStrings (nodes.filterMap (d.pathNow? kind))) ∧
      (timeout.fault? = none → ∀ before kind name q, q = .ids kind name ∨ q = .paths kind name →
        AskedAbout u acts s before q → (∃ p : Principal, q.about? (afterActs before s) = some p.profile) →
          ∃ reply, replyAfter before q s = .ok reply) := by
  cases htimeout : timeout.fault? with
  | some f =>
      obtain ⟨-, -, -, hasked⟩ := afterActs_of_fault hcache htimeout hspares
      refine ⟨fun _ => none, fun before q reply hasked hreply => ?_, fun kind => ?_,
        fun before kind name paths nodes d hasked hreply => ?_, nofun⟩
      · cases q with
        | sensitive => exact trivial
        | ids | paths | access => cases kind?_of_fault hcache htimeout hspares hasked hreply
      · rw [hasked kind]
        exact Nat.zero_le 2
      · cases kind?_of_fault hcache htimeout hspares hasked hreply
  | none =>
      obtain ⟨c', hholds, -, hcount, -⟩ := exists_advances_run (holds_empty hcache htimeout) hspares hfound
      refine ⟨c'.values (.number u), fun before q reply hasked hreply => ?_, fun kind => ?_,
        fun before kind name paths nodes d hasked hreply hfirst hsource hnodes => ?_,
        fun _ before kind name q hq hasked ⟨p, hp⟩ => ?_⟩
      · obtain ⟨c₀, p, asked, m, -, rfl, -, -, hanswering, hkept⟩ :=
          answering_of_asked hcache htimeout hspares hfound hholds.cache hasked
        rw [hreply] at hanswering
        exact hanswering.repliesFrom.mono hkept
      · exact (Nat.le_add_right _ _).trans ((hcount kind).trans (filled_le ..))
      · obtain ⟨c₀, p, asked, m, -, rfl, -, hpaths, hanswering, hkept⟩ :=
          answering_of_asked hcache htimeout hspares hfound hholds.cache hasked
        rw [hreply] at hanswering
        have hnone : c₀.values (.number p.userId) kind.pathsSlot = none := by
          refine Option.eq_none_iff_forall_ne_some.mpr fun found hvalue => ?_
          obtain ⟨earlier, other, hearlier, hanswered⟩ := hpaths kind found hvalue
          exact hfirst earlier other _ hearlier hanswered
        obtain ⟨stored, hstored, hcomputed⟩ := hanswering.exists_storedPaths hnone
        cases (hkept _ _ hstored).symm.trans hnodes
        rw [hsource] at hcomputed
        exact storedPaths_plain (Stored.ids?_ofIds nodes) hcomputed
      · obtain ⟨c₀, p', asked, m, hp', rfl, hholds₀, -, hanswering, -⟩ :=
          answering_of_asked hcache htimeout hspares hfound hholds.cache hasked
        cases hp.symm.trans hp'
        obtain ⟨⟨later, hsplit⟩, -⟩ := hasked
        refine hanswering.exists_reply hholds₀.scope (hfound before q later hsplit) hq ?_
        rw [Profile.nodes?_profile]
        exact nofun

/-- A service that keeps nothing yet, with a principal that starts at node 7. -/
def keepingNothing : Service :=
  { cache := some (Cache.empty (.whole 30)), principals := [("a", Principal.profile ⟨1, "", [], [7], []⟩)] }

/-- Node 7 goes to the recycle bin once its path has been given. -/
def trashedOnceGiven : List Act :=
  [.edit .content (.add 7 rootId), .ask (.paths .content "a"), .edit .content (.trash 7), .ask (.ids .content "a"),
    .ask (.paths .content "a")]

/-- For the principal the node stays where it was. -/
theorem scopes_are_frozen_trashed :
    (∀ act ∈ trashedOnceGiven, act.Spares 1) ∧ LookupsSucceed trashedOnceGiven keepingNothing ∧
      (askedFor 1 .content trashedOnceGiven keepingNothing).length = 2 ∧
      ∃ frozen, RepliesFrom frozen (.ids .content "a") (.scope (Stored.ofIds [7])) ∧
        RepliesFrom frozen (.paths .content "a") (.scope (Json.ofStrings ["-1,7"])) := by
  have hspares : ∀ act ∈ trashedOnceGiven, act.Spares 1 := by
    simp [trashedOnceGiven, Act.Spares]
  have hfirst : replyAfter (trashedOnceGiven.take 1) (.paths .content "a") keepingNothing =
      .ok (.scope (Json.ofStrings ["-1,7"])) := rfl
  have hids : replyAfter (trashedOnceGiven.take 3) (.ids .content "a") keepingNothing =
      .ok (.scope (Stored.ofIds [7])) := rfl
  have hlast : replyAfter (trashedOnceGiven.take 4) (.paths .content "a") keepingNothing =
      .ok (.scope (Json.ofStrings ["-1,7"])) := rfl
  have hanswered : ∀ {s : Service} {q : Query} {reply : Reply}, (perform q.ask s).1 = .ok reply →
      ∀ q', Act.ask q = .ask q' → ∀ e, (perform q'.ask s).1 ≠ .error (.lookup e) := by
    rintro s q reply hreply _ ⟨⟩ e he
    cases hreply.symm.trans he
  have hfound : LookupsSucceed trashedOnceGiven keepingNothing :=
    .cons nofun <| .cons (hanswered hfirst) <| .cons nofun <| .cons (hanswered hids) <| .cons (hanswered hlast) .nil
  obtain ⟨frozen, hreplies, -⟩ := scopes_are_frozen rfl hspares hfound
  have haskedIds : AskedAbout 1 trashedOnceGiven keepingNothing (trashedOnceGiven.take 3) (.ids .content "a") :=
    ⟨⟨trashedOnceGiven.drop 4, rfl⟩, rfl⟩
  have haskedPaths : AskedAbout 1 trashedOnceGiven keepingNothing (trashedOnceGiven.take 4) (.paths .content "a") :=
    ⟨⟨trashedOnceGiven.drop 5, rfl⟩, rfl⟩
  exact ⟨hspares, hfound, rfl, frozen, hreplies _ _ _ haskedIds hids, hreplies _ _ _ haskedPaths hlast⟩

end StartNodes.Service
