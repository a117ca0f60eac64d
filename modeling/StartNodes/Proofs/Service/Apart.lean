import StartNodes.Proofs.Service.Indistinct
import StartNodes.Proofs.Service.Trashed

/-!
The two hierarchies apart. They share a directory, the principals and the entries of a cache, but what is answered about
one of them comes from its own tree, from what is declared in it and from its own slots. So two histories that differ only
in the other hierarchy have the same replies about this one.
-/

namespace StartNodes.Service

variable {kind : Hierarchy} {α : Type} {s s' : Service}

/-! ### What concerns the other hierarchy -/

/-- An act is about the other hierarchy: it edits its tree, revises what is declared in it, asks about it, or writes or
forgets its slots. -/
def Act.IsApart (kind : Hierarchy) : Act → Prop
  | .edit other _ => other ≠ kind
  | .revise _ change => ∀ p : Profile, (change p).view kind = p.view kind
  | .announce kinds _ => kind ∉ kinds
  | .ask q => q.kind? ≠ some kind
  | .operate (.get _ _) => True
  | .operate (.contains _ _) => True
  | .operate (.set _ slot _) => slot ∉ kind.slots
  | .operate (.forget _ slot) => slot ∉ kind.slots
  | _ => False

namespace Indistinct

/-- What is done to the cache of one service leaves it like the other, if it leaves the cache so. -/
theorem onCache_right (h : Indistinct kind s s') {f : Cache Json → Except LockError α × Cache Json}
    (hf : ∀ c c', SameSlots kind c c' → SameSlots kind c (f c').2) : Indistinct kind s (perform (onCache f) s').2 := by
  rcases h.caches with ⟨-, hcache'⟩ | ⟨c, c', hcache, hcache', hslots⟩
  · rw [perform_onCache_of_none hcache']
    exact h
  · rw [perform_onCache hcache']
    exact ⟨h.trees, hcache ▸ .some (hf c c' hslots), h.principals⟩

theorem onCache (h : Indistinct kind s s') {f : Cache Json → Except LockError α × Cache Json}
    (hf : ∀ c c', SameSlots kind c c' → SameSlots kind (f c).2 (f c').2) :
    Indistinct kind (perform (onCache f) s).2 (perform (onCache f) s').2 := by
  rcases h.caches with ⟨hcache, hcache'⟩ | ⟨c, c', hcache, hcache', hslots⟩
  · rw [perform_onCache_of_none hcache, perform_onCache_of_none hcache']
    exact h
  · rw [perform_onCache hcache, perform_onCache hcache']
    exact ⟨h.trees, .some (hf c c' hslots), h.principals⟩

theorem invalidate (h : Indistinct kind s s') (kinds : List Hierarchy) (change : Change) :
    Indistinct kind (perform (invalidate kinds change) s).2 (perform (invalidate kinds change) s').2 := by
  unfold Service.invalidate
  split
  · exact h
  · exact h.onCache fun c c' hslots => hslots.forgetAll _ _ fun _ _ _ => Iff.rfl

theorem invalidate_apart (h : Indistinct kind s s) {kinds : List Hierarchy} (hkinds : kind ∉ kinds) (change : Change) :
    Indistinct kind s (perform (Service.invalidate kinds change) s).2 := by
  unfold Service.invalidate
  split
  · exact h
  · refine h.onCache_right fun c c' hslots => hslots.forgetAll [] _ fun key slot hslot => ?_
    refine iff_of_false (fun hmem => ?_) List.not_mem_nil
    obtain ⟨-, other, hother, hslot'⟩ := Cache.mem_scopeSlots.mp hmem
    have hkind : kind ≠ other := fun hkind => hkinds (hkind.symm ▸ hother)
    exact Hierarchy.ne_of_mem_slots hkind hslot hslot' rfl

theorem enrol (h : Indistinct kind s s') (name : String) {p p' : Profile} (hp : p'.view kind = p.view kind) :
    Indistinct kind (perform (putPrincipal name p) s).2 (perform (putPrincipal name p') s').2 := by
  refine ⟨h.trees, h.cache, fun other => ?_⟩
  show (List.lookup other ((name, p') :: _)).map _ = (List.lookup other ((name, p) :: _)).map _
  rw [lookup_cons_filter, lookup_cons_filter]
  split
  · exact congrArg some hp
  · exact h.principals other

theorem revise (h : Indistinct kind s s') (name : String) {change change' : Profile → Profile}
    (hchange : ∀ p p' : Profile, p'.view kind = p.view kind → (change' p').view kind = (change p).view kind) :
    Indistinct kind (perform (updatePrincipal name change) s).2 (perform (updatePrincipal name change') s').2 := by
  have hname := h.principals name
  rw [perform_updatePrincipal, perform_updatePrincipal]
  cases hp : s.principals.lookup name with
  | none =>
      rw [hp, Option.map_none, Option.map_eq_none_iff] at hname
      rw [hname]
      exact h
  | some p =>
      rw [hp, Option.map_some] at hname
      obtain ⟨p', hp', hview⟩ := Option.map_eq_some_iff.mp hname
      rw [hp']
      exact h.enrol name (hchange p p' hview)

theorem revise_apart (h : Indistinct kind s s) (name : String) {change : Profile → Profile}
    (hchange : ∀ p : Profile, (change p).view kind = p.view kind) :
    Indistinct kind s (perform (updatePrincipal name change) s).2 := by
  rw [perform_updatePrincipal]
  refine ⟨h.trees, h.cache, fun other => ?_⟩
  cases hp : s.principals.lookup name with
  | none => rfl
  | some p =>
      simp only [lookup_cons_filter]
      split
      · next hother => rw [hother, hp, Option.map_some, Option.map_some, hchange]
      · rfl

theorem edit (h : Indistinct kind s s') (e : Edit NodeId) :
    Indistinct kind ((Act.edit kind e).run s) ((Act.edit kind e).run s') := by
  obtain ⟨d, d', hd, hd', htree⟩ := h.trees
  rw [Act.run, Act.run, perform_edit, perform_edit, hd, hd', edited, edited, Trees.edit_plain, Trees.edit_plain]
  refine ⟨⟨_, _, rfl, rfl, ?_⟩, h.cache, h.principals⟩
  rw [Directory.tree_edit, Directory.tree_edit, htree]

theorem edit_apart (h : Indistinct kind s s) {other : Hierarchy} (hother : other ≠ kind) (e : Edit NodeId) :
    Indistinct kind s ((Act.edit other e).run s) := by
  obtain ⟨d, -, hd, -⟩ := h.trees
  rw [Act.run, perform_edit, hd, edited, Trees.edit_plain]
  exact ⟨⟨d, _, hd, rfl, Directory.tree_edit_of_ne d hother.symm e⟩, h.cache, h.principals⟩

theorem operate_apart (h : Indistinct kind s s) {op : Operation Json} (hop : (Act.operate op).IsApart kind) :
    Indistinct kind s ((Act.operate op).run s) := by
  -- a look at a slot, which changes nothing, stands beside the operation
  refine h.onCache_right fun c c' hslots => hslots.apply (.get (.number 0) "") op fun key slot hslot => ?_
  have hvalues := hslots.values key slot hslot
  cases op with
  | get | contains => exact hvalues
  | set p other value => exact (SlotMap.put_of_ne (.inr (ne_of_mem_of_not_mem hslot hop)) _ _).trans hvalues
  | forget p other => exact (SlotMap.put_of_ne (.inr (ne_of_mem_of_not_mem hslot hop)) _ _).trans hvalues
  | forgetPrincipal p => exact hop.elim

end Indistinct

theorem Indistinct.ask_apart (h : Indistinct kind s s) {q : Query} (hq : q.kind? ≠ some kind) :
    Indistinct kind s (perform q.ask s).2 := by
  cases hp : q.about? s with
  | none =>
      obtain ⟨e, hunknown⟩ := ask_of_unknown q
      rw [hunknown s hp]
      exact h
  | some p =>
      rcases h.caches with ⟨hcache, -⟩ | ⟨c, _, hcache, _, hslots⟩
      · have hcan : CanServe s.cache := by
          rw [hcache]
          exact nofun
        obtain ⟨_, _, cache, questions, _, settings, hperform, -, hserved⟩ := replied_ask [] hcan q
        have hnone : cache = s.cache := by
          rcases hserved with ⟨hsame, -⟩ | ⟨_, _, -, -, hserved, -⟩
          · exact hsame
          · rw [hcache] at hserved ⊢
            cases hserved
            rfl
        rw [hperform, hnone]
        exact ⟨h.trees, h.cache, h.principals⟩
      · cases hfault : c.timeout.fault? with
        | some f =>
            obtain ⟨reply, c', settings, hperform, halike, -⟩ := ask_of_fault hcache hfault hp
            rw [hperform]
            exact ⟨h.trees, hcache ▸ .some (.of_alike hslots.free halike), h.principals⟩
        | none =>
            obtain ⟨hc, -⟩ := hslots.usable hfault
            obtain ⟨reply, asked, m, c', settings, hperform, htracks, hanswering⟩ := ask_answering hcache hc hp
            rw [hperform]
            refine ⟨h.trees, hcache ▸ .some (.of_usable hc htracks.usable fun key slot hslot => ?_), h.principals⟩
            rw [htracks.values, hanswering.others (.inr fun other hother hslot' => ?_)]
            have hkind : kind ≠ other := fun hkind => hq (hkind.symm ▸ hother)
            exact Hierarchy.ne_of_mem_slots hkind hslot hslot' rfl

theorem Indistinct.run_apart (h : Indistinct kind s s) {act : Act} (hact : act.IsApart kind) :
    Indistinct kind s (act.run s) := by
  cases act with
  | edit other e => exact h.edit_apart hact e
  | revise name change => exact h.revise_apart name hact
  | announce kinds change => exact h.invalidate_apart hact change
  | ask q => exact h.ask_apart hact
  | operate op => exact h.operate_apart hact
  | enrol | renewCache | begin | finish => exact hact.elim

/-! ### Histories that differ in the other hierarchy -/

/-- Two acts at the same position of two histories. They are the same but for what the other hierarchy shows of
principals, or both are about the other hierarchy and need have nothing else in common. -/
inductive Parallel (kind : Hierarchy) : Act → Act → Prop
  | apart {act act' : Act} (h : act.IsApart kind) (h' : act'.IsApart kind) : Parallel kind act act'
  | edit (e : Edit NodeId) : Parallel kind (.edit kind e) (.edit kind e)
  | enrol {name : String} {p p' : Profile} (h : p'.view kind = p.view kind) :
      Parallel kind (.enrol name p) (.enrol name p')
  /-- From principals that the hierarchy shows alike, the revisions make principals that it shows alike. -/
  | revise {name : String} {change change' : Profile → Profile}
      (h : ∀ p p' : Profile, p'.view kind = p.view kind → (change' p').view kind = (change p).view kind) :
      Parallel kind (.revise name change) (.revise name change')
  | announce (kinds : List Hierarchy) (change : Change) : Parallel kind (.announce kinds change) (.announce kinds change)
  | ask (q : Query) : Parallel kind (.ask q) (.ask q)
  | operate (op : Operation Json) : Parallel kind (.operate op) (.operate op)

namespace Parallel

variable (name aliasName : String)

theorem setUserStarts (starts : Json) :
    Parallel kind (.revise name fun p => p.setUserStarts starts kind)
      (.revise name fun p => p.setUserStarts starts kind) :=
  .revise fun p p' h => by rw [p'.view_setUserStarts, h, p.view_setUserStarts]

theorem setGroupStart (start : Json) :
    Parallel kind (.revise name fun p => p.setGroupStart aliasName start kind)
      (.revise name fun p => p.setGroupStart aliasName start kind) :=
  .revise fun p p' h => by rw [p'.view_setGroupStart, h, p.view_setGroupStart]

/-- A group that is joined may declare anything in the other hierarchy. -/
theorem addGroup {g g' : GroupProfile} (hg : g'.view kind = g.view kind) :
    Parallel kind (.revise name fun p => p.addGroup g) (.revise name fun p => p.addGroup g') :=
  .revise fun p p' h => by rw [p'.view_addGroup, h, hg, p.view_addGroup]

theorem dropGroup :
    Parallel kind (.revise name fun p => p.dropGroup aliasName) (.revise name fun p => p.dropGroup aliasName) :=
  .revise fun p p' h => by rw [p'.view_dropGroup, h, p.view_dropGroup]

end Parallel

theorem isApart_setUserStarts {other : Hierarchy} (h : other ≠ kind) (name : String) (starts : Json) :
    (Act.revise name fun p => p.setUserStarts starts other).IsApart kind :=
  fun p => p.view_setUserStarts_of_ne h starts

theorem isApart_setGroupStart {other : Hierarchy} (h : other ≠ kind) (name aliasName : String) (start : Json) :
    (Act.revise name fun p => p.setGroupStart aliasName start other).IsApart kind :=
  fun p => p.view_setGroupStart_of_ne h aliasName start

/-- The reply to an act, if it is a query about a hierarchy. -/
def Act.replyAbout (kind : Hierarchy) (s : Service) : Act → Option (Except ServiceError Reply)
  | .ask q => if q.kind? = some kind then some (perform q.ask s).1 else none
  | _ => none

/-- For each of some acts, the reply to it if it is a query about a hierarchy. -/
def repliesAbout (kind : Hierarchy) : List Act → Service → List (Option (Except ServiceError Reply))
  | [], _ => []
  | act :: acts, s => act.replyAbout kind s :: repliesAbout kind acts (act.run s)

theorem replyAbout_of_isApart {act : Act} (h : act.IsApart kind) (s : Service) : act.replyAbout kind s = none := by
  cases act with
  | ask q => exact if_neg h
  | _ => rfl

theorem Indistinct.step (h : Indistinct kind s s') {act act' : Act} (hacts : Parallel kind act act') :
    act'.replyAbout kind s' = act.replyAbout kind s ∧ Indistinct kind (act.run s) (act'.run s') := by
  cases hacts with
  | apart hact hact' =>
      rw [replyAbout_of_isApart hact, replyAbout_of_isApart hact']
      exact ⟨rfl, ((h.left.run_apart hact).symm.trans h).trans (h.symm.left.run_apart hact')⟩
  | edit e => exact ⟨rfl, h.edit e⟩
  | enrol hp => exact ⟨rfl, h.enrol _ hp⟩
  | revise hchange => exact ⟨rfl, h.revise _ hchange⟩
  | announce kinds change => exact ⟨rfl, h.invalidate kinds change⟩
  | ask q =>
      by_cases hq : q.kind? = some kind
      · obtain ⟨hreply, hafter⟩ := h.ask hq
        exact ⟨by rw [Act.replyAbout, Act.replyAbout, if_pos hq, if_pos hq, hreply], hafter⟩
      · refine ⟨?_, ((h.left.ask_apart hq).symm.trans h).trans (h.symm.left.ask_apart hq)⟩
        have happart : (Act.ask q).IsApart kind := hq
        rw [replyAbout_of_isApart happart, replyAbout_of_isApart happart]
  | operate op => exact ⟨rfl, h.onCache fun c c' hslots => hslots.apply_same op⟩

theorem Indistinct.repliesAbout_eq {acts acts' : List Act} (hacts : List.Forall₂ (Parallel kind) acts acts')
    (h : Indistinct kind s s') : repliesAbout kind acts' s' = repliesAbout kind acts s := by
  induction hacts generalizing s s' with
  | nil => rfl
  | cons hact _ ih =>
      obtain ⟨hreply, hafter⟩ := h.step hact
      rw [repliesAbout, repliesAbout, hreply, ih hafter]

/-- The hierarchies do not interfere. Two histories of a service with a directory and a cache, or none, take the same acts
but for those that are about the other hierarchy: there they may do anything, whether or not it is refused. Then the replies
about this hierarchy are the same, one by one. -/
theorem hierarchies_do_not_interfere (kind : Hierarchy) {d : Directory NodeId} (hsource : s.source = .trees (.plain d))
    (hfree : ∀ c, s.cache = some c → c.heldElsewhere = []) {acts acts' : List Act}
    (hacts : List.Forall₂ (Parallel kind) acts acts') : repliesAbout kind acts' s = repliesAbout kind acts s :=
  (Indistinct.refl hsource hfree).repliesAbout_eq hacts

/-- A history in which media are declared for a group and for a user, and node 5 is there. -/
def withMedia : List Act :=
  [.enrol "a" ⟨1, "", [⟨"h", "", .int 8, .null⟩], .arr [], .arr []⟩, .revise "a" fun p => p.dropGroup "h",
    .revise "a" fun p => p.addGroup ⟨"g", "", .null, .int 5⟩, .edit .media (.add 5 rootId),
    .edit .content (.add 7 rootId),
    .revise "a" fun p => p.setUserStarts (.arr [.int 9]) .content,
    .revise "a" fun p => p.setGroupStart "g" (.int 7) .content, .announce Hierarchy.all (.startNodes (.number 1)),
    .ask (.paths .media "a"), .ask (.paths .content "a"), .revise "a" fun p => p.setUserStarts (.arr [.int 5]) .media,
    .ask (.access .content .root (some "a"))]

/-- The same with media that are no nodes: there is nothing to trash, and a query is about nobody. -/
def withoutMedia : List Act :=
  [.enrol "a" ⟨1, "", [⟨"h", "", .int 8, .arr []⟩], .arr [], .str "none"⟩, .revise "a" fun p => p.dropGroup "h",
    .revise "a" fun p => p.addGroup ⟨"g", "", .null, .arr []⟩,
    .revise "a" fun p => p.setGroupStart "g" (.str "none") .media, .edit .content (.add 7 rootId),
    .revise "a" fun p => p.setUserStarts (.arr [.int 9]) .content,
    .revise "a" fun p => p.setGroupStart "g" (.int 7) .content, .announce Hierarchy.all (.startNodes (.number 1)),
    .ask (.ids .media "b"), .ask (.paths .content "a"), .edit .media (.trash 9), .ask (.access .content .root (some "a"))]

theorem hierarchies_do_not_interfere_media :
    List.Forall₂ (Parallel .content) withMedia withoutMedia ∧
      repliesAbout .content withoutMedia { cache := some (Cache.empty (.whole 30)) } =
        [none, none, none, none, none, none, none, none, none, some (.ok (.scope (Json.ofStrings ["-1,7"]))), none,
          some (.ok (.verdict false))] := by
  have hapart : Hierarchy.media ≠ .content := by decide
  have hasksMedia : ∀ q : Query, q.kind? = some .media → (Act.ask q).IsApart .content := by
    intro q hq
    rw [Act.IsApart, hq]
    exact fun h => hapart (Option.some.inj h)
  have hparallel : List.Forall₂ (Parallel .content) withMedia withoutMedia :=
    .cons (.enrol rfl) <| .cons (.dropGroup _ _) <| .cons (.addGroup _ rfl) <|
    .cons (.apart hapart (isApart_setGroupStart hapart _ _ _)) <| .cons (.edit _) <| .cons (.setUserStarts _ _) <|
    .cons (.setGroupStart _ _ _) <| .cons (.announce _ _) <| .cons (.apart (hasksMedia _ rfl) (hasksMedia _ rfl)) <|
    .cons (.ask _) <| .cons (.apart (isApart_setUserStarts hapart _ _) hapart) <| .cons (.ask _) .nil
  have hreplies : repliesAbout .content withMedia { cache := some (Cache.empty (.whole 30)) } =
      [none, none, none, none, none, none, none, none, none, some (.ok (.scope (Json.ofStrings ["-1,7"]))), none,
        some (.ok (.verdict false))] := rfl
  refine ⟨hparallel, ?_⟩
  rw [← hreplies]
  refine hierarchies_do_not_interfere .content (d := .seeded) rfl ?_ hparallel
  rintro _ ⟨⟩
  rfl

end StartNodes.Service
