import StartNodes.Proofs.Directory.EditedPaths
import StartNodes.Proofs.Service.Lookups
import StartNodes.Proofs.Service.Serving

/-!
Scopes and edits elsewhere. A scope depends on the directory through the paths of the declared nodes alone, and an edit
changes no paths but those of the edited node and of the nodes below it. So an edit that touches none of the nodes that
a principal declares leaves the principal's scope as it is, and what a cache keeps of it stays what would be computed.
-/

namespace StartNodes

open StartNodes.Graph

namespace Directory

variable {d : Directory NodeId} {kind other : Hierarchy} {e : Edit NodeId} {m : NodeId}

/-- An edit that is accepted changes no paths but those of the edited node and of the nodes below it. -/
theorem path?_edit (h : d.HasTrees) (hok : (d.edit kind e).1 = .ok ())
    (hm : other = kind → ¬ (d.tree kind).Reaches e.id m) : (d.edit kind e).2.path? other m = d.path? other m := by
  by_cases hother : other = kind
  swap
  · exact path?_congr (tree_edit_of_ne d hother e) m
  rw [hother]
  have hout := hm hother
  cases e with
  | add id parent =>
      refine (hung_of_add h hok).others m ?_
      rintro rfl
      exact hout Relation.ReflTransGen.refl
  | move id parent => exact (rehung_of_move h hok).others m hout
  | trash id => exact (rehung_of_move h hok).others m hout
  | remove id => exact (pruned_of_remove h hok).others m hout

end Directory

/-- Two directories that have the same paths for some nodes combine them alike. -/
theorem Scope.combineIds_congr {d d' : Directory NodeId} {kind : Hierarchy} {groupIds userIds : List NodeId}
    (h : ∀ id ∈ groupIds ++ userIds, d'.path? kind id = d.path? kind id) :
    combineIds (.trees (.plain d')) kind groupIds userIds = combineIds (.trees (.plain d)) kind groupIds userIds := by
  have htable : d'.paths kind (declared groupIds userIds) = d.paths kind (declared groupIds userIds) :=
    Directory.paths_eq_of_path? fun id hid => h id (List.mem_eraseDups.mp hid)
  have hpaths : (PathSource.trees (.plain d')).paths kind (declared groupIds userIds) =
      (PathSource.trees (.plain d)).paths kind (declared groupIds userIds) := by
    rw [PathSource.paths, PathSource.paths, htable]
  rw [combineIds, combineIds, combineFrom_eq_combine, combineFrom_eq_combine, hpaths]

namespace Service

variable {d : Directory NodeId} {kind : Hierarchy} {starts : List NodeId} {paths : List String}

/-! ### Scopes -/

/-- The service answers with these start nodes, and with these paths, when it is asked for the scope of a principal. -/
structure GivesScope (s : Service) (kind : Hierarchy) (p : Profile) (starts : List NodeId) (paths : List String) :
    Prop where
  ids : (perform (effectiveIds kind p) s).1 = .ok (Stored.ofIds starts)
  paths : (perform (effectivePaths kind p) s).1 = .ok (Json.ofStrings paths)

/-- Without a cache, the scope of a principal is what its declarations come to, with the paths in the directory. -/
theorem givesScope_uncached {s : Service} (hsource : s.source = .trees (.plain d)) (hcache : s.cache = none)
    {p : Principal}
    (hstarts : Scope.combineIds (.trees (.plain d)) kind (p.groupStarts kind) (p.userStarts kind) = .ok starts)
    {table : PathTable NodeId} (htable : d.paths kind (starts.filter (· != rootId)) = .ok table) :
    s.GivesScope kind p.profile starts (Scope.pathsOf (PathTable.path? table) starts) := by
  rw [← hsource] at hstarts
  obtain ⟨_, hids⟩ := perform_effectiveIds_uncached hcache kind p
  obtain ⟨_, hpaths⟩ := perform_effectivePaths_uncached hsource hcache hstarts htable
  rw [hstarts] at hids
  exact ⟨congrArg Prod.fst hids, congrArg Prod.fst hpaths⟩

/-- That scope is the same in all directories in which the declared nodes have the same paths. -/
theorem exists_scope (h : (d.tree kind).IsTreeOf kind) (p : Principal) :
    ∃ starts paths, ∀ d' : Directory NodeId,
      (∀ id ∈ p.groupStarts kind ++ p.userStarts kind, d'.path? kind id = d.path? kind id) →
        ∀ s : Service, s.cache = none → s.source = .trees (.plain d') → s.GivesScope kind p.profile starts paths := by
  obtain ⟨starts, hstarts, _⟩ := Scope.combineIds_trees h (p.groupStarts kind) (p.userStarts kind)
  obtain ⟨table, htable, _⟩ := Directory.paths_eq_ok h.toIsTree (starts.filter (· != rootId))
  refine ⟨starts, Scope.pathsOf (PathTable.path? table) starts, fun d' hd' s hcache hsource => ?_⟩
  -- each start node has been declared
  have hsame : ∀ id ∈ starts.filter (· != rootId), d'.path? kind id = d.path? kind id :=
    fun id hid => hd' id (Scope.mem_of_combineFrom hstarts (List.mem_of_mem_filter hid))
  rw [← Scope.combineIds_congr hd'] at hstarts
  rw [← Directory.paths_eq_of_path? hsame] at htable
  exact givesScope_uncached hsource hcache hstarts htable

/-- Where what is kept for a principal is fresh, the cache does not show. -/
theorem GivesScope.of_fresh {s : Service} {p : Profile} (h : GivesScope { source := s.source } kind p starts paths)
    (hcan : CanServe s.cache) (hfresh : Fresh s.source s.cache p) : s.GivesScope kind p starts paths := by
  obtain ⟨_, _, _, hids, _, hids'⟩ := serves_effectiveIds kind p s hcan
  obtain ⟨_, _, _, hpaths, _, hpaths'⟩ := serves_effectivePaths kind p s hcan
  refine ⟨?_, ?_⟩
  · rw [hids, (hids' hfresh).1]
    exact h.ids
  · rw [hpaths, (hpaths' hfresh).1]
    exact h.paths

/-- What is kept for a principal whose scope is the same from another source is fresh there too. -/
theorem Fresh.of_scopes {source source' : PathSource} {cache : Option (Cache Json)} {p : Profile}
    (h : ∀ kind, ∃ starts paths, GivesScope { source } kind p starts paths ∧
      GivesScope { source := source' } kind p starts paths)
    (hfresh : Fresh source cache p) : Fresh source' cache p := by
  intro c hc slot factory value hfill hvalue
  rw [← hfresh c hc slot factory value hfill hvalue]
  cases hfill with
  | ids kind =>
      obtain ⟨starts, paths, hold, hnew⟩ := h kind
      have hsame := hnew.ids.trans hold.ids.symm
      rwa [effectiveIds, perform_memoize_of_none rfl, perform_memoize_of_none rfl] at hsame
  | paths kind =>
      obtain ⟨starts, paths, hold, hnew⟩ := h kind
      have hsame := hnew.paths.trans hold.paths.symm
      rwa [effectivePaths, perform_memoize_of_none rfl, perform_memoize_of_none rfl] at hsame

/-! ### Edits -/

/-- Whatever edits have been tried on the directory, an edit that is accepted, on a node that is none of those that a
principal declares in the hierarchy and is above none of them, leaves the scope of the principal as it is: without a cache,
the effective start nodes and their paths are the same lists before and after, in each hierarchy. What a cache keeps for the
principal need not be invalidated: what was as it would be computed before the edit is so after it, and a service with that
cache gives the same scope. -/
theorem scope_outlives_edits_elsewhere (edits : List (Hierarchy × Edit NodeId)) (kind : Hierarchy) (e : Edit NodeId)
    (p : Principal) :
    let d := (Directory.seeded : Directory NodeId).after edits
    let before : PathSource := .trees (.plain d)
    let after : PathSource := .trees (.plain (d.edit kind e).2)
    (d.edit kind e).1 = .ok () →
    (∀ id ∈ p.groupStarts kind ++ p.userStarts kind, ¬ (d.tree kind).Reaches e.id id) →
      (∀ other, ∃ starts paths,
        (∀ s : Service, s.cache = none → s.source = before ∨ s.source = after →
          s.GivesScope other p.profile starts paths) ∧
        ∀ s : Service, s.source = after → CanServe s.cache → Fresh before s.cache p.profile →
          s.GivesScope other p.profile starts paths) ∧
      ∀ cache, Fresh before cache p.profile → Fresh after cache p.profile := by
  intro d before after hok hout
  have htrees : d.HasTrees := Directory.hasTrees_after_seeded edits
  have hscope : ∀ other, ∃ starts paths, ∀ s : Service, s.cache = none → s.source = before ∨ s.source = after →
      s.GivesScope other p.profile starts paths := by
    intro other
    obtain ⟨starts, paths, hscope⟩ := exists_scope (htrees other) p
    refine ⟨starts, paths, fun s hcache hsource => ?_⟩
    rcases hsource with hsource | hsource
    · exact hscope d (fun _ _ => rfl) s hcache hsource
    · refine hscope (d.edit kind e).2 (fun id hid => Directory.path?_edit htrees hok ?_) s hcache hsource
      rintro rfl
      exact hout id hid
  have hfresh : ∀ cache, Fresh before cache p.profile → Fresh after cache p.profile := fun cache =>
    Fresh.of_scopes fun other => by
      obtain ⟨starts, paths, hscope⟩ := hscope other
      exact ⟨starts, paths, hscope _ rfl (.inl rfl), hscope _ rfl (.inr rfl)⟩
  refine ⟨fun other => ?_, hfresh⟩
  obtain ⟨starts, paths, hscope⟩ := hscope other
  refine ⟨starts, paths, hscope, fun s hsource hcan hkept => ?_⟩
  refine GivesScope.of_fresh (hscope _ rfl (.inr hsource)) hcan ?_
  rw [hsource]
  exact hfresh s.cache hkept

/-- A node below one that a group declares is moved below the principal's own. -/
theorem scope_outlives_edits_elsewhere_move :
    let d := (Directory.seeded : Directory NodeId).after
      [(.content, .add 10 rootId), (.content, .add 20 10), (.content, .add 30 rootId), (.content, .add 40 20)]
    let d' := (d.edit .content (.move 20 30)).2
    let p : Principal := ⟨1, "", [⟨"editors", "", some 10, none⟩], [30], []⟩
    (d.edit .content (.move 20 30)).1 = .ok () ∧
      (∀ id ∈ p.groupStarts .content ++ p.userStarts .content, ¬ (d.tree .content).Reaches 20 id) ∧
      GivesScope { source := .trees (.plain d) } .content p.profile [10, 30] ["-1,10", "-1,30"] ∧
        GivesScope { source := .trees (.plain d') } .content p.profile [10, 30] ["-1,10", "-1,30"] := by
  intro d d' p
  have hok : (d.edit .content (.move 20 30)).1 = .ok () := by decide
  have htree : (d.tree .content).IsTreeOf .content := Directory.hasTrees_after_seeded _ .content
  have hout : ∀ id ∈ p.groupStarts .content ++ p.userStarts .content, ¬ (d.tree .content).Reaches 20 id := by
    intro id hid
    rw [← mem_subtree_iff htree.toWellFormed (by decide)]
    revert id
    decide
  obtain ⟨hscope, _⟩ := scope_outlives_edits_elsewhere _ .content (.move 20 30) p hok hout
  obtain ⟨starts, paths, huncached, _⟩ := hscope .content
  have hbefore := huncached { source := .trees (.plain d) } rfl (.inl rfl)
  have hafter := huncached { source := .trees (.plain d') } rfl (.inr rfl)
  have hstarts : Scope.combineIds (.trees (.plain d)) .content (p.groupStarts .content) (p.userStarts .content) =
      .ok [10, 30] := by
    decide
  have htable : d.paths .content [10, 30] = .ok [(10, "-1,10"), (30, "-1,30")] := by decide
  have hlists : GivesScope { source := .trees (.plain d) } .content p.profile [10, 30] ["-1,10", "-1,30"] :=
    givesScope_uncached rfl rfl hstarts htable
  refine ⟨hok, hout, hlists, ?_, ?_⟩
  · exact (hafter.ids.trans hbefore.ids.symm).trans hlists.ids
  · exact (hafter.paths.trans hbefore.paths.symm).trans hlists.paths

end Service

end StartNodes
