import StartNodes.Proofs.Directory.Snapshots
import StartNodes.Proofs.Service.Access

/-!
Which questions fail for want of a path. In a directory that has been edited and loaded, a question fails at a stray that
it asks for, and only there; edits alone leave no strays, a snapshot may bring any.
-/

namespace StartNodes

namespace Scope

variable {d : Directory NodeId} {kind : Hierarchy} {groupIds userIds starts : List NodeId} {id : NodeId}

/-- What is combined has been declared. -/
theorem mem_of_combineFrom {ι : Type} [BEq ι] {root id : ι} {paths : List ι → Except LookupError (PathTable ι)}
    {groups own starts : List ι} (h : combineFrom root paths kind groups own = .ok starts) (hid : id ∈ starts) :
    id ∈ groups ++ own := by
  obtain ⟨path?, rfl⟩ := exists_eq_combine h
  exact mem_of_mem_combine hid

theorem exists_combineIds_iff (h : (d.tree kind).WellFormed) (groupIds userIds : List NodeId) :
    (∃ starts, combineIds (.trees (.plain d)) kind groupIds userIds = .ok starts) ↔
      ∀ id ∈ groupIds ++ userIds, ¬ (d.tree kind).IsStray id := by
  have hdeclared : (∀ id ∈ groupIds ++ userIds, ¬ (d.tree kind).IsStray id) ↔
      ∃ table, d.paths kind (declared groupIds userIds) = .ok table := by
    rw [Directory.exists_paths_iff h]
    simp only [declared, List.mem_eraseDups]
  rw [hdeclared, combineIds, combineFrom_eq_combine]
  by_cases hnone : (declared groupIds userIds).isEmpty = true
  · rw [if_pos hnone, List.isEmpty_iff.mp hnone]
    exact ⟨fun _ => ⟨[], rfl⟩, fun _ => ⟨_, rfl⟩⟩
  · rw [if_neg hnone]
    show (∃ starts, ((d.paths kind _).mapError LookupError.search).map _ = _) ↔ _
    cases d.paths kind (declared groupIds userIds) with
    | error e => simp [Except.mapError, Except.map]
    | ok table => simp [Except.mapError, Except.map]

end Scope

namespace Service

variable {α : Type} {d : Directory NodeId} {kind : Hierarchy} {s : Service}

/-- A question fails for want of a path. -/
def LacksPath (x : ServiceM α) (s : Service) : Prop :=
  ∃ e, (perform x s).1 = .error (.lookup e)

theorem perform_effectivePaths_uncached (hsource : s.source = .trees (.plain d)) (hcache : s.cache = none)
    {p : Principal} {starts : List NodeId}
    (hstarts : Scope.combineIds s.source kind (p.groupStarts kind) (p.userStarts kind) = .ok starts)
    {table : PathTable NodeId} (htable : d.paths kind (starts.filter (· != rootId)) = .ok table) :
    ∃ questions, perform (effectivePaths kind p.profile) s =
      (.ok (Json.ofStrings (Scope.pathsOf table.path? starts)), { s with questions }) := by
  obtain ⟨questions, hids⟩ := perform_effectiveIds_uncached hcache kind p
  rw [hstarts] at hids
  have hpaths : ∃ questions', perform (computePaths kind (Stored.ofIds starts)) { s with questions } =
      (.ok (Scope.pathsOf table.path? starts), { s with questions := questions' }) := by
    unfold computePaths
    rw [Stored.ids?_ofIds]
    simp only
    by_cases hnone : (starts.filter (· != rootId)).isEmpty = true
    · rw [if_pos hnone]
      rw [List.isEmpty_iff.mp hnone] at htable
      cases htable
      exact ⟨questions, rfl⟩
    · have hsourcePaths : s.source.paths kind (starts.filter (· != rootId)) = .ok table := by
        rw [hsource, PathSource.paths, htable]
        rfl
      have hresolve := perform_resolveIds kind (starts.filter (· != rootId)) { s with questions }
      rw [hsourcePaths] at hresolve
      rw [if_neg hnone, perform_bind_of_ok hresolve]
      exact ⟨_, rfl⟩
  obtain ⟨questions', hpaths⟩ := hpaths
  refine ⟨questions', ?_⟩
  rw [effectivePaths, perform_memoize_of_none hcache, perform_bind_of_ok hids]
  exact perform_bind_of_ok hpaths

/-! ### Questions that fail -/

theorem lacksPath_effectiveIds_iff (h : (d.tree kind).WellFormed) (hsource : s.source = .trees (.plain d))
    (hcache : s.cache = none) (p : Principal) :
    LacksPath (effectiveIds kind p.profile) s ↔
      ∃ id ∈ p.groupStarts kind ++ p.userStarts kind, (d.tree kind).IsStray id := by
  have hiff := Scope.exists_combineIds_iff h (p.groupStarts kind) (p.userStarts kind)
  obtain ⟨questions, hperform⟩ := perform_effectiveIds_uncached hcache kind p
  rw [LacksPath, hperform, hsource]
  cases hstarts : Scope.combineIds (.trees (.plain d)) kind (p.groupStarts kind) (p.userStarts kind) with
  | ok starts =>
      have hnone := hiff.mp ⟨starts, hstarts⟩
      exact ⟨fun ⟨_, he⟩ => (nomatch he), fun ⟨id, hid, hstray⟩ => absurd hstray (hnone id hid)⟩
  | error e =>
      rw [hstarts] at hiff
      refine ⟨fun _ => ?_, fun _ => ⟨e, rfl⟩⟩
      by_contra hnone
      obtain ⟨_, hok⟩ := hiff.mpr fun id hid hstray => hnone ⟨id, hid, hstray⟩
      cases hok

theorem lacksPath_bind_iff {β : Type} {x : ServiceM α} {f : α → ServiceM β}
    (hf : ∀ a s', perform x s = (.ok a, s') → ¬ LacksPath (f a) s') : LacksPath (x >>= f) s ↔ LacksPath x s := by
  cases hx : perform x s with
  | mk outcome s' =>
      cases outcome with
      | error e =>
          rw [LacksPath, perform_bind_of_error hx, LacksPath, hx]
          simp only [Except.error.injEq]
      | ok a =>
          rw [LacksPath, perform_bind_of_ok hx]
          exact ⟨fun h => absurd h (hf a s' hx), fun ⟨_, h⟩ => by rw [hx] at h; cases h⟩

theorem not_lacksPath_of_ok {x : ServiceM α} {a : α} {s' : Service} (h : perform x s = (.ok a, s')) :
    ¬ LacksPath x s := by
  rintro ⟨e, he⟩
  rw [h] at he
  cases he

theorem not_lacksPath_ofStored (outcome : Except StoredError α) (s : Service) :
    ¬ LacksPath (answer .ofStored outcome) s := by
  rintro ⟨e, he⟩
  rw [perform_answer] at he
  cases outcome with
  | ok a => cases he
  | error err => cases err <;> cases he

/-- The second table, of the start nodes' paths, asks for no more than has been declared. -/
theorem lacksPath_effectivePaths_iff (h : (d.tree kind).WellFormed) (hsource : s.source = .trees (.plain d))
    (hcache : s.cache = none) (p : Principal) :
    LacksPath (effectivePaths kind p.profile) s ↔
      ∃ id ∈ p.groupStarts kind ++ p.userStarts kind, (d.tree kind).IsStray id := by
  cases hstarts : Scope.combineIds s.source kind (p.groupStarts kind) (p.userStarts kind) with
  | ok starts =>
      rw [hsource] at hstarts
      have hnone := (Scope.exists_combineIds_iff h _ _).mp ⟨starts, hstarts⟩
      -- no start node is a stray, as each has been declared
      obtain ⟨table, htable⟩ := (Directory.exists_paths_iff h (starts.filter (· != rootId))).mpr fun id hid =>
        hnone id (Scope.mem_of_combineFrom hstarts (List.mem_of_mem_filter hid))
      rw [← hsource] at hstarts
      obtain ⟨questions, hpaths⟩ := perform_effectivePaths_uncached hsource hcache hstarts htable
      exact ⟨fun hlacks => absurd hlacks (not_lacksPath_of_ok hpaths),
        fun ⟨id, hid, hstray⟩ => absurd hstray (hnone id hid)⟩
  | error e =>
      rw [← lacksPath_effectiveIds_iff h hsource hcache p]
      obtain ⟨questions, hids⟩ := perform_effectiveIds_uncached hcache kind p
      rw [hstarts] at hids
      rw [effectivePaths, LacksPath, perform_memoize_of_none hcache, perform_bind_of_error hids, LacksPath, hids]
      exact Iff.rfl

theorem lacksPath_hasAccess_iff (h : (d.tree kind).WellFormed) (hsource : s.source = .trees (.plain d))
    (hcache : s.cache = none) (p : Principal) {target : Target} {path : String} (htarget : target.path kind = .ok path) :
    LacksPath (hasAccess kind target (some p.profile)) s ↔
      ∃ id ∈ p.groupStarts kind ++ p.userStarts kind, (d.tree kind).IsStray id := by
  rw [← lacksPath_effectiveIds_iff h hsource hcache p]
  have hpath : perform (answer .access (target.path kind)) s = (.ok path, s) := by
    rw [perform_answer, htarget]
    rfl
  unfold hasAccess
  rw [LacksPath, perform_bind_of_ok hpath]
  exact lacksPath_bind_iff fun _ s' _ => not_lacksPath_ofStored _ s'

/-- After any edits and snapshots, a table of paths is refused exactly if a stray is asked for, and otherwise lists the
nodes that the root reaches, each with a lineage of it. Without a cache, a question about a principal fails for want of a
path exactly if the principal or one of its groups declares a stray. Edits alone leave no strays. -/
theorem lookups_after_changes (changes : List Directory.Change) (kind : Hierarchy) :
    let d := (Directory.seeded : Directory NodeId).afterChanges changes
    let g := d.tree kind
    (∀ ids, (∃ table, d.paths kind ids = .ok table) ↔ ∀ id ∈ ids, ¬ g.IsStray id) ∧
      (∀ ids table, d.paths kind ids = .ok table → ∀ id,
        ((∃ path, table.lookup id = some path) ↔ id ∈ ids ∧ id ∈ g.nodeIds ∧ g.Reaches rootId id) ∧
          ∀ path, table.lookup id = some path → ∃ chain, path = Path.join chain ∧ g.Lineage rootId id chain) ∧
      (∀ (s : Service) (p : Principal), s.source = .trees (.plain d) → s.cache = none →
        let declaresStray := ∃ id ∈ p.groupStarts kind ++ p.userStarts kind, g.IsStray id
        (LacksPath (effectiveIds kind p.profile) s ↔ declaresStray) ∧
          (LacksPath (effectivePaths kind p.profile) s ↔ declaresStray) ∧
          ∀ target path, target.path kind = .ok path →
            (LacksPath (hasAccess kind target (some p.profile)) s ↔ declaresStray)) ∧
      ∀ edits : List (Hierarchy × Edit NodeId), changes = edits.map (fun e => .edit e.1 e.2) → ∀ id, ¬ g.IsStray id := by
  intro d g
  have hg : g.WellFormed := Directory.hasTrees_seeded.isWellFormed.afterChanges changes kind
  refine ⟨fun ids => Directory.exists_paths_iff hg ids, fun ids table htable => Directory.lookup_of_paths hg htable,
    fun s p hsource hcache => ⟨?_, ?_, fun target path htarget => ?_⟩, ?_⟩
  · exact lacksPath_effectiveIds_iff hg hsource hcache p
  · exact lacksPath_effectivePaths_iff hg hsource hcache p
  · exact lacksPath_hasAccess_iff hg hsource hcache p htarget
  · rintro edits hedits id ⟨hid, hreaches⟩
    have htree : g.IsTreeOf kind := by
      have hafter := Directory.hasTrees_after_seeded edits kind
      rwa [← Directory.afterChanges_edits, ← hedits] at hafter
    exact hreaches (htree.reaches id hid)

/-- A snapshot with two nodes and no link between them, one of which is the root. -/
def strayText : String :=
  "\x7b\"CONTENT\":\x7b\"directed\":true,\"multigraph\":false,\"graph\":\x7b\x7d,\"nodes\":[\x7b\"id\":-1\x7d,\x7b\"id\":5\x7d],\"links\":[]\x7d\x7d"

theorem paths_refused_after_snapshot :
    let d := (Directory.seeded : Directory NodeId).afterChanges [.load strayText]
    ((Directory.seeded : Directory NodeId).load strayText).1 = none ∧
      d.paths .content [5] = .error (.noPath rootId 5) := by
  decide +kernel

end Service

end StartNodes
