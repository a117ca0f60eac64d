import StartNodes.Proofs.Directory.Ancestry
import StartNodes.Proofs.List.Lookup

/-!
Paths in graphs that need not be trees. A node that is not there has no path and does no harm; one that is there and to
which no edges lead from the root, a stray, makes the search fail, and with it the whole table that is asked for.
-/

namespace StartNodes

/-- A node that is there and to which no edges lead from the root. -/
def Graph.IsStray (g : Graph NodeId) (id : NodeId) : Prop :=
  id ∈ g.nodeIds ∧ ¬ g.Reaches rootId id

namespace Directory

open StartNodes.Graph

variable {d : Directory NodeId} {kind : Hierarchy} {id : NodeId}

theorem path?_of_mem (hid : id ∈ (d.tree kind).nodeIds) :
    d.path? kind id = ((d.tree kind).shortestPath rootId id).map fun ids => some (Path.join ids) := by
  unfold path?
  simp only
  rw [if_pos (hasNode_iff.mpr hid)]
  rfl

/-- The path of a node that the root reaches is one of its lineages, joined. -/
theorem path?_of_reaches (h : (d.tree kind).WellFormed) (hid : id ∈ (d.tree kind).nodeIds)
    (hreaches : (d.tree kind).Reaches rootId id) :
    ∃ chain, d.path? kind id = .ok (some (Path.join chain)) ∧ (d.tree kind).Lineage rootId id chain := by
  obtain ⟨chain, hpath, hchain⟩ := exists_shortestPath h (hreaches.source_mem h hid) hreaches
  refine ⟨chain, ?_, hchain⟩
  rw [path?_of_mem hid, hpath]
  rfl

/-- The search for a stray says that there is no path, or that there is no root. -/
theorem path?_of_isStray (h : (d.tree kind).WellFormed) (hstray : (d.tree kind).IsStray id) :
    d.path? kind id =
      .error (if (d.tree kind).hasNode rootId then .noPath rootId id else .missingSource rootId) := by
  rw [path?_of_mem hstray.1]
  by_cases hroot : rootId ∈ (d.tree kind).nodeIds
  · rw [shortestPath_of_not_reaches h hroot hstray.1 hstray.2, if_pos (hasNode_iff.mpr hroot)]
    rfl
  · have hmissing : (d.tree kind).hasNode rootId = false := Bool.eq_false_iff.mpr (mt hasNode_iff.mp hroot)
    rw [shortestPath, hmissing]
    rfl

theorem exists_path?_iff (h : (d.tree kind).WellFormed) (id : NodeId) :
    (∃ path, d.path? kind id = .ok path) ↔ ¬ (d.tree kind).IsStray id := by
  constructor
  · rintro ⟨path, hpath⟩ hstray
    rw [path?_of_isStray h hstray] at hpath
    cases hpath
  · intro hstray
    by_cases hid : id ∈ (d.tree kind).nodeIds
    · obtain ⟨chain, hpath, _⟩ := path?_of_reaches h hid (not_not.mp fun hreaches => hstray ⟨hid, hreaches⟩)
      exact ⟨_, hpath⟩
    · exact ⟨none, path?_of_not_mem hid⟩

/-! ### Tables -/

/-- Where every node that is asked for has a path or is not there, the table lists the paths that there are. -/
theorem paths_of_path? {ids : List NodeId} (h : ∀ id ∈ ids, ∃ path, d.path? kind id = .ok path) :
    ∃ table, d.paths kind ids = .ok table ∧
      ∀ id, (id ∈ ids → d.path? kind id = .ok (table.lookup id)) ∧ (id ∉ ids → table.lookup id = none) := by
  induction ids with
  | nil => exact ⟨[], rfl, fun _ => ⟨nofun, fun _ => rfl⟩⟩
  | cons id ids ih =>
      obtain ⟨⟨path, hpath⟩, hrest⟩ := List.forall_mem_cons.mp h
      obtain ⟨table, htable, hrows⟩ := ih hrest
      cases path with
      | some path =>
          refine ⟨(id, path) :: table.filter fun row => row.1 != id, ?_, fun other => ?_⟩
          · rw [paths, hpath, htable]
            rfl
          by_cases heq : other = id
          · rw [heq, List.lookup_cons_self]
            exact ⟨fun _ => hpath, fun hnot => absurd List.mem_cons_self hnot⟩
          · rw [List.lookup_cons, beq_eq_false_iff_ne.mpr heq, List.mem_cons, or_iff_right heq]
            simp only [lookup_filter_of_ne heq]
            exact hrows other
      | none =>
          refine ⟨table, ?_, fun other => ?_⟩
          · rw [paths, hpath, htable]
            rfl
          rw [List.mem_cons]
          refine ⟨fun hother => ?_, fun hnot => (hrows other).2 fun hmem => hnot (Or.inr hmem)⟩
          by_cases hmem : other ∈ ids
          · exact (hrows other).1 hmem
          · rw [hother.resolve_right hmem, hpath, ← hother.resolve_right hmem, (hrows other).2 hmem]

theorem path?_of_paths {ids : List NodeId} {table : List (NodeId × String)} (h : d.paths kind ids = .ok table) :
    ∀ id ∈ ids, ∃ path, d.path? kind id = .ok path := by
  induction ids generalizing table with
  | nil => nofun
  | cons id ids ih =>
      rw [paths] at h
      cases hpath : d.path? kind id with
      | error e =>
          rw [hpath] at h
          cases h
      | ok path =>
          rw [hpath] at h
          cases hrest : d.paths kind ids with
          | error e =>
              simp only [hrest] at h
              cases h
          | ok others => exact List.forall_mem_cons.mpr ⟨⟨path, hpath⟩, ih hrest⟩

/-- A table of paths is refused exactly if a stray is asked for. -/
theorem exists_paths_iff (h : (d.tree kind).WellFormed) (ids : List NodeId) :
    (∃ table, d.paths kind ids = .ok table) ↔ ∀ id ∈ ids, ¬ (d.tree kind).IsStray id := by
  constructor
  · rintro ⟨table, htable⟩ id hid
    exact (exists_path?_iff h id).mp (path?_of_paths htable id hid)
  · intro hids
    obtain ⟨table, htable, _⟩ := paths_of_path? fun id hid => (exists_path?_iff h id).mpr (hids id hid)
    exact ⟨table, htable⟩

/-- A table has a row for each node that is asked for and that the root reaches, with one of its lineages, joined. -/
theorem lookup_of_paths (h : (d.tree kind).WellFormed) {ids : List NodeId} {table : List (NodeId × String)}
    (htable : d.paths kind ids = .ok table) (id : NodeId) :
    ((∃ path, table.lookup id = some path) ↔
        id ∈ ids ∧ id ∈ (d.tree kind).nodeIds ∧ (d.tree kind).Reaches rootId id) ∧
      ∀ path, table.lookup id = some path →
        ∃ chain, path = Path.join chain ∧ (d.tree kind).Lineage rootId id chain := by
  obtain ⟨table', htable', hrows⟩ := paths_of_path? (path?_of_paths htable)
  cases htable.symm.trans htable'
  by_cases hid : id ∈ ids
  swap
  · rw [(hrows id).2 hid]
    exact ⟨⟨(fun ⟨_, hsome⟩ => nomatch hsome), fun hmem => absurd hmem.1 hid⟩, nofun⟩
  have hpath := (hrows id).1 hid
  by_cases hmem : id ∈ (d.tree kind).nodeIds
  swap
  · rw [path?_of_not_mem hmem] at hpath
    rw [← Except.ok.inj hpath]
    exact ⟨⟨(fun ⟨_, hsome⟩ => nomatch hsome), fun hall => absurd hall.2.1 hmem⟩, nofun⟩
  have hreaches : (d.tree kind).Reaches rootId id :=
    not_not.mp fun hnot => (exists_path?_iff h id).mp ⟨_, hpath⟩ ⟨hmem, hnot⟩
  obtain ⟨chain, hjoin, hchain⟩ := path?_of_reaches h hmem hreaches
  rw [← Except.ok.inj (hjoin.symm.trans hpath)]
  refine ⟨⟨fun _ => ⟨hid, hmem, hreaches⟩, fun _ => ⟨_, rfl⟩⟩, fun path hsome => ⟨chain, ?_, hchain⟩⟩
  exact (Option.some.inj hsome).symm

end Directory

end StartNodes
