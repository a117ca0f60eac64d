import StartNodes.Proofs.Scope.ClosedForm
import StartNodes.Proofs.Service.Access

/-!
Who has access to the root and to the recycle bin. Every node of a tree lies below the root, so the root is a start node
only where no other is; and of the nodes that count none lies below the bin, and only the root above it.
-/

namespace StartNodes

namespace Graph

variable {g : Graph NodeId} {kind : Hierarchy} {ids groupIds userIds : List NodeId} {a b id : NodeId}

namespace IsTreeOf

theorem isBelow_root (h : g.IsTreeOf kind) (hid : id ∈ g.nodeIds) (hne : id ≠ rootId) : g.IsBelow id rootId :=
  (reaches_iff_eq_or_isBelow.mp (h.reaches id hid)).resolve_left hne

/-- Only the root lies above the recycle bin. -/
theorem eq_root_of_bin_isBelow (h : g.IsTreeOf kind) (hbelow : g.IsBelow kind.binId id) : id = rootId :=
  h.eq_root_of_reaches (h.reaches_parent h.hasEdge_bin hbelow)

theorem counts_root_iff (h : g.IsTreeOf kind) : g.Counts kind ids rootId ↔ rootId ∈ ids :=
  and_iff_left ⟨h.root_mem, h.not_isBelow_root⟩

theorem counts_bin_iff (h : g.IsTreeOf kind) : g.Counts kind ids kind.binId ↔ kind.binId ∈ ids :=
  and_iff_left ⟨h.bin_mem, h.not_isBelow_self kind.binId⟩

/-- Below one of the nodes that count no other lies. -/
theorem exists_isDeepest (h : g.IsTreeOf kind) (hcounts : g.Counts kind ids id) : ∃ own, g.IsDeepest kind ids own := by
  obtain ⟨own, hown, hcount, hlast⟩ := exists_mem_forall_not (r := fun a b => g.IsBelow b a) (p := g.Counts kind ids)
    (fun hab hbc => hab.trans hbc) h.not_isBelow_self ⟨id, hcounts.1, hcounts⟩
  exact ⟨own, hcount, fun other hother => hlast other hother.1 hother⟩

theorem isDeepest_root_iff (h : g.IsTreeOf kind) :
    g.IsDeepest kind ids rootId ↔ ∀ id, g.Counts kind ids id ↔ id = rootId := by
  constructor
  · rintro ⟨hroot, hlast⟩ id
    refine ⟨fun hid => ?_, fun heq => heq ▸ hroot⟩
    by_contra hne
    exact hlast id hid (h.isBelow_root hid.2.1 hne)
  · intro honly
    refine ⟨(honly rootId).mpr rfl, fun other hother => ?_⟩
    rw [(honly other).mp hother]
    exact h.not_isBelow_root

/-- No start node lies below another. -/
theorem not_isBelow_of_isStart (ha : g.IsStart kind groupIds userIds a) (hb : g.IsStart kind groupIds userIds b) :
    ¬ g.IsBelow a b := by
  rcases ha with hdeep_a | ⟨htop_a, hapart_a⟩
  · rcases hb with hdeep_b | ⟨-, hapart_b⟩
    · exact hdeep_b.2 a hdeep_a.1
    · exact (hapart_b a hdeep_a).2.2
  · rcases hb with hdeep_b | ⟨htop_b, -⟩
    · exact (hapart_a b hdeep_b).2.1
    · exact htop_a.2 b htop_b.1

theorem isStart_root_iff (h : g.IsTreeOf kind) :
    g.IsStart kind groupIds userIds rootId ↔
      (∀ id, g.Counts kind userIds id ↔ id = rootId) ∨ (∀ id, ¬ g.Counts kind userIds id) ∧ rootId ∈ groupIds := by
  rw [IsStart, h.isDeepest_root_iff]
  refine or_congr_right ?_
  constructor
  · rintro ⟨htop, hapart⟩
    refine ⟨fun id hid => ?_, htop.1.1⟩
    -- a deepest own node would be the root or lie below it
    obtain ⟨own, hown⟩ := h.exists_isDeepest hid
    obtain ⟨hne, -, hbelow⟩ := hapart own hown
    exact hbelow (h.isBelow_root hown.1.2.1 (Ne.symm hne))
  · rintro ⟨hnone, hroot⟩
    refine ⟨⟨h.counts_root_iff.mpr hroot, fun _ _ => h.not_isBelow_root⟩, fun own hown => ?_⟩
    exact absurd hown.1 (hnone own)

/-- Where the root is a start node there is no other. -/
theorem eq_root_of_isStart (h : g.IsTreeOf kind) (hroot : g.IsStart kind groupIds userIds rootId)
    (hid : g.IsStart kind groupIds userIds id) : id = rootId := by
  by_contra hne
  exact not_isBelow_of_isStart hid hroot (h.isBelow_root hid.stands.1 hne)

theorem isStart_bin_iff (h : g.IsTreeOf kind) (hroot : ¬ g.IsStart kind groupIds userIds rootId) :
    g.IsStart kind groupIds userIds kind.binId ↔
      g.Counts kind userIds kind.binId ∨ kind.binId ∈ groupIds ∧ rootId ∉ groupIds := by
  have hdeepest : g.Counts kind userIds kind.binId → g.IsDeepest kind userIds kind.binId :=
    fun hbin => ⟨hbin, fun other hother => hother.2.2⟩
  constructor
  · rintro (hdeep | ⟨htop, -⟩)
    · exact Or.inl hdeep.1
    · refine Or.inr ⟨htop.1.1, fun hmem => ?_⟩
      exact htop.2 rootId (h.counts_root_iff.mpr hmem) (Relation.TransGen.single h.hasEdge_bin)
  · rintro (hbin | ⟨hmem, hnot⟩)
    · exact Or.inl (hdeepest hbin)
    by_cases hbin : g.Counts kind userIds kind.binId
    · exact Or.inl (hdeepest hbin)
    refine Or.inr ⟨⟨h.counts_bin_iff.mpr hmem, fun other hother hbelow => ?_⟩, fun own hown => ⟨?_, fun hbelow => ?_, ?_⟩⟩
    · exact hnot (h.eq_root_of_bin_isBelow hbelow ▸ hother.1)
    · rintro rfl
      exact hbin hown.1
    · exact hroot (Or.inl (h.eq_root_of_bin_isBelow hbelow ▸ hown))
    · exact hown.1.2.2

end IsTreeOf

end Graph

namespace Service

open StartNodes.Graph Scope

variable {kind : Hierarchy} {s s' : Service} {starts chain : List NodeId}

/-- With paths from a tree, a principal's effective start nodes are those at which its scope begins, each once. -/
theorem exists_starts_uncached {d : Directory NodeId} (h : (d.tree kind).IsTreeOf kind) (p : Principal)
    (hsource : s.source = .trees (.plain d)) (hcache : s.cache = none) :
    ∃ starts s', perform (effectiveIds kind p.profile) s = (.ok (Stored.ofIds starts), s') ∧ starts.Nodup ∧
      ∀ id, id ∈ starts ↔ (d.tree kind).IsStart kind (p.groupStarts kind) (p.userStarts kind) id := by
  obtain ⟨starts, hcombine, hstarts⟩ := combineIds_trees h (p.groupStarts kind) (p.userStarts kind)
  obtain ⟨questions, hperform⟩ := perform_effectiveIds_uncached hcache kind p
  rw [hsource, hcombine] at hperform
  exact ⟨starts, _, hperform, nodup_combineIds hcombine, hstarts⟩

/-- Access to a target that is read as a chain of nodes and does not lie under the recycle bin. -/
theorem perform_hasAccess_of_ids {p : Profile} {target : Target} {path : String}
    (hstarts : perform (effectiveIds kind p) s = (.ok (Stored.ofIds starts), s')) (htarget : target.path kind = .ok path)
    (hread : Path.ids path = .ok chain) (hbin : Path.isUnder path (Path.bin kind) = false) :
    perform (hasAccess kind target (some p)) s = (.ok (decide (Covers starts chain)), s') := by
  have hdecided : Stored.hasPathAccess path (Stored.ofIds starts) (Path.bin kind) = .ok (decide (Covers starts chain)) := by
    rw [Stored.hasPathAccess, Stored.ids?_ofIds]
    simp only [hasPathAccess_of_ids hread, hbin, Bool.false_eq_true, not_false_eq_true, and_true]
    rfl
  rw [perform_hasAccess_of_path htarget, hstarts]
  simp only
  rw [hdecided]
  rfl

theorem ids_root : Path.ids Path.root = .ok [rootId] := by
  decide

theorem ids_bin (kind : Hierarchy) : Path.ids (Path.bin kind) = .ok [rootId, kind.binId] :=
  Path.ids_eq_ok_iff.mpr (Path.map_readChars_bin kind)

theorem isUnder_root_bin (kind : Hierarchy) : Path.isUnder Path.root (Path.bin kind) = false := by
  cases kind <;> decide

theorem covers_root : Covers starts [rootId] ↔ rootId ∈ starts := by
  simp [Covers]

theorem covers_bin : Covers starts [rootId, kind.binId] ↔ rootId ∈ starts ∨ kind.binId ∈ starts := by
  simp [Covers, and_or_left, exists_or]

theorem mem_groupStarts {p : Principal} {id : NodeId} : id ∈ p.groupStarts kind ↔ some id ∈ p.groupDeclarations kind := by
  rw [Principal.groupStarts, List.mem_eraseDups, List.mem_filterMap]
  simp

/-- Who has access to the root and to the recycle bin. Whatever edits have been tried on the directory, a principal has
access to the root exactly if of its own nodes the root and no other counts, or none counts and a group declares the
root; then the root is its only start node. It has access to the bin exactly if it has access to the root, or the bin
counts as its own, or a group declares the bin and none the root. -/
theorem access_to_root_and_bin (edits : List (Hierarchy × Edit NodeId)) (kind : Hierarchy) (p : Principal) (s : Service) :
    let d := (Directory.seeded : Directory NodeId).after edits
    let uncached : Service := { s with source := .trees (.plain d), cache := none }
    let counts := (d.tree kind).Counts kind (p.userStarts kind)
    let declared := fun id => some id ∈ p.groupDeclarations kind
    ∃ starts root bin s',
      perform (effectiveIds kind p.profile) uncached = (.ok (Stored.ofIds starts), s') ∧
        perform (hasAccess kind .root (some p.profile)) uncached = (.ok root, s') ∧
        perform (hasAccess kind .bin (some p.profile)) uncached = (.ok bin, s') ∧
        (root = true ↔ (∀ id, counts id ↔ id = rootId) ∨ (∀ id, ¬ counts id) ∧ declared rootId) ∧
        (root = true → starts = [rootId]) ∧
        (bin = true ↔ root = true ∨ counts kind.binId ∨ declared kind.binId ∧ ¬ declared rootId) := by
  intro d uncached counts declared
  have htree : (d.tree kind).IsTreeOf kind := Directory.hasTrees_after_seeded edits kind
  obtain ⟨starts, s', hstarts, hnodup, hmem⟩ := exists_starts_uncached (s := uncached) htree p rfl rfl
  have hroot : decide (Covers starts [rootId]) = true ↔
      (d.tree kind).IsStart kind (p.groupStarts kind) (p.userStarts kind) rootId := by
    rw [decide_eq_true_iff, covers_root, hmem]
  refine ⟨starts, decide (Covers starts [rootId]), decide (Covers starts [rootId, kind.binId]), s', hstarts,
    perform_hasAccess_of_ids hstarts rfl ids_root (isUnder_root_bin kind),
    perform_hasAccess_of_ids hstarts rfl (ids_bin kind) (Path.isUnder_irrefl _), ?_, fun hyes => ?_, ?_⟩
  · rw [hroot, htree.isStart_root_iff, mem_groupStarts]
  · have honly : ∀ id, id ∈ starts ↔ id = rootId := fun id => by
      rw [hmem]
      exact ⟨htree.eq_root_of_isStart (hroot.mp hyes), fun heq => heq ▸ hroot.mp hyes⟩
    refine List.perm_singleton.mp ((List.perm_ext_iff_of_nodup hnodup (List.nodup_singleton rootId)).mpr fun id => ?_)
    rw [honly, List.mem_singleton]
  · rw [hroot, decide_eq_true_iff, covers_bin, hmem, hmem]
    by_cases hstart : (d.tree kind).IsStart kind (p.groupStarts kind) (p.userStarts kind) rootId
    · exact iff_of_true (Or.inl hstart) (Or.inl hstart)
    · rw [htree.isStart_bin_iff hstart, mem_groupStarts, mem_groupStarts]

end Service

end StartNodes
