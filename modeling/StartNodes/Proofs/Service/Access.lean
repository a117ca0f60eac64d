import StartNodes.Proofs.Scope.Descent
import StartNodes.Proofs.Service.Perform

/-!
Who has access to what in a directory that has been edited: the answer of the service, without a cache, in terms of the
trees.
-/

namespace StartNodes.Service

open StartNodes.Graph Decimal

/-- Without a cache, a principal's effective start nodes are what its declarations come to. -/
theorem perform_effectiveIds_uncached {s : Service} (hcache : s.cache = none) (kind : Hierarchy) (p : Principal) :
    ∃ questions, perform (effectiveIds kind p.profile) s =
      (((Scope.combineIds s.source kind (p.groupStarts kind) (p.userStarts kind)).mapError .lookup).map Stored.ofIds,
        { s with questions }) := by
  rw [effectiveIds, perform_memoize_of_none hcache]
  unfold computeIds
  rw [Profile.nodes?_profile]
  simp only
  rw [perform_bind_of_ok (perform_forM_record kind _ _ s), perform_bind_of_ok (perform_get _)]
  simp only
  rw [perform_bind, perform_answer]
  cases Scope.combineIds s.source kind (p.groupStarts kind) (p.userStarts kind) with
  | error e => exact ⟨_, rfl⟩
  | ok starts => exact ⟨_, rfl⟩

/-- In a tree, they are those at which the principal's scope begins. -/
theorem perform_effectiveIds {d : Directory NodeId} {kind : Hierarchy} (h : (d.tree kind).IsTreeOf kind)
    (p : Principal) (s : Service) (hsource : s.source = .trees (.plain d)) (hcache : s.cache = none) :
    ∃ starts s', perform (effectiveIds kind p.profile) s = (.ok (Stored.ofIds starts), s') ∧
      ∀ id, id ∈ starts ↔ (d.tree kind).IsStart kind (p.groupStarts kind) (p.userStarts kind) id := by
  obtain ⟨starts, hcombine, hstarts⟩ := Scope.combineIds_trees h (p.groupStarts kind) (p.userStarts kind)
  obtain ⟨questions, hperform⟩ := perform_effectiveIds_uncached hcache kind p
  rw [hsource, hcombine] at hperform
  exact ⟨starts, _, hperform, hstarts⟩

/-- Access in terms of trees. Whatever edits have been tried on the directory, a question whether a principal has access
to a node by its path has an answer. It is yes exactly if the node does not lie below the recycle bin, and it is, or
lies below, one of the deepest nodes of the principal's own, or one of the topmost nodes of its groups that no deepest
node of its own is, lies above or lies below. -/
theorem access_of_descent (edits : List (Hierarchy × Edit NodeId)) (kind : Hierarchy) (p : Principal) (n : NodeId)
    (entityId : Int) (s : Service) :
    let d := (Directory.seeded : Directory NodeId).after edits
    let g := d.tree kind
    n ∈ g.nodeIds → (∀ x, g.Reaches x n → digitCount x ≤ maxDigits) →
      ∃ path, d.path? kind n = .ok (some path) ∧
        ∃ answer s',
          perform (hasAccess kind (.entity (some ⟨entityId, path⟩)) (some p.profile))
              { s with source := .trees (.plain d), cache := none } = (.ok answer, s') ∧
            (answer = true ↔
              ¬ g.IsBelow n kind.binId ∧
                ((∃ own, g.IsDeepest kind (p.userStarts kind) own ∧ (n = own ∨ g.IsBelow n own)) ∨
                  ∃ top, g.IsTopmost kind (p.groupStarts kind) top ∧
                    (∀ own, g.IsDeepest kind (p.userStarts kind) own →
                      top ≠ own ∧ ¬ g.IsBelow top own ∧ ¬ g.IsBelow own top) ∧
                    (n = top ∨ g.IsBelow n top))) := by
  intro d g hn hshort
  have htree : g.IsTreeOf kind := Directory.hasTrees_after_seeded edits kind
  obtain ⟨chain, hchain⟩ := htree.exists_lineage hn
  refine ⟨Path.join chain, Directory.path?_of_lineage htree.toIsTree hchain, ?_⟩
  have hplaced : (⟨n, Path.join chain⟩ : Scope.Placed NodeId).IsIn g := ⟨chain, hchain, rfl⟩
  obtain ⟨starts, s', hstarts, hmem⟩ :=
    perform_effectiveIds htree p { s with source := .trees (.plain d), cache := none } rfl rfl
  obtain ⟨verdict, hverdict, hiff⟩ := Scope.hasPathAccess_iff htree hplaced hshort starts
  refine ⟨verdict, s', ?_, ?_⟩
  · have hstored : Stored.hasPathAccess (Path.join chain) (Stored.ofIds starts) (Path.bin kind) = .ok verdict := by
      rw [Stored.hasPathAccess, Stored.ids?_ofIds]
      simp only
      rw [hverdict]
      rfl
    unfold hasAccess
    rw [perform_bind_of_ok (perform_answer _ _ _)]
    simp only
    rw [perform_bind_of_ok hstarts, perform_answer, hstored]
    rfl
  · rw [hiff]
    refine and_congr_right fun _ => ⟨?_, ?_⟩
    · rintro ⟨start, hstart, hreaches⟩
      rw [reaches_iff_eq_or_isBelow] at hreaches
      rcases (hmem start).mp hstart with hdeep | ⟨htop, hapart⟩
      · exact Or.inl ⟨start, hdeep, hreaches⟩
      · exact Or.inr ⟨start, htop, hapart, hreaches⟩
    · rintro (⟨own, hdeep, hreaches⟩ | ⟨top, htop, hapart, hreaches⟩)
      · exact ⟨own, (hmem own).mpr (Or.inl hdeep), reaches_iff_eq_or_isBelow.mpr hreaches⟩
      · exact ⟨top, (hmem top).mpr (Or.inr ⟨htop, hapart⟩), reaches_iff_eq_or_isBelow.mpr hreaches⟩

/-- A principal whose own node lies between its group's node and the node that is asked for. -/
theorem access_of_descent_nested :
    let d := (Directory.seeded : Directory NodeId).after
      [(.content, .add 10 rootId), (.content, .add 20 10), (.content, .add 30 20)]
    let p : Principal := ⟨1, "", [⟨"editors", "", some 10, none⟩], [20], []⟩
    (∀ x, (d.tree .content).Reaches x 30 → digitCount x ≤ maxDigits) ∧
      ∃ path, d.path? .content 30 = .ok (some path) ∧
        ∃ s', perform (hasAccess .content (.entity (some ⟨30, path⟩)) (some p.profile))
          { source := .trees (.plain d), cache := none } = (.ok true, s') := by
  intro d p
  have hn : 30 ∈ (d.tree .content).nodeIds := by decide
  have hall : ∀ x ∈ (d.tree .content).nodeIds, digitCount x ≤ maxDigits := by decide
  have hshort : ∀ x, (d.tree .content).Reaches x 30 → digitCount x ≤ maxDigits :=
    fun x => Directory.digitCount_le_of_reaches _ hall hn
  have htree : (d.tree .content).IsTreeOf .content := Directory.hasTrees_after_seeded _ .content
  have hedge : (d.tree .content).HasEdge 20 30 := mem_children.mp (by decide)
  -- what the recycle bin reaches is its subtree
  have hbin : ∀ x, x ∉ (d.tree .content).subtree (Hierarchy.binId .content) →
      ¬ (d.tree .content).IsBelow x (Hierarchy.binId .content) := by
    intro x hx hbelow
    exact hx ((mem_subtree_iff htree.toWellFormed htree.bin_mem).mpr (reaches_iff_eq_or_isBelow.mpr (Or.inr hbelow)))
  have hdeepest : (d.tree .content).IsDeepest .content (p.userStarts .content) 20 := by
    refine ⟨⟨by decide, by decide, hbin 20 (by decide)⟩, fun other hother => ?_⟩
    rw [List.mem_singleton.mp hother.1]
    exact htree.not_isBelow_self 20
  obtain ⟨path, hpath, answer, s', hanswer, hiff⟩ := access_of_descent _ .content p 30 30 {} hn hshort
  have htrue : answer = true :=
    hiff.mpr ⟨hbin 30 (by decide), Or.inl ⟨20, hdeepest, Or.inr (Relation.TransGen.single hedge)⟩⟩
  exact ⟨hshort, path, hpath, s', htrue ▸ hanswer⟩

end StartNodes.Service
