import StartNodes.Proofs.Graph.Edges
import StartNodes.Proofs.List.Distinct

/-!
The search for everything below a node finds exactly the nodes that the node reaches: what it meets is reached, and
it ends only when the children of all it has met have been met. Every round but the last meets a node for the first
time, so there are enough rounds.
-/

namespace StartNodes.Graph

variable {ι : Type}

/-- Where a search from a node stands: `seen` has been met, and of that only the children of `frontier` are still to be
looked at. -/
structure Meeting (g : Graph ι) (id : ι) (frontier seen : List ι) : Prop where
  start : id ∈ seen
  reached : ∀ x ∈ seen, g.Reaches id x
  frontier_seen : ∀ x ∈ frontier, x ∈ seen
  closed : ∀ x ∈ seen, x ∉ frontier → ∀ y, g.HasEdge x y → y ∈ seen
  nodup : seen.Nodup
  listed : ∀ x ∈ seen, x ∈ g.nodeIds

variable {g : Graph ι}

theorem Meeting.begin {id : ι} (h : id ∈ g.nodeIds) : g.Meeting id [id] [id] where
  start := List.mem_singleton_self id
  reached x hx := by
    rw [List.mem_singleton.mp hx]
    exact Relation.ReflTransGen.refl
  frontier_seen _ hx := hx
  closed _ hx hn := absurd hx hn
  nodup := List.nodup_singleton id
  listed x hx := by rwa [List.mem_singleton.mp hx]

/-- When nothing is left to be looked at, all that is reached has been met. -/
theorem Meeting.mem_of_reaches {id : ι} {frontier seen : List ι} (h : g.Meeting id frontier seen)
    (hclosed : ∀ x ∈ seen, ∀ y, g.HasEdge x y → y ∈ seen) {x : ι} (hx : g.Reaches id x) : x ∈ seen := by
  induction hx with
  | refl => exact h.start
  | tail _ hedge ih => exact hclosed _ ih _ hedge

variable [BEq ι] [LawfulBEq ι]

/-- The children of a frontier that have not been met. -/
theorem mem_fresh {frontier seen : List ι} {y : ι} :
    y ∈ ((frontier.flatMap g.children).filter fun id => !seen.contains id).eraseDups ↔
      (∃ x ∈ frontier, g.HasEdge x y) ∧ y ∉ seen := by
  simp [List.mem_eraseDups]

theorem Meeting.step (hg : g.WellFormed) {id : ι} {frontier seen fresh : List ι} (h : g.Meeting id frontier seen)
    (hnodup : fresh.Nodup) (hfresh : ∀ y, y ∈ fresh ↔ (∃ x ∈ frontier, g.HasEdge x y) ∧ y ∉ seen) :
    g.Meeting id fresh (seen ++ fresh) where
  start := List.mem_append_left _ h.start
  reached x hx := by
    rcases List.mem_append.mp hx with hx | hx
    · exact h.reached x hx
    · obtain ⟨⟨y, hy, hedge⟩, _⟩ := (hfresh x).mp hx
      exact (h.reached y (h.frontier_seen y hy)).tail hedge
  frontier_seen _ hx := List.mem_append_right _ hx
  closed x hx hn y hedge := by
    rcases List.mem_append.mp hx with hx | hx
    · by_cases hy : y ∈ seen
      · exact List.mem_append_left _ hy
      · by_cases hfrontier : x ∈ frontier
        · exact List.mem_append_right _ ((hfresh y).mpr ⟨⟨x, hfrontier, hedge⟩, hy⟩)
        · exact List.mem_append_left _ (h.closed x hx hfrontier y hedge)
    · exact absurd hx hn
  nodup := List.Nodup.append h.nodup hnodup fun y hy hy' => ((hfresh y).mp hy').2 hy
  listed x hx := by
    rcases List.mem_append.mp hx with hx | hx
    · exact h.listed x hx
    · obtain ⟨⟨y, _, hedge⟩, _⟩ := (hfresh x).mp hx
      exact hg.target_mem hedge

/-- With a round for every node that has not been met, the search meets what is reached. -/
theorem Meeting.mem_meet_iff (hg : g.WellFormed) {id : ι} {fuel : Nat} {frontier seen : List ι}
    (h : g.Meeting id frontier seen) (hfuel : g.nodeIds.length + 1 ≤ fuel + seen.length) {x : ι} :
    x ∈ g.meet fuel frontier seen ↔ g.Reaches id x := by
  induction fuel generalizing frontier seen with
  | zero =>
      have hlength := length_le_of_nodup_subset h.nodup h.listed
      omega
  | succ fuel ih =>
      rw [meet]
      by_cases hempty : ((frontier.flatMap g.children).filter fun id => !seen.contains id).eraseDups = []
      · simp only [hempty, List.isEmpty_nil, if_true]
        -- the children of the frontier have been met before
        have hclosed : ∀ x ∈ seen, ∀ y, g.HasEdge x y → y ∈ seen := by
          intro x hx y hedge
          by_cases hfrontier : x ∈ frontier
          · by_contra hy
            have hmem := mem_fresh.mpr ⟨⟨x, hfrontier, hedge⟩, hy⟩
            rw [hempty] at hmem
            exact List.not_mem_nil hmem
          · exact h.closed x hx hfrontier y hedge
        exact ⟨h.reached x, h.mem_of_reaches hclosed⟩
      · simp only [List.isEmpty_iff, hempty, if_false]
        refine ih (h.step hg (nodup_eraseDups _) fun y => mem_fresh) ?_
        have hpos := List.length_pos_iff.mpr hempty
        rw [List.length_append]
        omega

/-- A node's subtree is what the node reaches. -/
theorem mem_subtree_iff (hg : g.WellFormed) {id : ι} (hid : id ∈ g.nodeIds) {x : ι} :
    x ∈ g.subtree id ↔ g.Reaches id x := by
  have hlength : g.nodeIds.length = g.nodes.length := List.length_map _
  apply Meeting.mem_meet_iff hg (Meeting.begin hid)
  rw [List.length_singleton]
  omega

theorem not_isBelow_of_not_mem_subtree (hg : g.WellFormed) {id : ι} (hid : id ∈ g.nodeIds) {x : ι}
    (hx : x ∉ g.subtree id) : ¬ g.IsBelow x id :=
  fun hbelow => hx ((mem_subtree_iff hg hid).mpr hbelow.to_reflTransGen)

end StartNodes.Graph
