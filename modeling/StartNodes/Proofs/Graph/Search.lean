import StartNodes.Proofs.Graph.Trail

/-!
The search from both ends gives a chain of nodes from its source to its target, each a parent of the next, and it gives
one whenever edges lead from the source to the target. As long as the two trails have no node in common, a path can
only be missing if one of the frontiers is empty; and each round but the last takes up a node that neither trail had.
-/

namespace StartNodes.Graph

variable {ι : Type}

theorem mem_stepsFrom {neighbours : ι → List ι} {frontier : List ι} {x y : ι} :
    (x, y) ∈ stepsFrom neighbours frontier ↔ x ∈ frontier ∧ y ∈ neighbours x := by
  simp only [stepsFrom, List.mem_flatMap, List.mem_map, Prod.mk.injEq]
  constructor
  · rintro ⟨_, hx, _, hy, rfl, rfl⟩
    exact ⟨hx, hy⟩
  · rintro ⟨hx, hy⟩
    exact ⟨x, hx, y, hy, rfl, rfl⟩

variable [BEq ι] [LawfulBEq ι] {R : ι → ι → Prop} {start : ι}

theorem Trail.has_append_of_has {trail : Trail ι} {x : ι} (extra : Trail ι) (h : trail.has x = true) :
    Trail.has (trail ++ extra) x = true := by
  rw [has_iff, List.map_append, List.mem_append]
  exact Or.inl (has_iff.mp h)

/-! ### One round from one end -/

/-- A step takes up the node to which it leads, if that has not been met. -/
theorem exists_advance_cons (other : Trail ι) {trail : Trail ι} {via next : ι} (steps : List (ι × ι))
    (frontier : List ι) (h : trail.Grown R start) (hvia : trail.has via = true) (hR : R via next) :
    ∃ taken : Trail ι, (trail ++ taken).Grown R start ∧ Trail.has (trail ++ taken) next = true ∧
      (∀ x ∈ taken.map Prod.fst, x = next) ∧
      advance other ((via, next) :: steps) trail frontier =
        if other.has next = true then (some next, trail ++ taken, frontier ++ taken.map Prod.fst)
        else advance other steps (trail ++ taken) (frontier ++ taken.map Prod.fst) := by
  by_cases hnext : trail.has next = true
  · refine ⟨[], by rwa [List.append_nil], by rwa [List.append_nil], by simp, ?_⟩
    simp [advance, hnext]
  · refine ⟨[(next, some via)], h.step hvia (Bool.not_eq_true _ ▸ hnext) hR, by simp, by simp, ?_⟩
    simp [advance, hnext]

/-- Walking along steps lengthens the trail by what is met for the first time, which is the next frontier. It stops at
a node of the other trail, or else no step leads to one. -/
theorem advance_eq (other : Trail ι) {steps : List (ι × ι)} {trail : Trail ι} (frontier : List ι)
    (h : trail.Grown R start) (hsteps : ∀ s ∈ steps, trail.has s.1 = true ∧ R s.1 s.2) :
    ∃ found extra, advance other steps trail frontier = (found, trail ++ extra, frontier ++ extra.map Prod.fst) ∧
      (trail ++ extra).Grown R start ∧
      (∀ x, found = some x → Trail.has (trail ++ extra) x = true ∧ other.has x = true) ∧
      (found = none → ∀ s ∈ steps, Trail.has (trail ++ extra) s.2 = true ∧ other.has s.2 = false) ∧
      (∀ x ∈ extra.map Prod.fst, ∃ s ∈ steps, s.2 = x) := by
  induction steps generalizing trail frontier with
  | nil =>
      refine ⟨none, [], by simp [advance], by rwa [List.append_nil], ?_, ?_, ?_⟩ <;> simp
  | cons step steps ih =>
      obtain ⟨via, next⟩ := step
      obtain ⟨hvia, hR⟩ := hsteps (via, next) List.mem_cons_self
      obtain ⟨taken, hgrown, hnext, htaken, heq⟩ := exists_advance_cons other steps frontier h hvia hR
      by_cases hother : other.has next = true
      · rw [if_pos hother] at heq
        refine ⟨some next, taken, heq, hgrown, ?_, by simp, ?_⟩
        · rintro _ ⟨⟩
          exact ⟨hnext, hother⟩
        · intro x hx
          exact ⟨(via, next), List.mem_cons_self, (htaken x hx).symm⟩
      · have hrest : ∀ s ∈ steps, Trail.has (trail ++ taken) s.1 = true ∧ R s.1 s.2 := by
          intro s hs
          obtain ⟨hhas, hRs⟩ := hsteps s (List.mem_cons_of_mem _ hs)
          exact ⟨Trail.has_append_of_has taken hhas, hRs⟩
        obtain ⟨found, extra, hadvance, hgrown, hsome, hnone, hextra⟩ :=
          ih (frontier ++ taken.map Prod.fst) hgrown hrest
        rw [if_neg hother, hadvance, List.append_assoc, List.append_assoc, ← List.map_append] at heq
        rw [List.append_assoc] at hgrown hsome hnone
        refine ⟨found, taken ++ extra, heq, hgrown, hsome, ?_, ?_⟩
        · intro hfound s hs
          rcases List.mem_cons.mp hs with rfl | hs
          · rw [← List.append_assoc]
            exact ⟨Trail.has_append_of_has extra hnext, Bool.not_eq_true _ ▸ hother⟩
          · exact hnone hfound s hs
        · intro x hx
          rw [List.map_append, List.mem_append] at hx
          rcases hx with hx | hx
          · exact ⟨(via, next), List.mem_cons_self, (htaken x hx).symm⟩
          · obtain ⟨s, hs, hsx⟩ := hextra x hx
            exact ⟨s, List.mem_cons_of_mem _ hs, hsx⟩

/-- Where the search from one end stands: it has looked at the neighbours of all nodes of the trail but those of the
frontier. -/
structure Explored (R : ι → ι → Prop) (start : ι) (trail : Trail ι) (frontier : List ι) : Prop where
  grown : trail.Grown R start
  frontier_has : ∀ x ∈ frontier, trail.has x = true
  closed : ∀ x, trail.has x = true → x ∉ frontier → ∀ y, R x y → trail.has y = true

namespace Explored

theorem begin : Explored R start [(start, none)] [start] where
  grown := Trail.Grown.start
  frontier_has x hx := by simpa using hx
  closed x hx hn := absurd (by simpa using hx) hn

/-- One round: it ends at a node that both trails have, or the neighbours of the frontier have been looked at and none
is on the other trail. -/
theorem advance {trail : Trail ι} {frontier : List ι} (h : Explored R start trail frontier) (other : Trail ι)
    (neighbours : ι → List ι) (hn : ∀ x y, y ∈ neighbours x ↔ R x y) :
    ∃ found extra, Graph.advance other (stepsFrom neighbours frontier) trail [] =
        (found, trail ++ extra, extra.map Prod.fst) ∧
      (trail ++ extra).Grown R start ∧
      (∀ x, found = some x → Trail.has (trail ++ extra) x = true ∧ other.has x = true) ∧
      (found = none → Explored R start (trail ++ extra) (extra.map Prod.fst) ∧
        ∀ x ∈ extra.map Prod.fst, other.has x = false) := by
  have hsteps : ∀ s ∈ stepsFrom neighbours frontier, trail.has s.1 = true ∧ R s.1 s.2 := by
    rintro ⟨x, y⟩ hs
    obtain ⟨hx, hy⟩ := mem_stepsFrom.mp hs
    exact ⟨h.frontier_has x hx, (hn x y).mp hy⟩
  obtain ⟨found, extra, heq, hgrown, hsome, hnone, hextra⟩ := advance_eq other [] h.grown hsteps
  refine ⟨found, extra, heq, hgrown, hsome, fun hfound => ⟨⟨hgrown, ?_, ?_⟩, ?_⟩⟩
  · intro x hx
    rw [Trail.has_iff, List.map_append, List.mem_append]
    exact Or.inr hx
  · intro x hx hfresh y hR
    rw [Trail.has_iff, List.map_append, List.mem_append] at hx
    have hold : trail.has x = true := Trail.has_iff.mpr (hx.resolve_right hfresh)
    by_cases hfrontier : x ∈ frontier
    · exact (hnone hfound (x, y) (mem_stepsFrom.mpr ⟨hfrontier, (hn x y).mpr hR⟩)).1
    · exact Trail.has_append_of_has extra (h.closed x hold hfrontier y hR)
  · intro x hx
    obtain ⟨s, hs, rfl⟩ := hextra x hx
    exact (hnone hfound s hs).2

/-- With an empty frontier all that can be reached is on the trail. -/
theorem has_of_reflTransGen {trail : Trail ι} (h : Explored R start trail []) {x : ι}
    (hx : Relation.ReflTransGen R start x) : trail.has x = true := by
  induction hx with
  | refl => exact h.grown.start_has
  | tail _ hR ih => exact h.closed _ ih List.not_mem_nil _ hR

end Explored

/-! ### The search from both ends -/

/-- Where the search stands: from either end something has been explored, and the two trails have not met. -/
structure Searching (g : Graph ι) (source target : ι) (ahead back : Trail ι) (forward backward : List ι) : Prop where
  fromSource : Explored g.HasEdge source ahead forward
  fromTarget : Explored (fun y x => g.HasEdge x y) target back backward
  apart : ∀ x, ahead.has x = true → back.has x = false

/-- What the search may give: nothing if there is no path, or a node at which two trails from the ends meet. -/
def Decides (g : Graph ι) (source target : ι) : Option (ι × Trail ι × Trail ι) → Prop
  | none => ¬ g.Reaches source target
  | some (id, ahead, back) =>
      ahead.Grown g.HasEdge source ∧ back.Grown (fun y x => g.HasEdge x y) target ∧
        ahead.has id = true ∧ back.has id = true

variable {g : Graph ι} {source target : ι} {ahead back : Trail ι} {forward backward : List ι}

theorem length_ahead_le (hg : g.WellFormed) (hsource : source ∈ g.nodeIds)
    (h : ahead.Grown g.HasEdge source) : ahead.length ≤ g.nodeIds.length :=
  h.length_le hsource fun _ _ hedge => hg.target_mem hedge

theorem length_back_le (hg : g.WellFormed) (htarget : target ∈ g.nodeIds)
    (h : back.Grown (fun y x => g.HasEdge x y) target) : back.length ≤ g.nodeIds.length :=
  h.length_le htarget fun _ _ hedge => hg.source_mem hedge

omit [LawfulBEq ι] in
theorem search_of_empty {fuel : Nat} (h : forward = [] ∨ backward = []) :
    g.search fuel ahead back forward backward = none := by
  cases fuel with
  | zero => rfl
  | succ fuel =>
      rw [search, if_pos]
      rcases h with rfl | rfl <;> simp

namespace Searching

theorem not_reaches_of_empty (h : g.Searching source target ahead back forward backward)
    (hempty : forward = [] ∨ backward = []) : ¬ g.Reaches source target := by
  intro hreaches
  have hmeet : ∃ x, ahead.has x = true ∧ back.has x = true := by
    rcases hempty with rfl | rfl
    · exact ⟨target, h.fromSource.has_of_reflTransGen hreaches, h.fromTarget.grown.start_has⟩
    · exact ⟨source, h.fromSource.grown.start_has,
        h.fromTarget.has_of_reflTransGen (Relation.reflTransGen_swap.mpr hreaches)⟩
  obtain ⟨x, hahead, hback⟩ := hmeet
  rw [h.apart x hahead] at hback
  cases hback

/-- With two rounds for every node that is still to be met, a search that fails shows that there is no path, and one
that succeeds ends at a node of both trails. -/
theorem decides_search (hg : g.WellFormed) (hsource : source ∈ g.nodeIds) (htarget : target ∈ g.nodeIds) {fuel : Nat}
    (h : g.Searching source target ahead back forward backward)
    (hfuel : 2 * g.nodeIds.length + 2 ≤ fuel + ahead.length + back.length) :
    g.Decides source target (g.search fuel ahead back forward backward) := by
  induction fuel generalizing ahead back forward backward with
  | zero =>
      have := length_ahead_le hg hsource h.fromSource.grown
      have := length_back_le hg htarget h.fromTarget.grown
      omega
  | succ fuel ih =>
      by_cases hempty : forward = [] ∨ backward = []
      · rw [search_of_empty hempty]
        exact h.not_reaches_of_empty hempty
      · -- a round that meets nothing new leaves an empty frontier, and any other lengthens a trail
        have hgo : ∀ {ahead' back' : Trail ι} {forward' backward' : List ι},
            g.Searching source target ahead' back' forward' backward' →
            (forward' = [] ∨ backward' = []) ∨ ahead.length + back.length < ahead'.length + back'.length →
            g.Decides source target (g.search fuel ahead' back' forward' backward') := by
          intro ahead' back' forward' backward' h' hlonger
          rcases hlonger with hempty | hlonger
          · rw [search_of_empty hempty]
            exact h'.not_reaches_of_empty hempty
          · exact ih h' (by omega)
        have hnonempty : (forward.isEmpty || backward.isEmpty) = false := by
          simpa [not_or] using hempty
        rw [search, hnonempty, if_neg Bool.false_ne_true]
        by_cases hside : forward.length ≤ backward.length
        · obtain ⟨found, extra, heq, hgrown, hsome, hnone⟩ :=
            h.fromSource.advance back g.children fun _ _ => mem_children
          rw [if_pos hside, heq]
          cases found with
          | some id =>
              obtain ⟨hahead, hback⟩ := hsome id rfl
              exact ⟨hgrown, h.fromTarget.grown, hahead, hback⟩
          | none =>
              obtain ⟨hexplored, hother⟩ := hnone rfl
              refine hgo ⟨hexplored, h.fromTarget, fun x hx => ?_⟩ ?_
              · rw [Trail.has_iff, List.map_append, List.mem_append] at hx
                exact hx.elim (fun hx => h.apart x (Trail.has_iff.mpr hx)) (hother x)
              · cases extra with
                | nil => exact Or.inl (Or.inl rfl)
                | cons row extra => exact Or.inr (by simp)
        · obtain ⟨found, extra, heq, hgrown, hsome, hnone⟩ :=
            h.fromTarget.advance ahead g.parents fun _ _ => mem_parents
          rw [if_neg hside, heq]
          cases found with
          | some id =>
              obtain ⟨hback, hahead⟩ := hsome id rfl
              exact ⟨h.fromSource.grown, hgrown, hahead, hback⟩
          | none =>
              obtain ⟨hexplored, hother⟩ := hnone rfl
              refine hgo ⟨h.fromSource, hexplored, fun x hx => ?_⟩ ?_
              · rw [← Bool.not_eq_true, Trail.has_iff, List.map_append, List.mem_append]
                rintro (hx' | hx')
                · rw [← Trail.has_iff, h.apart x hx] at hx'
                  cases hx'
                · rw [hother x hx'] at hx
                  cases hx
              · cases extra with
                | nil => exact Or.inl (Or.inr rfl)
                | cons row extra => exact Or.inr (by simp)

end Searching

/-- From the node where the trails meet, one leads up to the source and the other down to the target. -/
theorem lineage_of_trails {id : ι} (fuel : Nat) (hahead : ahead.Grown g.HasEdge source)
    (hback : back.Grown (fun y x => g.HasEdge x y) target) (hida : ahead.has id = true) (hidb : back.has id = true)
    (hfa : ahead.length ≤ fuel) (hfb : back.length ≤ fuel) :
    g.Lineage source target ((ahead.follow fuel id).reverse ++ (back.follow fuel id).tail) := by
  obtain ⟨up, hup, hupchain, huplast⟩ := hahead.exists_follow fuel hida hfa
  obtain ⟨down, hdown, hdownchain, hdownlast⟩ := hback.exists_follow fuel hidb hfb
  rw [hup, hdown, List.tail_cons]
  exact (Lineage.of_reverse hupchain huplast).append hdownchain hdownlast

theorem decides_search_of_ne (hg : g.WellFormed) (hsource : source ∈ g.nodeIds) (htarget : target ∈ g.nodeIds)
    (hne : source ≠ target) :
    g.Decides source target
      (g.search (2 * g.nodes.length + 2) [(source, none)] [(target, none)] [source] [target]) := by
  have hlength : g.nodes.length = g.nodeIds.length := by rw [nodeIds, List.length_map]
  have hbegin : g.Searching source target [(source, none)] [(target, none)] [source] [target] := by
    refine ⟨Explored.begin, Explored.begin, fun x hx => ?_⟩
    rw [← Bool.not_eq_true, Trail.has_iff]
    simp only [Trail.has_iff, List.map_singleton, List.mem_singleton] at hx ⊢
    rw [hx]
    exact hne
  refine hbegin.decides_search hg hsource htarget ?_
  simp only [hlength, List.length_singleton]
  omega

/-- Between two nodes of a graph the search finds a lineage, or there is none. -/
theorem shortestPath_cases (hg : g.WellFormed) (hsource : source ∈ g.nodeIds) (htarget : target ∈ g.nodeIds) :
    (∃ chain, g.shortestPath source target = .ok chain ∧ g.Lineage source target chain) ∨
      ¬ g.Reaches source target ∧ g.shortestPath source target = .error (.noPath source target) := by
  have hs := hasNode_iff.mpr hsource
  have ht := hasNode_iff.mpr htarget
  by_cases heq : source = target
  · refine Or.inl ⟨[source], ?_, heq ▸ Lineage.start⟩
    simp [shortestPath, heq, ht]
  · have hdecides := decides_search_of_ne hg hsource htarget heq
    cases hsearch : g.search (2 * g.nodes.length + 2) [(source, none)] [(target, none)] [source] [target] with
    | none =>
        rw [hsearch] at hdecides
        exact Or.inr ⟨hdecides, by simp [shortestPath, hs, ht, heq, hsearch]⟩
    | some result =>
        obtain ⟨id, ahead, back⟩ := result
        rw [hsearch] at hdecides
        obtain ⟨ha, hb, hida, hidb⟩ := hdecides
        have hlength : g.nodes.length = g.nodeIds.length := by rw [nodeIds, List.length_map]
        have hla := length_ahead_le hg hsource ha
        have hlb := length_back_le hg htarget hb
        refine Or.inl ⟨_, ?_, lineage_of_trails (g.nodes.length + 1) ha hb hida hidb (by omega) (by omega)⟩
        simp [shortestPath, hs, ht, heq, hsearch]

/-- Where edges lead to the target, the search finds a lineage. -/
theorem exists_shortestPath (hg : g.WellFormed) (hsource : source ∈ g.nodeIds) (h : g.Reaches source target) :
    ∃ chain, g.shortestPath source target = .ok chain ∧ g.Lineage source target chain := by
  have htarget : target ∈ g.nodeIds := by
    rcases reaches_iff_eq_or_isBelow.mp h with rfl | hbelow
    · exact hsource
    · exact hbelow.target_mem hg
  exact (shortestPath_cases hg hsource htarget).resolve_right fun hnone => hnone.1 h

theorem shortestPath_of_not_reaches (hg : g.WellFormed) (hsource : source ∈ g.nodeIds) (htarget : target ∈ g.nodeIds)
    (h : ¬ g.Reaches source target) : g.shortestPath source target = .error (.noPath source target) := by
  obtain ⟨chain, _, hchain⟩ | ⟨_, hpath⟩ := shortestPath_cases hg hsource htarget
  · exact absurd hchain.reaches h
  · exact hpath

end StartNodes.Graph
