import StartNodes.Graph.Search
import StartNodes.Proofs.Graph.Lineage
import StartNodes.Proofs.List.Distinct

/-!
A trail notes by which neighbour each node was met first. Followed back from any of its nodes it leads to the node at
which it began.
-/

namespace StartNodes.Graph

variable {ι : Type} [BEq ι]

/-- A trail that has grown from its start by steps of a relation. -/
inductive Trail.Grown (R : ι → ι → Prop) (start : ι) : Trail ι → Prop
  | start : Grown R start [(start, none)]
  | step {trail : Trail ι} {via id : ι} :
      Grown R start trail → trail.has via = true → trail.has id = false → R via id →
        Grown R start (trail ++ [(id, some via)])

variable [LawfulBEq ι] {R : ι → ι → Prop} {start : ι}

namespace Trail

@[simp]
theorem has_iff {trail : Trail ι} {id : ι} : trail.has id = true ↔ id ∈ trail.map Prod.fst := by
  simp [has]

theorem has_append {trail : Trail ι} {id x : ι} {via : Option ι} :
    (trail ++ [(id, via)]).has x = true ↔ trail.has x = true ∨ x = id := by
  rw [has_iff, has_iff, List.map_append, List.mem_append, List.map_singleton, List.mem_singleton]

theorem lookup_append_of_has {trail extra : Trail ι} {id : ι} (h : trail.has id = true) :
    (trail ++ extra).lookup id = trail.lookup id := by
  rw [List.lookup_append, Option.or_of_isSome]
  rw [List.lookup_isSome_iff]
  obtain ⟨row, hrow, hid⟩ := List.mem_map.mp (has_iff.mp h)
  exact ⟨row, hrow, beq_iff_eq.mpr hid.symm⟩

/-- Behind a trail without it, a node is as it was met last. -/
theorem lookup_append_of_not_has {trail : Trail ι} {id x : ι} {via : Option ι} (h : ¬ trail.has x = true) :
    (trail ++ [(id, via)]).lookup x = if x == id then some via else none := by
  have hnone : trail.lookup x = none := by
    rw [List.lookup_eq_none_iff]
    intro row hrow
    rw [bne_iff_ne]
    rintro rfl
    exact h (has_iff.mpr (List.mem_map_of_mem hrow))
  rw [List.lookup_append, hnone, Option.none_or, List.lookup_cons, List.lookup_nil]
  cases x == id <;> rfl

namespace Grown

variable {trail : Trail ι}

theorem start_has (h : trail.Grown R start) : trail.has start = true := by
  induction h with
  | start => simp
  | step _ _ _ _ ih => exact has_append.mpr (Or.inl ih)

theorem nodup (h : trail.Grown R start) : (trail.map Prod.fst).Nodup := by
  induction h with
  | start => exact List.nodup_singleton _
  | step _ _ hnew _ ih =>
      rw [List.map_append, List.map_singleton]
      refine List.Nodup.append ih (List.nodup_singleton _) (List.disjoint_singleton.mpr ?_)
      rwa [← has_iff, Bool.not_eq_true]

/-- A trail whose steps stay in a list is no longer than the list. -/
theorem length_le (h : trail.Grown R start) {listed : List ι} (hstart : start ∈ listed)
    (hR : ∀ x y, R x y → y ∈ listed) : trail.length ≤ listed.length := by
  have hsub : ∀ x ∈ trail.map Prod.fst, x ∈ listed := by
    induction h with
    | start => simpa using hstart
    | step _ _ _ hR' ih =>
        intro x hx
        rw [List.map_append, List.mem_append, List.map_singleton, List.mem_singleton] at hx
        rcases hx with hx | rfl
        · exact ih x hx
        · exact hR _ _ hR'
  have hlength := length_le_of_nodup_subset h.nodup hsub
  rwa [List.length_map] at hlength

/-- A node that was met by a neighbour was met by a step from a node of the trail. -/
theorem lookup_eq_some (h : trail.Grown R start) {id next : ι} (hid : trail.lookup id = some (some next)) :
    trail.has next = true ∧ R next id := by
  induction h with
  | start =>
      rw [List.lookup_cons, List.lookup_nil] at hid
      split at hid <;> simp at hid
  | @step trail via new _ hvia hnew hR ih =>
      by_cases hhas : trail.has id = true
      · rw [lookup_append_of_has hhas] at hid
        exact ⟨has_append.mpr (Or.inl (ih hid).1), (ih hid).2⟩
      · rw [lookup_append_of_not_has hhas] at hid
        split at hid
        · rename_i heq
          rw [Option.some_inj, Option.some_inj] at hid
          rw [beq_iff_eq.mp heq, ← hid]
          exact ⟨has_append.mpr (Or.inl hvia), hR⟩
        · cases hid

theorem follow_append (h : trail.Grown R start) {extra : Trail ι} {fuel : Nat} {id : ι} (hid : trail.has id = true) :
    (trail ++ extra).follow fuel id = trail.follow fuel id := by
  induction fuel generalizing id with
  | zero => rfl
  | succ fuel ih =>
      rw [follow, follow, lookup_append_of_has hid]
      cases hlookup : trail.lookup id with
      | none => rfl
      | some via =>
          cases via with
          | none => rfl
          | some next => simp only [ih (h.lookup_eq_some hlookup).1]

/-- Followed back from one of its nodes, a trail leads to its start. -/
theorem exists_follow (h : trail.Grown R start) (fuel : Nat) {id : ι} (hid : trail.has id = true)
    (hfuel : trail.length ≤ fuel) :
    ∃ rest, trail.follow fuel id = id :: rest ∧ ((id :: rest).IsChain fun a b => R b a) ∧
      (id :: rest).getLast? = some start := by
  induction h generalizing fuel id with
  | start =>
      have hid : id = start := by simpa using hid
      obtain ⟨fuel, rfl⟩ := Nat.exists_eq_add_of_le' hfuel
      refine ⟨[], ?_, List.isChain_singleton _, by rw [hid, List.getLast?_singleton]⟩
      rw [List.length_singleton, follow, hid, List.lookup_cons_self]
  | @step trail via new hgrown hvia hnew hR ih =>
      rw [List.length_append, List.length_singleton] at hfuel
      rcases has_append.mp hid with hhas | rfl
      · rw [hgrown.follow_append hhas]
        exact ih fuel hhas (by omega)
      · obtain ⟨fuel, rfl⟩ := Nat.exists_eq_add_of_le' hfuel
        obtain ⟨rest, hrest, hchain, hlast⟩ := ih (fuel + trail.length) hvia (by omega)
        refine ⟨via :: rest, ?_, List.isChain_cons_cons.mpr ⟨hR, hchain⟩, by rwa [List.getLast?_cons_cons]⟩
        have hlookup : (trail ++ [(id, some via)]).lookup id = some (some via) := by
          rw [lookup_append_of_not_has (Bool.eq_false_iff.mp hnew), if_pos (beq_self_eq_true id)]
        rw [← Nat.add_assoc, follow, hlookup]
        simp only [hgrown.follow_append hvia, hrest]

end Grown

end Trail

end StartNodes.Graph
