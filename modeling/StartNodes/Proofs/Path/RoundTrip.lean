import StartNodes.Proofs.Decimal.Canonical
import StartNodes.Proofs.Decimal.Length
import StartNodes.Proofs.Path.Codec

/-!
Paths read and written. Reading undoes writing, so different chains have different paths. Writing undoes reading only up
to the spelling of the ids: a path may spell them with signs, blanks, underscores, zeros in front and digits of any script,
and it is written as it was read exactly if each of its components is a canonical numeral.
-/

namespace StartNodes.Path

open Decimal

theorem ne_nil_of_ids {path : String} {chain : List NodeId} (h : ids path = .ok chain) : chain ≠ [] := by
  rintro rfl
  exact components_ne_nil path (List.map_eq_nil_iff.mp (ids_eq_ok_iff.mp h))

/-- The ids that a path is read as are not too long to be written. -/
theorem digitCount_le_of_ids {path : String} {chain : List NodeId} (h : ids path = .ok chain) :
    ∀ id ∈ chain, digitCount id ≤ maxDigits := by
  intro id hid
  have hread : .ok id ∈ (components path).map readChars := by
    rw [ids_eq_ok_iff.mp h]
    exact List.mem_map_of_mem hid
  obtain ⟨text, _, htext⟩ := List.mem_map.mp hread
  have hint : readInt (String.ofList text) = .ok id := by rwa [readInt, String.toList_ofList]
  exact digitCount_le_of_readInt hint

/-- A chain is written as a path exactly if its decimal forms are the components of the path. -/
theorem join_eq_iff {path : String} {chain : List NodeId} (h : chain ≠ []) :
    join chain = path ↔ chain.map intText = components path := by
  refine ⟨fun heq => by rw [← heq, components_join h], fun hmap => ?_⟩
  rw [← String.toList_inj, toList_join, hmap, intercalate_components]

/-- The components of a path are the decimal forms of the ids that they are read as exactly if each of them is canonical. -/
theorem map_intText_eq_iff {texts : List (List Char)} {chain : List NodeId} (h : texts.map readChars = chain.map .ok) :
    chain.map intText = texts ↔ ∀ text ∈ texts, IsCanonical text := by
  induction texts generalizing chain with
  | nil =>
      rw [List.map_eq_nil_iff.mp h.symm]
      simp
  | cons text texts ih =>
      cases chain with
      | nil => cases h
      | cons id chain =>
          rw [List.map_cons, List.map_cons, List.cons.injEq] at h
          rw [List.map_cons, List.cons.injEq, List.forall_mem_cons, intText_eq_iff_isCanonical h.1, ih h.2]

/-- The path of a chain whose ids have at most 4300 digits reads back as the chain, and no two chains have the same path. A
text that is read as a chain at all gives a path that is read as the same chain; the two are equal exactly if every component
of the text is canonical. -/
theorem paths_round_trip :
    (∀ chain : List NodeId, chain ≠ [] → (∀ id ∈ chain, digitCount id ≤ maxDigits) → ids (join chain) = .ok chain) ∧
    (∀ chain chain' : List NodeId, chain ≠ [] → chain' ≠ [] → join chain = join chain' → chain = chain') ∧
    ∀ path chain, ids path = .ok chain →
      (∀ id ∈ chain, digitCount id ≤ maxDigits) ∧ ids (join chain) = .ok chain ∧
      (join chain = path ↔ ∀ text ∈ components path, IsCanonical text) := by
  refine ⟨fun _ => ids_join, fun _ _ => join_injective, fun path chain h => ?_⟩
  have hne := ne_nil_of_ids h
  have hshort := digitCount_le_of_ids h
  refine ⟨hshort, ids_join hne hshort, ?_⟩
  rw [join_eq_iff hne, map_intText_eq_iff (ids_eq_ok_iff.mp h)]

/-- A path with a plus sign, a zero in front and a blank is read, but it is not written so. -/
example : ids "-1, +05" = .ok [-1, 5] ∧ join [(-1 : NodeId), 5] = "-1,5" ∧
    IsCanonical "-1".toList ∧ ¬ IsCanonical " +05".toList := by
  decide

end StartNodes.Path
