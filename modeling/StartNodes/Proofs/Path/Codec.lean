import StartNodes.Path
import StartNodes.Proofs.Decimal.RoundTrip
import Mathlib.Data.List.Infix

/-!
Path texts and the chains of nodes that they stand for. A path is under another exactly if its components properly
continue those of the other. Decimal forms hold no delimiter, so the components of a joined chain are the decimal
forms of its nodes, and reading the path gives the chain back.
-/

namespace StartNodes

theorem mapM_eq_ok_iff {α β ε : Type} {f : α → Except ε β} {l : List α} {l' : List β} :
    l.mapM f = .ok l' ↔ l.map f = l'.map .ok := by
  induction l generalizing l' with
  | nil => cases l' <;> simp [pure, Except.pure]
  | cons a l ih =>
      rw [List.mapM_cons, List.map_cons]
      cases l' with
      | nil => cases f a <;> cases l.mapM f <;> simp [bind, Except.bind, pure, Except.pure]
      | cons b l' =>
          rw [List.map_cons, List.cons.injEq, ← ih]
          cases f a <;> cases l.mapM f <;> simp [bind, Except.bind, pure, Except.pure]

namespace Path

open Decimal

/-! ### Components -/

theorem intercalate_append {α : Type} (sep : List α) {xs ys : List (List α)} (hxs : xs ≠ []) (hys : ys ≠ []) :
    sep.intercalate (xs ++ ys) = sep.intercalate xs ++ sep ++ sep.intercalate ys := by
  induction xs with
  | nil => exact absurd rfl hxs
  | cons x xs ih =>
      by_cases hnil : xs = []
      · rw [hnil, List.singleton_append, List.intercalate_cons_of_ne_nil hys, List.intercalate_singleton]
      · rw [List.cons_append, List.intercalate_cons_of_ne_nil (List.append_ne_nil_of_left_ne_nil hnil ys),
          List.intercalate_cons_of_ne_nil hnil, ih hnil]
        simp only [List.append_assoc]

theorem components_ne_nil (path : String) : components path ≠ [] :=
  List.splitOn_ne_nil _ _

theorem intercalate_components (path : String) : [delimiter].intercalate (components path) = path.toList :=
  List.intercalate_splitOn delimiter

/-- A path is under another exactly if its components properly continue those of the other. -/
theorem isUnder_iff {candidate ancestor : String} :
    isUnder candidate ancestor = true ↔
      components ancestor <+: components candidate ∧ components ancestor ≠ components candidate := by
  rw [isUnder, List.isPrefixOf_iff_prefix]
  constructor
  · rintro ⟨rest, hrest⟩
    have hsplit : components candidate = components ancestor ++ rest.splitOn delimiter := by
      rw [components, ← hrest, List.append_assoc]
      exact List.splitOn_append_cons_self _ _
    refine ⟨⟨_, hsplit.symm⟩, fun heq => ?_⟩
    rw [hsplit, List.self_eq_append_right] at heq
    exact List.splitOn_ne_nil _ _ heq
  · rintro ⟨⟨rest, hrest⟩, hne⟩
    have hrest_ne : rest ≠ [] := by
      rintro rfl
      exact hne (by rw [← hrest, List.append_nil])
    refine ⟨[delimiter].intercalate rest, ?_⟩
    rw [← intercalate_components candidate, ← hrest, intercalate_append _ (components_ne_nil ancestor) hrest_ne,
      intercalate_components]

theorem isUnder_irrefl (path : String) : isUnder path path = false := by
  rw [Bool.eq_false_iff, Ne, isUnder_iff]
  exact fun h => h.2 rfl

theorem isUnder_trans {a b c : String} (hab : isUnder a b = true) (hbc : isUnder b c = true) : isUnder a c = true := by
  rw [isUnder_iff] at hab hbc ⊢
  refine ⟨hbc.1.trans hab.1, fun heq => ?_⟩
  exact hbc.2 (hbc.1.eq_of_length_le (heq ▸ hab.1.length_le))

/-! ### Joined chains -/

theorem toList_join (ids : List NodeId) : (join ids).toList = [delimiter].intercalate (ids.map intText) :=
  String.toList_ofList

theorem delimiter_not_mem_intText (id : NodeId) : delimiter ∉ intText id := by
  intro hmem
  rcases of_mem_intText hmem with heq | hdigit
  · exact absurd heq (by decide)
  · exact absurd hdigit (by decide)

theorem components_join {ids : List NodeId} (h : ids ≠ []) : components (join ids) = ids.map intText := by
  rw [components, toList_join]
  refine List.splitOn_intercalate delimiter ?_ (mt List.map_eq_nil_iff.mp h)
  intro l hl
  obtain ⟨id, _, rfl⟩ := List.mem_map.mp hl
  exact delimiter_not_mem_intText id

/-- Different chains have different paths. -/
theorem join_injective {xs ys : List NodeId} (hxs : xs ≠ []) (hys : ys ≠ []) (h : join xs = join ys) : xs = ys := by
  have hmap : xs.map intText = ys.map intText := by rw [← components_join hxs, h, components_join hys]
  exact List.map_injective_iff.mpr (fun _ _ => intText_injective) hmap

/-- The path of a chain is under that of another exactly if the chain properly continues the other. -/
theorem isUnder_join {xs ys : List NodeId} (hxs : xs ≠ []) (hys : ys ≠ []) :
    isUnder (join xs) (join ys) = true ↔ ys <+: xs ∧ ys ≠ xs := by
  have hinj : Function.Injective (List.map intText) := List.map_injective_iff.mpr fun _ _ => intText_injective
  rw [isUnder_iff, components_join hxs, components_join hys, hinj.ne_iff]
  exact and_congr_left fun _ => List.prefix_map_iff_of_injective fun _ _ => intText_injective

theorem join_singleton (id : NodeId) : join [id] = ofInt id := by
  rw [← String.toList_inj, toList_join, List.map_singleton, List.intercalate_singleton, ofInt, String.toList_ofList]

/-- The path of two chains in a row is the path of the first, the delimiter and the path of the second. -/
theorem join_append {xs ys : List NodeId} (hxs : xs ≠ []) (hys : ys ≠ []) :
    join (xs ++ ys) = join xs ++ "," ++ join ys := by
  have hxs' : xs.map intText ≠ [] := mt List.map_eq_nil_iff.mp hxs
  have hys' : ys.map intText ≠ [] := mt List.map_eq_nil_iff.mp hys
  rw [← String.toList_inj, toList_join, List.map_append, intercalate_append _ hxs' hys', ← toList_join, ← toList_join,
    String.toList_append, String.toList_append]
  rfl

/-- The path of a chain with one more node is the path of the chain, the delimiter and the node. -/
theorem join_append_singleton {ids : List NodeId} (h : ids ≠ []) (id : NodeId) :
    join (ids ++ [id]) = join ids ++ "," ++ ofInt id := by
  rw [join_append h (List.cons_ne_nil id []), join_singleton]

/-- A path is read component by component. -/
theorem ids_eq_ok_iff {path : String} {chain : List NodeId} :
    ids path = .ok chain ↔ (components path).map readChars = chain.map .ok :=
  mapM_eq_ok_iff

/-- The path of a chain of nodes that are not too long to be read reads back as the chain. -/
theorem ids_join {ids : List NodeId} (h : ids ≠ []) (hshort : ∀ id ∈ ids, digitCount id ≤ maxDigits) :
    Path.ids (join ids) = .ok ids := by
  rw [ids_eq_ok_iff, components_join h, List.map_map]
  exact List.map_congr_left fun id hid => readChars_intText (hshort id hid)

theorem isEmpty_join {ids : List NodeId} (h : ids ≠ []) : (join ids).isEmpty = false := by
  rw [String.isEmpty_eq_false_iff]
  intro hempty
  have hcomponents := components_join h
  rw [hempty] at hcomponents
  obtain ⟨id, rest, rfl⟩ := List.exists_cons_of_ne_nil h
  exact intText_ne_nil id (List.cons.inj hcomponents).1.symm

end Path

end StartNodes
