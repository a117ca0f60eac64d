import StartNodes.Proofs.Path.Codec
import StartNodes.Scope.Access

/-!
How much of a decision depends on how a path is spelled. Start nodes are looked for among the ids that the components of
the path are read as, so that any spelling of an id will do. The recycle bin is looked for in the text. A path that
leads below the bin is taken for such a path only if it begins as the bin's own path is spelled.
-/

namespace StartNodes

open Decimal

namespace Path

/-- Whether a chain of nodes begins with the root and the recycle bin and goes on below it. -/
def GoesBelowBin (kind : Hierarchy) (chain : List NodeId) : Prop :=
  [rootId, kind.binId] <+: chain ∧ [rootId, kind.binId] ≠ chain

/-- Whether the first components of a path are spelled as those of the recycle bin's path. -/
def SpellsBin (kind : Hierarchy) (path : String) : Prop :=
  components (bin kind) <+: components path

instance (kind : Hierarchy) (chain : List NodeId) : Decidable (GoesBelowBin kind chain) :=
  inferInstanceAs (Decidable (_ ∧ _))

instance (kind : Hierarchy) (path : String) : Decidable (SpellsBin kind path) :=
  inferInstanceAs (Decidable (_ <+: _))

variable {kind : Hierarchy} {path : String} {chain : List NodeId}

theorem map_readChars_bin (kind : Hierarchy) :
    (components (bin kind)).map readChars = [rootId, kind.binId].map .ok := by
  cases kind <;> rfl

theorem ok_injective {ε : Type} : Function.Injective (Except.ok : NodeId → Except ε NodeId) :=
  fun _ _ => Except.ok.inj

/-- A path that is read as a chain of nodes lies under that of the recycle bin exactly if the chain goes on below the
bin and the path is spelled so. -/
theorem isUnder_bin_of_ids (h : ids path = .ok chain) :
    isUnder path (bin kind) = true ↔ GoesBelowBin kind chain ∧ SpellsBin kind path := by
  rw [ids_eq_ok_iff] at h
  rw [isUnder_iff]
  constructor
  · rintro ⟨hspells, hne⟩
    refine ⟨⟨?_, ?_⟩, hspells⟩
    · have hread := hspells.map readChars
      rwa [map_readChars_bin, h, List.prefix_map_iff_of_injective ok_injective] at hread
    · rintro rfl
      have hlength := congrArg List.length (h.trans (map_readChars_bin kind).symm)
      rw [List.length_map, List.length_map] at hlength
      exact hne (hspells.eq_of_length hlength.symm)
  · rintro ⟨⟨-, hne⟩, hspells⟩
    refine ⟨hspells, fun heq => hne ?_⟩
    rw [← heq, map_readChars_bin] at h
    exact List.map_injective_iff.mpr ok_injective h

end Path

namespace Scope

variable {kind : Hierarchy} {path : String} {chain starts : List NodeId}

/-- Whether start nodes give access to the end of a chain of nodes, unless it is below the bin. -/
def Covers (starts chain : List NodeId) : Prop :=
  rootId ∈ starts ∨ ∃ start ∈ starts, start ∈ chain

instance (starts chain : List NodeId) : Decidable (Covers starts chain) :=
  inferInstanceAs (Decidable (_ ∨ _))

/-- The decision about a path that is read as a chain of nodes. -/
theorem hasPathAccess_of_ids (h : Path.ids path = .ok chain) (starts : List NodeId) (bin : String) :
    hasPathAccess path starts bin = .ok (decide (Covers starts chain ∧ ¬Path.isUnder path bin = true)) := by
  have hempty : ¬path.isEmpty = true := by
    intro hempty
    rw [String.isEmpty_iff] at hempty
    subst hempty
    cases h
  rw [hasPathAccess, if_neg hempty]
  by_cases hunder : Path.isUnder path bin = true
  · rw [if_pos hunder, decide_eq_false fun hcovers => hcovers.2 hunder]
  rw [if_neg hunder]
  by_cases hnone : starts.isEmpty = true
  · rw [if_pos hnone]
    rw [List.isEmpty_iff] at hnone
    simp [Covers, hnone]
  rw [if_neg hnone]
  by_cases hroot : rootId ∈ starts
  · rw [if_pos (List.contains_iff_mem.mpr hroot), decide_eq_true ⟨Or.inl hroot, hunder⟩]
  · rw [if_neg (mt List.contains_iff_mem.mp hroot), h]
    refine congrArg Except.ok (Bool.eq_iff_iff.mpr ?_)
    simp [Covers, hroot, hunder]

theorem hasPathAccess_bin_of_ids (h : Path.ids path = .ok chain) (kind : Hierarchy) (starts : List NodeId) :
    hasPathAccess path starts (Path.bin kind) =
      .ok (decide (Covers starts chain ∧ ¬(Path.GoesBelowBin kind chain ∧ Path.SpellsBin kind path))) := by
  rw [hasPathAccess_of_ids h, decide_eq_decide.mpr (and_congr_right fun _ => not_congr (Path.isUnder_bin_of_ids h))]

/-- Two paths of one chain of nodes are decided alike, unless start nodes cover the chain, it goes on below the bin, and
only one of the two is spelled so. Whatever follows, a path that is spelled as one below the bin is refused. -/
theorem access_decided_by_chain (kind : Hierarchy) (starts : List NodeId) {p q : String} (hp : Path.ids p = .ok chain)
    (hq : Path.ids q = .ok chain) :
    (hasPathAccess p starts (Path.bin kind) = hasPathAccess q starts (Path.bin kind) ↔
        (Covers starts chain → Path.GoesBelowBin kind chain → (Path.SpellsBin kind p ↔ Path.SpellsBin kind q))) ∧
      (Path.GoesBelowBin kind chain → Path.SpellsBin kind p → hasPathAccess p starts (Path.bin kind) = .ok false) := by
  rw [hasPathAccess_bin_of_ids hp, hasPathAccess_bin_of_ids hq, Except.ok.injEq, Except.ok.injEq, decide_eq_decide]
  refine ⟨?_, fun hbelow hspells => decide_eq_false fun hcovers => hcovers.2 ⟨hbelow, hspells⟩⟩
  tauto

/-- Blanks, signs and leading zeros below the bin make no difference. -/
theorem access_decided_by_chain_below_bin :
    Path.ids "-1,-20, +5" = .ok [-1, -20, 5] ∧ Path.ids "-1,-20,005" = .ok [-1, -20, 5] ∧
      Path.GoesBelowBin .content [-1, -20, 5] ∧ Path.SpellsBin .content "-1,-20, +5" ∧
      hasPathAccess "-1,-20, +5" [-1] (Path.bin .content) = hasPathAccess "-1,-20,005" [-1] (Path.bin .content) ∧
      hasPathAccess "-1,-20, +5" [-1] (Path.bin .content) = .ok false := by
  have hp : Path.ids "-1,-20, +5" = .ok [-1, -20, 5] := by decide +kernel
  have hq : Path.ids "-1,-20,005" = .ok [-1, -20, 5] := by decide +kernel
  have hspells : Path.SpellsBin .content "-1,-20, +5" := by decide +kernel
  have hspells' : Path.SpellsBin .content "-1,-20,005" := by decide +kernel
  obtain ⟨halike, hrefused⟩ := access_decided_by_chain .content [-1] hp hq
  exact ⟨hp, hq, by decide, hspells, halike.mpr fun _ _ => iff_of_true hspells hspells', hrefused (by decide) hspells⟩

/-- A blank before the bin does. -/
theorem access_not_decided_by_chain :
    Path.ids "-1, -20,5" = Path.ids "-1,-20,5" ∧ Path.ids "-1,-20,5" = .ok [-1, -20, 5] ∧
      hasPathAccess "-1, -20,5" [-1] (Path.bin .content) = .ok true ∧
      hasPathAccess "-1,-20,5" [-1] (Path.bin .content) = .ok false := by
  decide +kernel

end Scope

end StartNodes
