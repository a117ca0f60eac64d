import StartNodes.Proofs.List.Distinct
import StartNodes.Proofs.Path.Containment
import StartNodes.Scope.Combine
import Mathlib.Data.List.Nodup

/-!
What the combination of start nodes needs to know about paths. Both reductions are one fold, which keeps of some nodes those
that yield to no other; the merge keeps each of the principal's own nodes, and of the groups' nodes those that none of the
own nodes touches. Here the reductions, the merge and the combination are stated for any relation that says which paths lie
under which. As long as it orders paths as ancestors in a forest are ordered, nothing but the order of what comes out depends
on the order in which nodes come.
-/

namespace StartNodes.Scope

open StartNodes.Path (IsForestOrder)

variable {ι : Type}

/-! ### Reductions -/

section Keep

variable {yields : Placed ι → Placed ι → Bool}

/-- Whoever yields to a node that goes yields to the one for which it goes. -/
theorem any_keep (htrans : ∀ a b c, yields a b = true → yields b c = true → yields a c = true)
    (kept : List (Placed ι)) (n x : Placed ι) :
    (keep yields kept n).any (yields x) = (kept.any (yields x) || yields x n) := by
  unfold Scope.keep
  rw [Bool.eq_iff_iff, Bool.or_eq_true]
  by_cases hn : kept.any (yields n) = true
  · rw [if_pos hn, or_iff_left_of_imp]
    intro hxn
    obtain ⟨y, hy, hny⟩ := List.any_eq_true.mp hn
    exact List.any_eq_true.mpr ⟨y, hy, htrans x n y hxn hny⟩
  rw [if_neg hn, List.any_append, Bool.or_eq_true, List.any_filter, List.any_cons, List.any_nil, Bool.or_false]
  refine ⟨Or.imp_left fun hkept => ?_, fun hx => ?_⟩
  · obtain ⟨y, hy, hxy⟩ := List.any_eq_true.mp hkept
    exact List.any_eq_true.mpr ⟨y, hy, (Bool.and_eq_true_iff.mp hxy).2⟩
  · by_cases hxn : yields x n = true
    · exact .inr hxn
    obtain ⟨y, hy, hxy⟩ := List.any_eq_true.mp (hx.resolve_right hxn)
    have hyn : yields y n = false := Bool.eq_false_iff.mpr fun hyn => hxn (htrans x y n hxy hyn)
    exact .inl (List.any_eq_true.mpr ⟨y, hy, by rw [hyn, hxy]; rfl⟩)

theorem any_foldl_keep (htrans : ∀ a b c, yields a b = true → yields b c = true → yields a c = true)
    (nodes kept : List (Placed ι)) (x : Placed ι) :
    (nodes.foldl (keep yields) kept).any (yields x) = (kept.any (yields x) || nodes.any (yields x)) := by
  induction nodes generalizing kept with
  | nil => rw [List.foldl_nil, List.any_nil, Bool.or_false]
  | cons n nodes ih => rw [List.foldl_cons, ih, any_keep htrans, List.any_cons, Bool.or_assoc]

/-- The fold keeps the nodes that yield to no other, in the order in which they come. -/
theorem foldl_keep_eq_filter (htrans : ∀ a b c, yields a b = true → yields b c = true → yields a c = true)
    (hirrefl : ∀ a, yields a a = false) (nodes : List (Placed ι)) :
    nodes.foldl (keep yields) [] = nodes.filter fun x => !nodes.any (yields x) := by
  induction nodes using List.reverseRecOn with
  | nil => rfl
  | append_singleton nodes n ih =>
      have hsplit : ∀ x, (!(nodes ++ [n]).any (yields x)) = (!nodes.any (yields x) && !yields x n) := by simp
      rw [List.foldl_append, List.foldl_cons, List.foldl_nil, Scope.keep, any_foldl_keep htrans, List.any_nil,
        Bool.false_or, ih, List.filter_append]
      simp only [hsplit]
      by_cases hn : nodes.any (yields n) = true
      · -- whoever yields to the new node yields to the one that it yields to
        have hlast : ([n].filter fun x => !nodes.any (yields x) && !yields x n) = [] := by simp [hn]
        rw [if_pos hn, hlast, List.append_nil]
        refine List.filter_congr fun x _ => ?_
        by_cases hxn : yields x n = true
        · obtain ⟨y, hy, hny⟩ := List.any_eq_true.mp hn
          have hx : nodes.any (yields x) = true := List.any_eq_true.mpr ⟨y, hy, htrans x n y hxn hny⟩
          rw [hx, hxn]
          rfl
        · rw [Bool.eq_false_iff.mpr hxn, Bool.not_false, Bool.and_true]
      · have hlast : ([n].filter fun x => !nodes.any (yields x) && !yields x n) = [n] := by simp [hn, hirrefl]
        rw [if_neg hn, hlast, List.filter_filter]
        simp only [Bool.and_comm]

end Keep

theorem mem_filter_not_any {nodes : List (Placed ι)} {yields : Placed ι → Placed ι → Bool} {x : Placed ι} :
    (x ∈ nodes.filter fun x => !nodes.any fun y => yields x y) ↔ x ∈ nodes ∧ ∀ y ∈ nodes, yields x y = false := by
  rw [List.mem_filter, Bool.not_eq_true', List.any_eq_false]
  simp only [Bool.not_eq_true]

theorem filter_not_any_perm {nodes nodes' : List (Placed ι)} (h : nodes.Perm nodes')
    (yields : Placed ι → Placed ι → Bool) :
    (nodes.filter fun x => !nodes.any fun y => yields x y).Perm
      (nodes'.filter fun x => !nodes'.any fun y => yields x y) := by
  simp only [h.any_eq]
  exact h.filter _

section Reductions

variable (under : String → String → Bool)

/-- Whether a node lies under another, if `under` says which paths lie under which. -/
def underBy (a b : Placed ι) : Bool :=
  under a.path b.path

/-- The nodes that lie under no other. -/
def topmostBy (nodes : List (Placed ι)) : List (Placed ι) :=
  nodes.foldl (keep (underBy under)) []

/-- The nodes under which no other lies. -/
def deepestBy (nodes : List (Placed ι)) : List (Placed ι) :=
  nodes.foldl (keep fun a b => underBy under b a) []

variable {under} (horder : IsForestOrder under)
include horder

theorem topmostBy_eq_filter (nodes : List (Placed ι)) :
    topmostBy under nodes = nodes.filter fun x => !nodes.any fun y => underBy under x y := by
  have htrans : ∀ a b c : Placed ι, underBy under a b = true → underBy under b c = true → underBy under a c = true :=
    fun a b c => horder.trans a.path b.path c.path
  rw [topmostBy, foldl_keep_eq_filter htrans fun a => horder.irrefl a.path]

theorem deepestBy_eq_filter (nodes : List (Placed ι)) :
    deepestBy under nodes = nodes.filter fun x => !nodes.any fun y => underBy under y x := by
  have htrans : ∀ a b c : Placed ι, underBy under b a = true → underBy under c b = true → underBy under c a = true :=
    fun a b c hba hcb => horder.trans c.path b.path a.path hcb hba
  rw [deepestBy, foldl_keep_eq_filter htrans fun a => horder.irrefl a.path]

theorem topmostBy_perm {nodes nodes' : List (Placed ι)} (h : nodes.Perm nodes') :
    (topmostBy under nodes).Perm (topmostBy under nodes') := by
  rw [topmostBy_eq_filter horder, topmostBy_eq_filter horder]
  exact filter_not_any_perm h _

theorem deepestBy_perm {nodes nodes' : List (Placed ι)} (h : nodes.Perm nodes') :
    (deepestBy under nodes).Perm (deepestBy under nodes') := by
  rw [deepestBy_eq_filter horder, deepestBy_eq_filter horder]
  exact filter_not_any_perm h fun x y => underBy under y x

end Reductions

/-! ### Merge -/

section Merge

variable (under : String → String → Bool)

/-- Two nodes that are neither the same nor one under the other. -/
def ApartBy (a b : Placed ι) : Prop :=
  a.id ≠ b.id ∧ underBy under a b = false ∧ underBy under b a = false

variable [BEq ι]

/-- Whether a node stays when another is taken up. -/
def staysBy (a b : Placed ι) : Bool :=
  a.id != b.id && !underBy under b a && !underBy under a b

/-- Takes a node up in place of itself and of every node above or below it. -/
def replaceBy (kept : List (Placed ι)) (n : Placed ι) : List (Placed ι) :=
  (kept.filter fun k => staysBy under k n) ++ [n]

variable [LawfulBEq ι] {under}

theorem staysBy_iff {a b : Placed ι} : staysBy under a b = true ↔ ApartBy under a b := by
  rw [staysBy, ApartBy, Bool.and_eq_true, Bool.and_eq_true, bne_iff_ne, Bool.not_eq_true', Bool.not_eq_true', and_assoc]
  exact and_congr_right fun _ => and_comm

/-- Own nodes that do not touch each other all stay, behind those of the others that no own node touches. -/
theorem foldl_replaceBy_eq_filter {own : List (Placed ι)} (hown : own.Pairwise (ApartBy under))
    (kept : List (Placed ι)) :
    own.foldl (replaceBy under) kept = (kept.filter fun k => own.all (staysBy under k)) ++ own := by
  induction own generalizing kept with
  | nil => simp
  | cons n own ih =>
      obtain ⟨hn, hown⟩ := List.pairwise_cons.mp hown
      have hstays : own.all (staysBy under n) = true := List.all_eq_true.mpr fun m hm => staysBy_iff.mpr (hn m hm)
      rw [List.foldl_cons, replaceBy, ih hown, List.filter_append, List.filter_singleton, hstays, cond_true,
        List.append_assoc, List.singleton_append, List.filter_filter]
      simp only [List.all_cons, Bool.and_comm]

omit [BEq ι] [LawfulBEq ι] in
theorem ApartBy.symm {a b : Placed ι} (h : ApartBy under a b) : ApartBy under b a :=
  ⟨h.1.symm, h.2.2, h.2.1⟩

theorem foldl_replaceBy_perm {own own' kept kept' : List (Placed ι)} (hapart : own.Pairwise (ApartBy under))
    (hown : own.Perm own') (hkept : kept.Perm kept') :
    (own.foldl (replaceBy under) kept).Perm (own'.foldl (replaceBy under) kept') := by
  have hapart' := (hown.pairwise_iff ApartBy.symm).mp hapart
  rw [foldl_replaceBy_eq_filter hapart, foldl_replaceBy_eq_filter hapart']
  simp only [hown.all_eq]
  exact (hkept.filter _).append hown

end Merge

/-! ### Combination -/

section Combination

variable (under : String → String → Bool) [BEq ι]

/-- The distinct nodes that have a path outside the recycle bin, with their paths. -/
def validBy (path? : ι → Option String) (bin : String) (ids : List ι) : List (Placed ι) :=
  ids.eraseDups.filterMap fun id =>
    (path? id).bind fun path => if under path bin then none else some ⟨id, path⟩

/-- The combined start nodes, if `under` says which paths lie under which. -/
def combineBy (kind : Hierarchy) (path? : ι → Option String) (groupIds userIds : List ι) : List ι :=
  let bin := Path.bin kind
  let groups := topmostBy under (validBy under path? bin groupIds)
  let own := deepestBy under (validBy under path? bin userIds)
  (own.foldl (replaceBy under) groups).map Placed.id

variable {under} [LawfulBEq ι] {path? : ι → Option String} {bin : String} {ids : List ι}

theorem mem_validBy {n : Placed ι} :
    n ∈ validBy under path? bin ids ↔ n.id ∈ ids ∧ path? n.id = some n.path ∧ under n.path bin = false := by
  rw [validBy, List.mem_filterMap]
  constructor
  · rintro ⟨id, hid, hplaced⟩
    rw [Option.bind_eq_some_iff] at hplaced
    obtain ⟨path, hpath, hplaced⟩ := hplaced
    by_cases hbin : under path bin = true
    · rw [if_pos hbin] at hplaced
      cases hplaced
    · rw [if_neg hbin] at hplaced
      cases hplaced
      exact ⟨List.mem_eraseDups.mp hid, hpath, Bool.eq_false_iff.mpr hbin⟩
  · rintro ⟨hid, hpath, hbin⟩
    refine ⟨n.id, List.mem_eraseDups.mpr hid, ?_⟩
    rw [hpath, Option.bind_some, hbin, if_neg Bool.false_ne_true]

theorem nodup_validBy (under : String → String → Bool) (path? : ι → Option String) (bin : String) (ids : List ι) :
    (validBy under path? bin ids).Nodup := by
  refine List.Nodup.filterMap (fun a b n ha hb => ?_) (nodup_eraseDups ids)
  obtain ⟨_, _, ha⟩ := Option.bind_eq_some_iff.mp ha
  obtain ⟨_, _, hb⟩ := Option.bind_eq_some_iff.mp hb
  split at ha <;> cases ha
  split at hb <;> cases hb
  rfl

theorem validBy_perm {ids' : List ι} (h : ∀ id, id ∈ ids ↔ id ∈ ids') :
    (validBy under path? bin ids).Perm (validBy under path? bin ids') :=
  (eraseDups_perm h).filterMap _

/-- Of the deepest nodes none touches another. -/
theorem pairwise_apart_deepestBy (horder : IsForestOrder under) (path? : ι → Option String) (bin : String)
    (ids : List ι) : (deepestBy under (validBy under path? bin ids)).Pairwise (ApartBy under) := by
  rw [deepestBy_eq_filter horder]
  refine ((nodup_validBy under path? bin ids).filter _).pairwise_of_forall_ne fun a ha b hb hne => ?_
  obtain ⟨ha, hnone⟩ := mem_filter_not_any.mp ha
  obtain ⟨hb, hnone'⟩ := mem_filter_not_any.mp hb
  refine ⟨fun hid => hne ?_, hnone' a ha, hnone b hb⟩
  -- a node has one path
  have hpath := (mem_validBy.mp ha).2.1
  rw [hid, (mem_validBy.mp hb).2.1, Option.some_inj] at hpath
  cases a
  cases b
  cases hid
  cases hpath
  rfl

theorem combineBy_perm (horder : IsForestOrder under) {kind : Hierarchy} {groupIds groupIds' userIds userIds' : List ι}
    (hgroups : ∀ id, id ∈ groupIds ↔ id ∈ groupIds') (hown : ∀ id, id ∈ userIds ↔ id ∈ userIds') :
    (combineBy under kind path? groupIds userIds).Perm (combineBy under kind path? groupIds' userIds') := by
  refine List.Perm.map _ (foldl_replaceBy_perm (pairwise_apart_deepestBy horder path? _ userIds) ?_ ?_)
  · exact deepestBy_perm horder (validBy_perm hown)
  · exact topmostBy_perm horder (validBy_perm hgroups)

end Combination

/-! ### Independence of the order -/

/-- Nothing but the order of what comes out of the reductions, the merge and the combination depends on the order of what
goes in, nor does anything depend on how often a start node is declared. -/
structure IsOrderIndependent (under : String → String → Bool) : Prop where
  topmost : ∀ {nodes nodes' : List (Placed NodeId)}, nodes.Perm nodes' →
    (topmostBy under nodes).Perm (topmostBy under nodes')
  deepest : ∀ {nodes nodes' : List (Placed NodeId)}, nodes.Perm nodes' →
    (deepestBy under nodes).Perm (deepestBy under nodes')
  merge : ∀ {own own' kept kept' : List (Placed NodeId)}, own.Pairwise (ApartBy under) → own.Perm own' →
    kept.Perm kept' → (own.foldl (replaceBy under) kept).Perm (own'.foldl (replaceBy under) kept')
  combine : ∀ {kind : Hierarchy} {path? : NodeId → Option String} {groupIds groupIds' userIds userIds' : List NodeId},
    (∀ id, id ∈ groupIds ↔ id ∈ groupIds') → (∀ id, id ∈ userIds ↔ id ∈ userIds') →
    (combineBy under kind path? groupIds userIds).Perm (combineBy under kind path? groupIds' userIds')

/-- On arbitrary texts, lying under one another is the order of ancestors in a forest, and the test for it looks at no
position that is not there. The combination uses no more of paths than that: for every relation with such an order in place
of this one, what comes out depends on the order of the declarations only in its own order. -/
theorem paths_form_a_forest :
    IsForestOrder Path.isUnder ∧
    (∀ candidate ancestor, Path.isUnderByPosition? candidate ancestor = some (Path.isUnder candidate ancestor)) ∧
    (∀ kind path? (groupIds userIds : List NodeId),
      combine kind path? groupIds userIds = combineBy Path.isUnder kind path? groupIds userIds) ∧
    ∀ under, IsForestOrder under → IsOrderIndependent under := by
  refine ⟨Path.isForestOrder, Path.isUnderByPosition?_eq, fun _ _ _ _ => rfl, fun under horder => ?_⟩
  exact
    { topmost := topmostBy_perm horder
      deepest := deepestBy_perm horder
      merge := foldl_replaceBy_perm
      combine := combineBy_perm horder }

/-- Without transitivity the order shows: if `x` lies under `y` and `y` under `z`, but `x` not under `z`, then `x` is among
the topmost nodes unless it is replaced before `z` comes. -/
example :
    let under : String → String → Bool := fun a b => (a, b) == ("x", "y") || (a, b) == ("y", "z")
    let x : Placed NodeId := ⟨1, "x"⟩
    let y : Placed NodeId := ⟨2, "y"⟩
    let z : Placed NodeId := ⟨3, "z"⟩
    topmostBy under [x, y, z] = [z] ∧ topmostBy under [z, y, x] = [z, x] := by
  decide

end StartNodes.Scope
