import StartNodes.Proofs.Scope.Order
import StartNodes.Scope.Lookup

/-!
What the combination of start nodes keeps, when paths lie under one another as their texts say. Of the groups' nodes the
reduction keeps those that lie under no other, of the principal's own those under which no other lies. The merge then keeps
each of the principal's own nodes, and of the groups' nodes those that none of the own nodes touches.
-/

namespace StartNodes.Scope

variable {ι : Type}

/-! ### Reductions -/

theorem topmost_eq_filter (nodes : List (Placed ι)) :
    topmost nodes = nodes.filter fun x => !nodes.any fun y => x.isUnder y :=
  topmostBy_eq_filter Path.isForestOrder nodes

theorem deepest_eq_filter (nodes : List (Placed ι)) :
    deepest nodes = nodes.filter fun x => !nodes.any fun y => y.isUnder x :=
  deepestBy_eq_filter Path.isForestOrder nodes

theorem mem_topmost {nodes : List (Placed ι)} {x : Placed ι} :
    x ∈ topmost nodes ↔ x ∈ nodes ∧ ∀ y ∈ nodes, x.isUnder y = false := by
  rw [topmost_eq_filter, mem_filter_not_any]

theorem mem_deepest {nodes : List (Placed ι)} {x : Placed ι} :
    x ∈ deepest nodes ↔ x ∈ nodes ∧ ∀ y ∈ nodes, y.isUnder x = false := by
  rw [deepest_eq_filter, mem_filter_not_any]

/-! ### Merge -/

variable [BEq ι] [LawfulBEq ι]

/-- Two nodes that are neither the same nor one under the other. -/
def Placed.Apart (a b : Placed ι) : Prop :=
  a.id ≠ b.id ∧ a.isUnder b = false ∧ b.isUnder a = false

/-- Whether a node stays when another is taken up. -/
def Placed.stays (a b : Placed ι) : Bool :=
  a.id != b.id && !b.isUnder a && !a.isUnder b

theorem Placed.stays_iff {a b : Placed ι} : a.stays b = true ↔ a.Apart b :=
  staysBy_iff

/-- Own nodes that do not touch each other all stay, behind those of the others that no own node touches. -/
theorem foldl_replace_eq_filter {own : List (Placed ι)} (hown : own.Pairwise Placed.Apart) (kept : List (Placed ι)) :
    own.foldl replace kept = (kept.filter fun k => own.all k.stays) ++ own :=
  foldl_replaceBy_eq_filter hown kept

/-! ### Combination -/

theorem mem_valid {path? : ι → Option String} {bin : String} {ids : List ι} {n : Placed ι} :
    n ∈ valid path? bin ids ↔ n.id ∈ ids ∧ path? n.id = some n.path ∧ Path.isUnder n.path bin = false :=
  mem_validBy

/-- Of the deepest nodes none touches another. -/
theorem pairwise_apart_deepest (path? : ι → Option String) (bin : String) (ids : List ι) :
    (deepest (valid path? bin ids)).Pairwise Placed.Apart :=
  pairwise_apart_deepestBy Path.isForestOrder path? bin ids

theorem mem_combine {kind : Hierarchy} {path? : ι → Option String} {groupIds userIds : List ι} {id : ι} :
    id ∈ combine kind path? groupIds userIds ↔
      ∃ n : Placed ι, n.id = id ∧
        (n ∈ deepest (valid path? (Path.bin kind) userIds) ∨
          n ∈ topmost (valid path? (Path.bin kind) groupIds) ∧
            ∀ u ∈ deepest (valid path? (Path.bin kind) userIds), n.Apart u) := by
  rw [combine, foldl_replace_eq_filter (pairwise_apart_deepest path? _ userIds), List.mem_map]
  refine exists_congr fun n => ?_
  rw [List.mem_append, List.mem_filter, List.all_eq_true, or_comm, and_comm]
  simp only [Placed.stays_iff]

omit [LawfulBEq ι] in
theorem mem_of_mem_valid {path? : ι → Option String} {bin : String} {ids : List ι} {n : Placed ι}
    (h : n ∈ valid path? bin ids) : n.id ∈ ids := by
  obtain ⟨id, hid, hplaced⟩ := List.mem_filterMap.mp h
  obtain ⟨path, -, hplaced⟩ := Option.bind_eq_some_iff.mp hplaced
  split at hplaced
  · cases hplaced
  · cases hplaced
    exact mem_of_mem_eraseDups hid

omit [LawfulBEq ι] in
theorem mem_of_mem_foldl_replace {own kept : List (Placed ι)} {x : Placed ι} (h : x ∈ own.foldl replace kept) :
    x ∈ own ∨ x ∈ kept := by
  induction own generalizing kept with
  | nil => exact .inr h
  | cons n own ih =>
      rcases ih h with hown | hkept
      · exact .inl (List.mem_cons_of_mem n hown)
      · rw [replace, List.mem_append, List.mem_singleton] at hkept
        rcases hkept with hkept | rfl
        · exact .inr (List.mem_of_mem_filter hkept)
        · exact .inl List.mem_cons_self

omit [LawfulBEq ι] in
/-- What is combined has been declared, however names are compared. -/
theorem mem_of_mem_combine {kind : Hierarchy} {path? : ι → Option String} {groupIds userIds : List ι} {id : ι}
    (h : id ∈ combine kind path? groupIds userIds) : id ∈ groupIds ++ userIds := by
  obtain ⟨n, hn, rfl⟩ := List.mem_map.mp h
  rw [List.mem_append]
  rcases mem_of_mem_foldl_replace hn with hown | hgroup
  · exact .inr (mem_of_mem_valid (mem_deepest.mp hown).1)
  · exact .inl (mem_of_mem_valid (mem_topmost.mp hgroup).1)

/-- The source of paths is asked for the declared nodes, unless there are none. -/
theorem combineFrom_eq_combine {ι : Type} [BEq ι] (root : ι) (paths : List ι → Except LookupError (PathTable ι))
    (kind : Hierarchy) (groupIds userIds : List ι) :
    combineFrom root paths kind groupIds userIds =
      if (declared groupIds userIds).isEmpty then .ok (combine kind (PathTable.pathFrom? [] root) groupIds userIds)
      else (paths (declared groupIds userIds)).map fun table => combine kind (table.pathFrom? root) groupIds userIds := by
  unfold combineFrom questions
  simp only
  split <;> split <;> simp_all

/-- Whatever comes out has been combined from paths of some kind. -/
theorem exists_eq_combine {ι : Type} [BEq ι] {root : ι} {paths : List ι → Except LookupError (PathTable ι)}
    {kind : Hierarchy} {groupIds userIds starts : List ι}
    (h : combineFrom root paths kind groupIds userIds = .ok starts) :
    ∃ path?, starts = combine kind path? groupIds userIds := by
  rw [combineFrom_eq_combine] at h
  split at h
  · exact ⟨_, (Except.ok.inj h).symm⟩
  · cases htable : paths (declared groupIds userIds) with
    | error e =>
        rw [htable] at h
        cases h
    | ok table =>
        rw [htable] at h
        exact ⟨_, (Except.ok.inj h).symm⟩

end StartNodes.Scope
