import StartNodes.Directory.Trees

/-!
A snapshot that is read twice, with ids for names and with items for names. As long as the first reading refuses no
name, the second comes to the same graphs, with the ids written as items, or to the same refusal. So whatever stands for
the trees, loading a snapshot is loading it into the directory of their items: `Trees.items_load`.
-/

namespace StartNodes

namespace Graph

/-- What two readings come to, the first with ids for names and the second with items: if no name is refused, the second
comes to the same, written in another way. -/
def Spells {α β : Type} (f : α → β) (x : Except SnapshotError α) (y : Except SnapshotError β) : Prop :=
  x ≠ .error .noName → y = x.map f

namespace Spells

variable {α β γ δ : Type} {f : α → β} {f' : γ → δ}

theorem ok (a : α) : Spells f (.ok a) (.ok (f a)) :=
  fun _ => rfl

theorem error (e : SnapshotError) : Spells f (.error e) (.error e) :=
  fun _ => rfl

/-- What is read without any name. -/
theorem same (x : Except SnapshotError α) : Spells id x x := by
  cases x with
  | error e => exact .error e
  | ok a => exact .ok a

theorem bind {x : Except SnapshotError α} {y : Except SnapshotError β} {k : α → Except SnapshotError γ}
    {k' : β → Except SnapshotError δ} (h : Spells f x y) (hrest : ∀ a, Spells f' (k a) (k' (f a))) :
    Spells f' (x >>= k) (y >>= k') := by
  intro hname
  cases x with
  | error e =>
      rw [h fun he => hname (by cases he; rfl)]
      rfl
  | ok a =>
      rw [h nofun]
      exact hrest a hname

theorem foldlM {σ : Type} {step : α → σ → Except SnapshotError α} {step' : β → σ → Except SnapshotError β}
    (hstep : ∀ a s, Spells f (step a s) (step' (f a) s)) (l : List σ) (a : α) :
    Spells f (l.foldlM step a) (l.foldlM step' (f a)) := by
  induction l generalizing a with
  | nil => exact .ok a
  | cons s l ih =>
      rw [List.foldlM_cons, List.foldlM_cons]
      exact (hstep a s).bind ih

end Spells

/-! ### Graphs -/

variable (g : Graph NodeId)

theorem hasNode_map_ofId (id : NodeId) : (g.map Item.ofId).hasNode (Item.ofId id) = g.hasNode id := by
  simp only [hasNode, Graph.map, List.any_map]
  rfl

theorem addNode_map_ofId (id : NodeId) (attributes : Attributes) :
    (g.map Item.ofId).addNode (Item.ofId id) attributes = (g.addNode id attributes).map Item.ofId := by
  unfold addNode
  rw [hasNode_map_ofId]
  split
  · simp only [Graph.map, List.map_map, Graph.mk.injEq, and_true]
    refine List.map_congr_left fun n _ => ?_
    simp only [Function.comp, apply_ite (Node.map Item.ofId)]
    rfl
  · simp only [Graph.map, List.map_append]
    rfl

theorem addEdge_map_ofId (source target : NodeId) (attributes : Attributes) :
    (g.map Item.ofId).addEdge (Item.ofId source) (Item.ofId target) attributes =
      (g.addEdge source target attributes).map Item.ofId := by
  unfold addEdge
  simp only [addNode_map_ofId]
  generalize (g.addNode source).addNode target = g'
  have hany : (g'.map Item.ofId).edges.any (fun e => e.joins (Item.ofId source) (Item.ofId target)) =
      g'.edges.any fun e => e.joins source target := by
    simp only [Graph.map, List.any_map]
    rfl
  rw [hany]
  split
  · simp only [Graph.map, List.map_map, Graph.mk.injEq, and_true, true_and]
    refine List.map_congr_left fun e _ => ?_
    simp only [Function.comp, apply_ite (Edge.map Item.ofId)]
    rfl
  · simp only [Graph.map, List.map_append]
    rfl

/-! ### Sections -/

theorem nameOf_spells (value : Json) : Spells Item.ofId (nameOf value) (nameOf value) := by
  cases value with
  | null => exact .error _
  | int n => exact .ok n
  | _ => exact fun hname => absurd rfl hname

variable {g}

theorem readNode_spells (index : Nat) (value : Json) :
    Spells (Graph.map Item.ofId) (g.readNode index value) ((g.map Item.ofId).readNode index value) := by
  cases value with
  | obj members =>
      unfold readNode
      dsimp only
      split
      · exact .error _
      · refine (nameOf_spells _).bind fun id => ?_
        rw [addNode_map_ofId]
        exact .ok _
  | _ => exact .error _

theorem readLink_spells (value : Json) :
    Spells (Graph.map Item.ofId) (g.readLink value) ((g.map Item.ofId).readLink value) := by
  cases value with
  | obj members =>
      refine (Spells.same _).bind fun source => (Spells.same _).bind fun target => ?_
      dsimp only [id]
      split
      · exact .error _
      · refine (nameOf_spells _).bind fun a => (nameOf_spells _).bind fun b => ?_
        rw [addEdge_map_ofId]
        exact .ok _
  | _ => exact .error _

theorem listed_spells {α β : Type} {f : α → β} {item : α → Nat → Json → Except SnapshotError α}
    {item' : β → Nat → Json → Except SnapshotError β}
    (hitem : ∀ a index value, Spells f (item a index value) (item' (f a) index value)) (a : α) (value : Json) :
    Spells f (listed item a value) (listed item' (f a) value) := by
  cases value with
  | arr items => exact Spells.foldlM (fun a row => hitem a row.2 row.1) _ a
  | obj members => exact Spells.foldlM (fun a m => hitem a 0 (.str m.1)) _ a
  | str s => exact Spells.foldlM (fun a single => hitem a 0 (.str single)) _ a
  | _ => exact .error _

theorem ofJson_spells (value : Json) : Spells (Graph.map Item.ofId) (ofJson value) (ofJson value) := by
  cases value with
  | obj members =>
      refine (Spells.same _).bind fun nodes => ?_
      refine (listed_spells (fun g index value => readNode_spells index value) _ nodes).bind fun g => ?_
      refine (Spells.same _).bind fun links => ?_
      exact listed_spells (fun g _ value => readLink_spells value) g links
  | _ => exact .error _

end Graph

namespace Directory

open StartNodes.Graph

theorem setTree_map {ι κ : Type} (f : ι → κ) (d : Directory ι) (kind : Hierarchy) (g : Graph ι) :
    (d.map f).setTree kind (g.map f) = (d.setTree kind g).map f := by
  cases kind <;> rfl

theorem loadSection_spells (d : Directory NodeId) (snapshot : Json) (kind : Hierarchy) :
    Spells (Directory.map Item.ofId) (d.loadSection snapshot kind) ((d.map Item.ofId).loadSection snapshot kind) := by
  refine (Spells.same _).bind fun found => ?_
  cases found with
  | none => exact .ok d
  | some value =>
      refine (ofJson_spells value).bind fun g => ?_
      dsimp only [pure, Except.pure]
      rw [setTree_map]
      exact .ok _

theorem loadSections_map_ofId (snapshot : Json) (kinds : List Hierarchy) (d : Directory NodeId)
    (h : (loadSections snapshot kinds d).1 ≠ some .noName) :
    loadSections snapshot kinds (d.map Item.ofId) =
      ((loadSections snapshot kinds d).1, (loadSections snapshot kinds d).2.map Item.ofId) := by
  induction kinds generalizing d with
  | nil => rfl
  | cons kind kinds ih =>
      unfold loadSections at h ⊢
      have hspells := d.loadSection_spells snapshot kind
      cases hload : d.loadSection snapshot kind with
      | error e =>
          rw [hload] at h hspells
          rw [hspells fun he => h (by cases he; rfl)]
          rfl
      | ok d' =>
          rw [hload] at h hspells
          rw [hspells nofun]
          exact ih d' h

/-- A snapshot that refuses no name does to a directory of items what it does to one of ids. -/
theorem load_map_ofId (d : Directory NodeId) {text : String} (h : (d.load text).1 ≠ some .noName) :
    (d.map Item.ofId).load text = ((d.load text).1, (d.load text).2.map Item.ofId) := by
  unfold load at h ⊢
  cases hread : Json.read snapshotRules text with
  | error e => rfl
  | ok snapshot =>
      rw [hread] at h
      exact loadSections_map_ofId snapshot _ d h

end Directory

namespace Trees

/-- Whatever stands for the trees, a snapshot is loaded into the directory of their items. -/
theorem items_load (t : Trees) (text : String) :
    (t.load text).1 = (t.items.load text).1 ∧ (t.load text).2.items = (t.items.load text).2 := by
  cases t with
  | spelled d => exact ⟨rfl, rfl⟩
  | plain d =>
      by_cases hname : (d.load text).1 = some .noName
      · have hload : (plain d).load text = (spelled (d.map Item.ofId)).load text := by
          cases hd : d.load text with
          | mk refusal d' =>
              rw [hd] at hname
              cases hname
              simp only [load, hd]
        rw [hload]
        exact ⟨rfl, rfl⟩
      · have hitems : (plain d).items = d.map Item.ofId := rfl
        rw [load_plain d hname, hitems, d.load_map_ofId hname]
        exact ⟨rfl, rfl⟩

end Trees

end StartNodes
