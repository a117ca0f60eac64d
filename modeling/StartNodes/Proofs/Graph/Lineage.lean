import StartNodes.Proofs.Graph.Edges
import Mathlib.Data.List.Chain

/-!
The chain of nodes from one node down to another, each a parent of the next. There is such a chain exactly if the
first node reaches the other.
-/

namespace StartNodes.Graph

variable {ι : Type}

/-- The nodes from one node down to another, each a parent of the next. -/
inductive Lineage (g : Graph ι) (source : ι) : ι → List ι → Prop
  | start : Lineage g source source [source]
  | child {parent id : ι} {chain : List ι} :
      Lineage g source parent chain → g.HasEdge parent id → Lineage g source id (chain ++ [id])

variable {g : Graph ι} {source id : ι} {chain : List ι}

namespace Lineage

theorem ne_nil (h : g.Lineage source id chain) : chain ≠ [] := by
  cases h <;> simp

theorem getLast? (h : g.Lineage source id chain) : chain.getLast? = some id := by
  cases h with
  | start => rfl
  | child _ _ => simp

theorem target_unique {id' : ι} (h : g.Lineage source id chain) (h' : g.Lineage source id' chain) : id = id' :=
  Option.some_inj.mp (h.getLast?.symm.trans h'.getLast?)

theorem head? (h : g.Lineage source id chain) : chain.head? = some source := by
  induction h with
  | start => rfl
  | child hp _ ih => rw [List.head?_append_of_ne_nil _ hp.ne_nil, ih]

theorem isChain (h : g.Lineage source id chain) : chain.IsChain g.HasEdge := by
  induction h with
  | start => exact List.isChain_singleton _
  | child hp hedge ih =>
      rw [List.isChain_append]
      refine ⟨ih, List.isChain_singleton _, ?_⟩
      intro x hx y hy
      rw [hp.getLast?, Option.mem_some_iff] at hx
      rw [List.head?_cons, Option.mem_some_iff] at hy
      rw [← hx, ← hy]
      exact hedge

theorem reaches (h : g.Lineage source id chain) : g.Reaches source id := by
  induction h with
  | start => exact Relation.ReflTransGen.refl
  | child _ hedge ih => exact ih.tail hedge

/-- Every node of a lineage is passed on the way down. -/
theorem between (h : g.Lineage source id chain) : ∀ x ∈ chain, g.Reaches source x ∧ g.Reaches x id := by
  induction h with
  | start =>
      intro x hx
      rw [List.mem_singleton.mp hx]
      exact ⟨Relation.ReflTransGen.refl, Relation.ReflTransGen.refl⟩
  | child hp hedge ih =>
      intro x hx
      rcases List.mem_append.mp hx with hx | hx
      · exact ⟨(ih x hx).1, (ih x hx).2.tail hedge⟩
      · rw [List.mem_singleton.mp hx]
        exact ⟨hp.reaches.tail hedge, Relation.ReflTransGen.refl⟩

theorem mem (h : g.Lineage source id chain) : id ∈ chain :=
  List.mem_of_mem_getLast? (Option.mem_def.mpr h.getLast?)

/-- A lineage continued by a chain that begins where it ends. -/
theorem append {rest : List ι} {last : ι} (h : g.Lineage source id chain)
    (hrest : (id :: rest).IsChain g.HasEdge) (hlast : (id :: rest).getLast? = some last) :
    g.Lineage source last (chain ++ rest) := by
  induction rest generalizing id chain with
  | nil =>
      rw [List.append_nil]
      rw [List.getLast?_singleton, Option.some_inj] at hlast
      exact hlast ▸ h
  | cons next rest ih =>
      obtain ⟨hedge, hrest⟩ := List.isChain_cons_cons.mp hrest
      have hnext := ih (h.child hedge) hrest (by rwa [List.getLast?_cons_cons] at hlast)
      rwa [List.append_assoc] at hnext

/-- A lineage continued by one that begins at a child of its last node. -/
theorem trans {child last : ι} {rest : List ι} (h : g.Lineage source id chain) (hedge : g.HasEdge id child)
    (hrest : g.Lineage child last rest) : g.Lineage source last (chain ++ rest) := by
  induction hrest with
  | start => exact h.child hedge
  | child _ hedge' ih =>
      rw [← List.append_assoc]
      exact ih.child hedge'

/-- A lineage is one of every graph that has the edges on the way. -/
theorem keep {g' : Graph ι} (h : g.Lineage source id chain)
    (hedges : ∀ a b, g.Reaches source a → g.HasEdge a b → g.Reaches b id → g'.HasEdge a b) :
    g'.Lineage source id chain := by
  induction h with
  | start => exact Lineage.start
  | child hp hedge ih =>
      have hparent := ih fun a b ha hab hb => hedges a b ha hab (hb.tail hedge)
      exact hparent.child (hedges _ _ hp.reaches hedge Relation.ReflTransGen.refl)

/-- A chain that leads up to a node is a lineage when it is read backwards. -/
theorem of_reverse {rest : List ι} (hchain : (id :: rest).IsChain fun a b => g.HasEdge b a)
    (hlast : (id :: rest).getLast? = some source) : g.Lineage source id (id :: rest).reverse := by
  induction rest generalizing id with
  | nil =>
      rw [List.getLast?_singleton, Option.some_inj] at hlast
      rw [List.reverse_singleton, hlast]
      exact Lineage.start
  | cons next rest ih =>
      obtain ⟨hedge, hchain⟩ := List.isChain_cons_cons.mp hchain
      rw [List.reverse_cons]
      exact (ih hchain (by rwa [List.getLast?_cons_cons] at hlast)).child hedge

end Lineage

theorem exists_lineage_of_reaches (h : g.Reaches source id) : ∃ chain, g.Lineage source id chain := by
  induction h with
  | refl => exact ⟨_, Lineage.start⟩
  | tail _ hedge ih =>
      obtain ⟨chain, hchain⟩ := ih
      exact ⟨_, hchain.child hedge⟩

end StartNodes.Graph
