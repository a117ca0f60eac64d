import StartNodes.Proofs.Directory.Respelled

/-!
What a snapshot puts in place. Its sections are read one after the other, and each is put in place before the next is
read. So a snapshot that is refused has still replaced the trees of those hierarchies whose sections were read before:
the content tree, if it is the media section that is refused.
-/

namespace StartNodes

namespace Directory

variable {ι : Type} [BEq ι] [NodeName ι]

/-- What a snapshot says of a hierarchy: its graph, or nothing. -/
def graphIn? (snapshot : Json) (kind : Hierarchy) : Except SnapshotError (Option (Graph ι)) := do
  match ← sectionOf? snapshot kind with
  | none => return none
  | some value => return some (← Graph.ofJson value)

/-- What the text of a snapshot says of a hierarchy. -/
def graphInText? (text : String) (kind : Hierarchy) : Except SnapshotError (Option (Graph ι)) :=
  match Json.read snapshotRules text with
  | .error e => .error (.text e)
  | .ok snapshot => graphIn? snapshot kind

/-- The directory with the graph that is said of a hierarchy, if one is. -/
def laid (d : Directory ι) (kind : Hierarchy) (found : Option (Graph ι)) : Directory ι :=
  d.setTree kind (found.getD (d.tree kind))

theorem loadSection_eq (d : Directory ι) (snapshot : Json) (kind : Hierarchy) :
    d.loadSection snapshot kind = (graphIn? snapshot kind).map (d.laid kind) := by
  unfold loadSection graphIn?
  cases sectionOf? snapshot kind with
  | error e => rfl
  | ok found =>
      cases found with
      | none => exact congrArg Except.ok (d.setTree_tree kind).symm
      | some value =>
          dsimp only [bind, Except.bind]
          cases (Graph.ofJson value : Except SnapshotError (Graph ι)) with
          | error e => rfl
          | ok g => rfl

/-- From one directory to another, what a snapshot says of some hierarchies has been put in place, and nothing else. -/
structure Lays (snapshot : Json) (kinds : List Hierarchy) (d d' : Directory ι) : Prop where
  read : ∀ kind ∈ kinds, ∃ found, graphIn? snapshot kind = .ok found ∧ d'.tree kind = found.getD (d.tree kind)
  others : ∀ kind ∉ kinds, d'.tree kind = d.tree kind

variable {snapshot : Json} {kind : Hierarchy} {kinds : List Hierarchy} {d d' : Directory ι}

theorem Lays.nil (d : Directory ι) : Lays snapshot [] d d :=
  ⟨nofun, fun _ _ => rfl⟩

/-- A hierarchy and then others. -/
theorem Lays.cons {found : Option (Graph ι)} (hfound : graphIn? snapshot kind = .ok found) (hkind : kind ∉ kinds)
    (h : Lays snapshot kinds (d.laid kind found) d') : Lays snapshot (kind :: kinds) d d' where
  read other hother := by
    rcases List.mem_cons.mp hother with rfl | hother
    · exact ⟨found, hfound, (h.others other hkind).trans (d.tree_setTree other _)⟩
    · obtain ⟨g, hread, htree⟩ := h.read other hother
      have hne : kind ≠ other := fun heq => hkind (heq ▸ hother)
      exact ⟨g, hread, htree.trans (congrArg g.getD (tree_setTree_of_ne hne d _))⟩
  others other hother := by
    rw [List.mem_cons, not_or] at hother
    exact (h.others other hother.2).trans (tree_setTree_of_ne (Ne.symm hother.1) d _)

/-- The sections are put in place up to the first that is refused. -/
theorem loadSections_cases (snapshot : Json) (hkinds : kinds.Nodup) (d : Directory ι) :
    (∃ d', loadSections snapshot kinds d = (none, d') ∧ Lays snapshot kinds d d') ∨
      ∃ before kind after e d', kinds = before ++ kind :: after ∧
        (graphIn? snapshot kind : Except SnapshotError (Option (Graph ι))) = .error e ∧
        loadSections snapshot kinds d = (some e, d') ∧ Lays snapshot before d d' := by
  induction kinds generalizing d with
  | nil => exact Or.inl ⟨d, rfl, .nil d⟩
  | cons kind kinds ih =>
      obtain ⟨hkind, hkinds⟩ := List.nodup_cons.mp hkinds
      unfold loadSections
      rw [loadSection_eq]
      cases hfound : (graphIn? snapshot kind : Except SnapshotError (Option (Graph ι))) with
      | error e => exact Or.inr ⟨[], kind, kinds, e, d, rfl, hfound, rfl, .nil d⟩
      | ok found =>
          rcases ih hkinds (d.laid kind found) with
            ⟨d', hload, hlays⟩ | ⟨before, bad, after, e, d', rfl, hbad, hload, hlays⟩
          · exact Or.inl ⟨d', hload, .cons hfound hkind hlays⟩
          · refine Or.inr ⟨kind :: before, bad, after, e, d', rfl, hbad, hload, .cons hfound ?_ hlays⟩
            exact fun hmem => hkind (List.mem_append_left _ hmem)

/-- How a snapshot is loaded: what it says of both hierarchies is put in place, or it is refused for what it says of one
of them. -/
theorem load_cases (d : Directory ι) (text : String) :
    (∃ d', d.load text = (none, d') ∧
        ∀ kind, ∃ found, graphInText? text kind = .ok found ∧ d'.tree kind = found.getD (d.tree kind)) ∨
      ∃ e d', d.load text = (some e, d') ∧ d'.media = d.media ∧
        ((graphInText? text .content : Except SnapshotError (Option (Graph ι))) = .error e ∧ d'.content = d.content ∨
          (graphInText? text .media : Except SnapshotError (Option (Graph ι))) = .error e ∧
            ∃ found, graphInText? text .content = .ok found ∧ d'.content = found.getD d.content) := by
  unfold load graphInText?
  cases Json.read snapshotRules text with
  | error e => exact Or.inr ⟨.text e, d, rfl, rfl, Or.inl ⟨rfl, rfl⟩⟩
  | ok snapshot =>
      have hkinds : [Hierarchy.content, .media].Nodup := by decide
      rcases loadSections_cases snapshot hkinds d with
        ⟨d', hload, hlays⟩ | ⟨before, kind, after, e, d', hsplit, hbad, hload, hlays⟩
      · exact Or.inl ⟨d', hload, fun kind => hlays.read kind (by cases kind <;> decide)⟩
      refine Or.inr ⟨e, d', hload, ?_⟩
      rcases List.cons_eq_append_iff.mp hsplit with ⟨rfl, hfirst⟩ | ⟨rest, rfl, hrest⟩
      · cases hfirst
        exact ⟨hlays.others .media nofun, Or.inl ⟨hbad, hlays.others .content nofun⟩⟩
      rcases List.cons_eq_append_iff.mp hrest with ⟨rfl, hsecond⟩ | ⟨rest, rfl, hnone⟩
      · cases hsecond
        exact ⟨hlays.others .media (by decide), Or.inr ⟨hbad, hlays.read .content (by decide)⟩⟩
      · exact absurd hnone.symm (List.append_ne_nil_of_right_ne_nil rest (List.cons_ne_nil kind after))

end Directory

namespace Trees

open Directory

/-- Loading a snapshot into any trees. It is accepted exactly if what it says of either hierarchy can be read, and then
the hierarchies that it names have its graphs and the others are as they were. If it is refused, the media tree is as it
was, but not always the content tree: where what is said of the content can be read, and it is the media that are
refused, the content tree has been replaced. -/
theorem load_outcome (t : Trees) (text : String) :
    let said : Hierarchy → Except SnapshotError (Option (Graph Item)) := graphInText? text
    let refusal := (t.load text).1
    let before := t.items
    let after := (t.load text).2.items
    (refusal = none ↔ ∀ kind, ∃ found, said kind = .ok found) ∧
      (refusal = none → ∀ kind found, said kind = .ok found → after.tree kind = found.getD (before.tree kind)) ∧
      ∀ e, refusal = some e → after.media = before.media ∧
        (said .content = .error e ∧ after.content = before.content ∨
          said .media = .error e ∧ ∃ found, said .content = .ok found ∧ after.content = found.getD before.content) := by
  intro said refusal before after
  obtain ⟨hrefusal, hafter⟩ : refusal = (before.load text).1 ∧ after = (before.load text).2 := t.items_load text
  rcases before.load_cases text with ⟨d', hload, hread⟩ | ⟨e, d', hload, hmedia, hcontent⟩ <;>
    rw [hload] at hrefusal hafter <;> subst hafter
  · refine ⟨⟨fun _ kind => ?_, fun _ => hrefusal⟩, fun _ kind found hfound => ?_,
      fun e he => (by cases hrefusal.symm.trans he)⟩ <;> obtain ⟨graph, hgraph, htree⟩ := hread kind
    · exact ⟨graph, hgraph⟩
    · cases hgraph.symm.trans hfound
      exact htree
  · refine ⟨⟨fun hnone => (by cases hrefusal.symm.trans hnone), fun hall => ?_⟩,
      fun hnone => (by cases hrefusal.symm.trans hnone), fun e' he => ?_⟩
    · rcases hcontent with ⟨hbad, _⟩ | ⟨hbad, _⟩ <;> obtain ⟨found, hfound⟩ := hall _ <;> cases hbad.symm.trans hfound
    · cases hrefusal.symm.trans he
      exact ⟨hmedia, hcontent⟩

/-- The content of this snapshot can be read, and its section for the media is empty. -/
def halfText : String :=
  "\x7b\"CONTENT\":\x7b\"directed\":true,\"multigraph\":false,\"graph\":\x7b\x7d," ++
    "\"nodes\":[\x7b\"id\":-1\x7d,\x7b\"id\":7\x7d],\"links\":[\x7b\"source\":-1,\"target\":7\x7d]\x7d,\"MEDIA\":\x7b\x7d\x7d"

theorem content_replaced_by_refused_snapshot :
    let r := seeded.load halfText
    r.1 = some (.missingKey "nodes") ∧ seeded.items.content.hasNode (Item.ofId 7) = false ∧
      r.2.items.content.hasNode (Item.ofId 7) = true := by
  decide +kernel

end Trees

end StartNodes
