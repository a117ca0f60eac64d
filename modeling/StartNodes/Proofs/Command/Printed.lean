import StartNodes.Proofs.Command.Given
import StartNodes.Proofs.Scope.ClosedForm

/-!
What the two commands print that ask about a principal. One lists the effective start nodes with their paths, which it
looks up a second time and finds again by the last node of each; the other decides on the nodes themselves and reads the
chain of the path that it is given. Both come to the same: access is given to what is, or lies under, a path that is
listed, unless it lies under the recycle bin.
-/

namespace StartNodes.Command

open StartNodes.Graph Decimal

/-! ### The directory that is loaded -/

/-- Of the files, the snapshot alone decides which directory is loaded. -/
theorem loadDirectory_congr {fs now : Files} (h : now.find snapshotFile = fs.find snapshotFile) :
    loadDirectory now = loadDirectory fs := by
  have htext : readText now snapshotFile = readText fs snapshotFile := by
    rw [readText, readText, Files.read_snapshotFile_congr h]
  rw [loadDirectory, loadDirectory, h, htext]

/-! ### Start nodes with their paths -/

/-- Nodes of a directory, each with its path there. -/
def AreRows (d : Directory NodeId) (kind : Hierarchy) (rows : List (NodeId × String)) : Prop :=
  ∀ row ∈ rows, d.path? kind row.1 = .ok (some row.2)

variable {d : Directory NodeId} {kind : Hierarchy} {rows : List (NodeId × String)}

theorem exists_rows (h : (d.tree kind).IsTreeOf kind) {ids : List NodeId} (hids : ∀ id ∈ ids, id ∈ (d.tree kind).nodeIds) :
    ∃ rows, rows.map Prod.fst = ids ∧ AreRows d kind rows := by
  induction ids with
  | nil => exact ⟨[], rfl, nofun⟩
  | cons id ids ih =>
    obtain ⟨hid, hids⟩ := List.forall_mem_cons.mp hids
    obtain ⟨rows, rfl, hrows⟩ := ih hids
    obtain ⟨chain, hchain⟩ := h.exists_lineage hid
    exact ⟨(id, Path.join chain) :: rows, rfl,
      List.forall_mem_cons.mpr ⟨Directory.path?_of_lineage h.toIsTree hchain, hrows⟩⟩

theorem AreRows.path_unique (h : AreRows d kind rows) {row row' : NodeId × String} (hrow : row ∈ rows)
    (hrow' : row' ∈ rows) (hid : row.1 = row'.1) : row.2 = row'.2 := by
  have hpath := h row hrow
  rw [hid, h row' hrow'] at hpath
  exact (Option.some.inj (Except.ok.inj hpath)).symm

theorem AreRows.eq_of_ids {rows' : List (NodeId × String)} (h : AreRows d kind rows) (h' : AreRows d kind rows')
    (hids : rows.map Prod.fst = rows'.map Prod.fst) : rows = rows' := by
  induction rows generalizing rows' with
  | nil => exact (List.map_eq_nil_iff.mp hids.symm).symm
  | cons row rows ih =>
    obtain ⟨row', rest', rfl, hid, hrest⟩ := List.map_eq_cons_iff.mp hids.symm
    obtain ⟨hrow, h⟩ := List.forall_mem_cons.mp h
    obtain ⟨hrow', h'⟩ := List.forall_mem_cons.mp h'
    rw [hid, hrow] at hrow'
    rw [ih h h' hrest.symm, Prod.ext hid.symm (Option.some.inj (Except.ok.inj hrow'))]

/-- The second look-up finds the path of each start node, of the root also, for which it does not ask. -/
theorem startPaths_rows (h : (d.tree kind).IsTreeOf kind) (hrows : AreRows d kind rows) :
    startPaths d kind (rows.map Prod.fst) = .ok (rows.map Prod.snd) := by
  obtain ⟨table, htable, hfound⟩ :=
    Directory.paths_eq_ok h.toIsTree ((rows.map Prod.fst).filter (· != rootId))
  have hpath : ∀ row ∈ rows, PathTable.path? table row.1 = some row.2 := by
    intro row hrow
    have hlisted := Directory.path?_eq_pathFrom? h.toIsTree fun hne =>
      (hfound row.1).1 (List.mem_filter.mpr ⟨List.mem_map_of_mem hrow, bne_iff_ne.mpr hne⟩)
    exact Except.ok.inj (hlisted.symm.trans (hrows row hrow))
  have hpaths : Scope.pathsOf (PathTable.path? table) (rows.map Prod.fst) = rows.map Prod.snd := by
    rw [Scope.pathsOf, List.filterMap_map, ← List.filterMap_eq_map]
    exact List.filterMap_congr hpath
  rw [startPaths, htable]
  exact congrArg Except.ok hpaths

theorem lastId_path (h : (d.tree kind).IsTreeOf kind) (hshort : ∀ x ∈ (d.tree kind).nodeIds, digitCount x ≤ maxDigits)
    {id : NodeId} {path : String} (hpath : d.path? kind id = .ok (some path)) : lastId path = some id := by
  obtain ⟨chain, hchain, hjoin⟩ := Directory.exists_lineage_of_path? h.toIsTree hpath
  have hread : Path.ids path = .ok chain := by
    rw [hjoin]
    exact Path.ids_join hchain.ne_nil fun x hx =>
      hshort x (((h.mem_lineage_iff hchain).mp hx).source_mem h.toWellFormed (h.mem_of_lineage hchain))
  rw [lastId, hread]
  exact hchain.getLast?

/-- Of the paths of some nodes the last that ends with one of the nodes is its own. -/
theorem AreRows.find_path (hrows : AreRows d kind rows) (hlast : ∀ row ∈ rows, lastId row.2 = some row.1)
    {row : NodeId × String} (hrow : row ∈ rows) :
    (rows.map Prod.snd).reverse.find? (fun path => lastId path == some row.1) = some row.2 := by
  cases hfind : (rows.map Prod.snd).reverse.find? (fun path => lastId path == some row.1) with
  | none =>
    have hnone := List.find?_eq_none.mp hfind row.2 (List.mem_reverse.mpr (List.mem_map_of_mem hrow))
    rw [hlast row hrow, beq_self_eq_true] at hnone
    exact absurd rfl hnone
  | some path =>
    obtain ⟨row', hrow', rfl⟩ := List.mem_map.mp (List.mem_reverse.mp (List.mem_of_find?_eq_some hfind))
    have hsame := List.find?_some hfind
    simp only [hlast row' hrow', beq_iff_eq] at hsame
    exact congrArg some (hrows.path_unique hrow' hrow (Option.some.inj hsame))

/-- The line of a start node. -/
def rowLine (row : NodeId × String) : String :=
  s!"  {row.1}: {row.2}"

/-- Each line has the path of its node. -/
theorem startLines_rows (hrows : AreRows d kind rows) (hlast : ∀ row ∈ rows, lastId row.2 = some row.1) :
    startLines (rows.map Prod.fst) (rows.map Prod.snd) =
      if rows.isEmpty then ["  (none)"] else rows.map rowLine := by
  rw [startLines, List.isEmpty_map, List.map_map]
  congr 1
  refine List.map_congr_left fun row hrow => ?_
  simp only [Function.comp, hrows.find_path hlast hrow, Option.getD_some, rowLine]

/-! ### Access -/

/-- Whether some paths give access to another: one of them is it, or it lies under one, and not under the recycle bin. -/
def isAllowed (kind : Hierarchy) (paths : List String) (path : String) : Bool :=
  !Path.isUnder path (Path.bin kind) && paths.any fun start => path == start || Path.isUnder path start

/-- Start nodes give access to the path of a node as their own paths do. -/
theorem hasPathAccess_rows (h : (d.tree kind).IsTreeOf kind)
    (hshort : ∀ x ∈ (d.tree kind).nodeIds, digitCount x ≤ maxDigits) (hrows : AreRows d kind rows) {id : NodeId}
    {path : String} (hpath : d.path? kind id = .ok (some path)) :
    Scope.hasPathAccess path (rows.map Prod.fst) (Path.bin kind) = .ok (isAllowed kind (rows.map Prod.snd) path) := by
  have hin : (⟨id, path⟩ : Scope.Placed NodeId).IsIn (d.tree kind) :=
    Directory.exists_lineage_of_path? h.toIsTree hpath
  have hid : id ∈ (d.tree kind).nodeIds := by
    obtain ⟨chain, hchain, -⟩ := hin
    exact h.mem_of_lineage hchain
  obtain ⟨answer, hanswer, hiff⟩ := Scope.hasPathAccess_iff h hin
    (fun x hx => hshort x (hx.source_mem h.toWellFormed hid)) (rows.map Prod.fst)
  have hreaches : ∀ row ∈ rows, (d.tree kind).Reaches row.1 id ↔ path = row.2 ∨ Path.isUnder path row.2 = true :=
    fun row hrow => Scope.reaches_iff_path h.toIsTree hin (b := ⟨row.1, row.2⟩)
      (Directory.exists_lineage_of_path? h.toIsTree (hrows row hrow))
  rw [hanswer]
  refine congrArg Except.ok ?_
  rw [Bool.eq_iff_iff, hiff, isAllowed, Bool.and_eq_true, Bool.not_eq_true', List.any_map, List.any_eq_true,
    Bool.eq_false_iff, Ne, Scope.isUnder_bin_iff h hin]
  refine and_congr_right fun _ => ?_
  simp only [List.mem_map, Function.comp, Bool.or_eq_true, beq_iff_eq]
  constructor
  · rintro ⟨_, ⟨row, hrow, rfl⟩, hstart⟩
    exact ⟨row, hrow, (hreaches row hrow).mp hstart⟩
  · rintro ⟨row, hrow, hstart⟩
    exact ⟨row.1, ⟨row, hrow, rfl⟩, (hreaches row hrow).mpr hstart⟩

/-! ### What is printed -/

/-- The effective start nodes of a principal in their order, each with its path. -/
structure AreStarts (d : Directory NodeId) (kind : Hierarchy) (p : Principal) (rows : List (NodeId × String)) : Prop where
  combined : Scope.combineIds (.trees (.plain d)) kind (p.groupStarts kind) (p.userStarts kind) = .ok (rows.map Prod.fst)
  paths : AreRows d kind rows

theorem exists_starts (h : (d.tree kind).IsTreeOf kind) (p : Principal) : ∃ rows, AreStarts d kind p rows := by
  obtain ⟨ids, hids, hiff⟩ := Scope.combineIds_trees h (p.groupStarts kind) (p.userStarts kind)
  obtain ⟨rows, rfl, hrows⟩ := exists_rows h fun id hid => ((hiff id).mp hid).stands.1
  exact ⟨rows, hids, hrows⟩

theorem AreStarts.of_like {d' : Directory NodeId} {p : Principal} (hl : d.Like d') (h : d.HasTrees) (h' : d'.HasTrees)
    (hstarts : AreStarts d kind p rows) : AreStarts d' kind p rows := by
  have hpaths : (PathSource.trees (.plain d')).paths kind = (PathSource.trees (.plain d)).paths kind := by
    funext ids
    rw [PathSource.paths, PathSource.paths, hl.paths_eq h h']
  refine ⟨?_, fun row hrow => ?_⟩
  · rw [Scope.combineIds, hpaths]
    exact hstarts.combined
  · rw [← hl.path?_eq h h']
    exact hstarts.paths row hrow

theorem AreStarts.unique {p : Principal} {rows' : List (NodeId × String)} (h : AreStarts d kind p rows)
    (h' : AreStarts d kind p rows') : rows = rows' :=
  h.paths.eq_of_ids h'.paths (Except.ok.inj (h.combined.symm.trans h'.combined))

/-- The lines that list the start nodes of a principal. -/
def listing (kind : Hierarchy) (p : Principal) (rows : List (NodeId × String)) : List String :=
  s!"Effective {kind.name} start nodes for principal {p.userId}:" ::
    if rows.isEmpty then ["  (none)"] else rows.map rowLine

/-- The line that says whether a principal has access to a path. -/
def verdict (kind : Hierarchy) (rows : List (NodeId × String)) (path : String) : String :=
  if isAllowed kind (rows.map Prod.snd) path then "ALLOWED" else "DENIED"

variable {fs : Files} {file : String} {p : Principal}

theorem AreStarts.startIds (h : AreStarts d kind p rows) : startIds d kind p = .ok (rows.map Prod.fst) := by
  rw [Command.startIds, h.combined]
  rfl

theorem resolve_eq (h : d.IsStorable) (hp : loadPrincipal fs (some file) = .ok p) (hstarts : AreStarts d kind p rows) :
    resolve fs d kind (some file) = .ok (unlines (listing kind p rows)) := by
  have hpaths := startPaths_rows (h.trees kind) hstarts.paths
  have hlines := startLines_rows hstarts.paths fun row hrow =>
    lastId_path (h.trees kind) (h.storable kind).short (hstarts.paths row hrow)
  unfold resolve
  simp only [hp, hstarts.startIds, hpaths, hlines, bind, Except.bind]
  rfl

theorem check_eq (h : d.IsStorable) (hp : loadPrincipal fs (some file) = .ok p) (hstarts : AreStarts d kind p rows)
    {id : NodeId} {path : String} (hpath : d.path? kind id = .ok (some path)) :
    check fs d kind (some file) (some path) = .ok (unlines [verdict kind rows path]) := by
  have hallowed := hasPathAccess_rows (h.trees kind) (h.storable kind).short hstarts.paths hpath
  unfold check
  simp only [hp, hstarts.startIds, hallowed, Option.getD_some, bind, Except.bind]
  rfl

/-- A command line ends well and prints some lines. -/
def Prints (fs : Files) (arguments lines : List String) : Prop :=
  (run fs arguments).1.ending = .exit 0 ∧ (run fs arguments).1.output = unlines lines

theorem prints_of_perform (hload : loadDirectory fs = .ok d) (line : Line) (hkind : line.task.kind = some kind)
    {lines : List String} (h : perform fs d kind line.task = .ok (unlines lines, none)) : Prints fs line.arguments lines := by
  have hperformed : performAndSave fs d kind line.task = .ok (unlines lines, fs) := by
    rw [performAndSave, h]
    rfl
  obtain ⟨hending, houtput, -⟩ := runTask_of_ok hkind hload hperformed
  rw [Prints, line.run_eq]
  exact ⟨hending, houtput⟩

theorem prints_listing (hload : loadDirectory fs = .ok d) (h : d.IsStorable)
    (hp : loadPrincipal fs (some file) = .ok p) (hstarts : AreStarts d kind p rows) {line : Line}
    (hline : line.task = .resolve (some kind) (some file)) : Prints fs line.arguments (listing kind p rows) := by
  have hkind : line.task.kind = some kind := by rw [hline, Task.kind]
  refine prints_of_perform hload line hkind ?_
  simp only [hline, perform, resolve_eq h hp hstarts, Except.map]

theorem prints_verdict (hload : loadDirectory fs = .ok d) (h : d.IsStorable)
    (hp : loadPrincipal fs (some file) = .ok p) (hstarts : AreStarts d kind p rows) {id : NodeId} {path : String}
    (hpath : d.path? kind id = .ok (some path)) {line : Line}
    (hline : line.task = .check (some kind) (some file) (some path)) :
    Prints fs line.arguments [verdict kind rows path] := by
  have hkind : line.task.kind = some kind := by rw [hline, Task.kind]
  refine prints_of_perform hload line hkind ?_
  simp only [hline, perform, check_eq h hp hstarts hpath, Except.map]

/-- Whatever commands have made the snapshot, and whatever else has become of the files, the two commands agree on a
principal that its file describes. The directory that is loaded is like the one in memory. One command lists the effective
start nodes in their order, each once and with its path there, or says that there are none. The other allows the path of a
node exactly if it is, or lies under, a path that is so listed, and does not lie under the recycle bin. Each of the two
ends well. -/
theorem resolve_and_check_agree {before now : Files} (h : before.NoSnapshot) (lines : List Line)
    (hnow : now.find snapshotFile = (runAll before (lines.map Line.arguments)).2.find snapshotFile) (kind : Hierarchy)
    (hp : loadPrincipal now (some file) = .ok p) :
    let d := inMemory lines
    (∃ loaded, loadDirectory now = .ok loaded ∧ loaded.Like d) ∧
      ∃ rows, AreStarts d kind p rows ∧ (rows.map Prod.fst).Nodup ∧
        (∀ line : Line, line.task = .resolve (some kind) (some file) →
          Prints now line.arguments (listing kind p rows)) ∧
        ∀ id ∈ (d.tree kind).nodeIds, ∃ path, d.path? kind id = .ok (some path) ∧
          ∀ line : Line, line.task = .check (some kind) (some file) (some path) →
            Prints now line.arguments [verdict kind rows path] := by
  intro d
  have hmirrors := (mirrors_seeded h).runAll lines
  have htrees : d.HasTrees := hmirrors.storable.trees
  obtain ⟨loaded, hload, hstorable, hlike⟩ := hmirrors.loadDirectory
  rw [← loadDirectory_congr hnow] at hload
  obtain ⟨rows, hstarts⟩ := exists_starts (hstorable.trees kind) p
  refine ⟨⟨loaded, hload, hlike⟩, rows, hstarts.of_like hlike hstorable.trees htrees,
    Scope.nodup_combineIds hstarts.combined, fun line => prints_listing hload hstorable hp hstarts, fun id hid => ?_⟩
  obtain ⟨chain, hchain⟩ := (htrees kind).exists_lineage hid
  have hpath := Directory.path?_of_lineage (htrees kind).toIsTree hchain
  have hsame := hlike.path?_eq hstorable.trees htrees kind id
  exact ⟨Path.join chain, hpath, fun line => prints_verdict hload hstorable hp hstarts (hsame.trans hpath)⟩

/-- One of the principal's groups starts in the recycle bin, another elsewhere; a third starts above the node that the
principal has as its own. The file of the principal is not there yet when the nodes are added. -/
theorem resolve_and_check_agree_trashed :
    let lines : List Line :=
      [⟨["add-node", "--id", "7"], .addNode (some .content) (some 7) (some rootId), rfl⟩,
        ⟨["add-node", "--id", "8", "--parent", "7"], .addNode (some .content) (some 8) (some 7), rfl⟩,
        ⟨["add-node", "--id", "9"], .addNode (some .content) (some 9) (some rootId), rfl⟩,
        ⟨["add-node", "--id", "10"], .addNode (some .content) (some 10) (some rootId), rfl⟩,
        ⟨["trash", "--id", "9"], .trash (some .content) (some 9), rfl⟩]
    let group := fun id : String => "\x7b\"alias\":\"g\",\"start_content_id\":" ++ id ++ "\x7d"
    let text := "\x7b\"user_id\":1,\"groups\":[" ++ ",".intercalate (["9", "10", "7"].map group) ++
      "],\"start_content_ids\":[8]\x7d"
    let now : Files :=
      ⟨[(Files.snapshotPlace, Text.Utf8.encode (inMemory lines).save), (["p.json"], Text.Utf8.encode text)],
        [Files.dataPlace]⟩
    Files.NoSnapshot {} ∧
      now.find snapshotFile = (runAll {} (lines.map Line.arguments)).2.find snapshotFile ∧
      Prints now ["resolve", "--principal=p.json", "--kind=CONTENT"]
        ["Effective CONTENT start nodes for principal 1:", "  10: -1,10", "  8: -1,7,8"] ∧
      Prints now ["check", "--principal=p.json", "--kind=CONTENT", "--path=-1,7,8"] ["ALLOWED"] ∧
      Prints now ["check", "--principal=p.json", "--kind=CONTENT", "--path=-1,-20,9"] ["DENIED"] := by
  intro lines group text now
  have hnone : Files.NoSnapshot {} := Files.noSnapshot_of_missing rfl rfl rfl
  have hnow : now.find snapshotFile = (runAll {} (lines.map Line.arguments)).2.find snapshotFile := by
    rcases ((mirrors_seeded hnone).runAll lines).snapshot with ⟨-, hseeded⟩ | hfound
    · have hnodes : (inMemory lines).content.nodeIds = Directory.seeded.content.nodeIds := by rw [← hseeded]; rfl
      exact absurd hnodes (by decide +kernel)
    · rw [hfound]
      rfl
  let p : Principal := ⟨1, "", [⟨"g", "", some 9, none⟩, ⟨"g", "", some 10, none⟩, ⟨"g", "", some 7, none⟩], [8], []⟩
  have hp : loadPrincipal now (some "p.json") = .ok p := by
    have hread : (loadPrincipal now (some "p.json")).toOption = some p := by decide +kernel
    cases hload : loadPrincipal now (some "p.json") with
    | error e =>
      rw [hload] at hread
      cases hread
    | ok p' =>
      rw [hload] at hread
      exact congrArg Except.ok (Option.some.inj hread)
  obtain ⟨-, rows, hstarts, -, hresolve, hcheck⟩ := resolve_and_check_agree hnone lines hnow .content hp
  have hpath8 : (inMemory lines).path? .content 8 = .ok (some "-1,7,8") := by decide +kernel
  have hpath9 : (inMemory lines).path? .content 9 = .ok (some "-1,-20,9") := by decide +kernel
  have hpath10 : (inMemory lines).path? .content 10 = .ok (some "-1,10") := by decide +kernel
  have hrows : rows = [(10, "-1,10"), (8, "-1,7,8")] :=
    hstarts.unique ⟨by decide +kernel, List.forall_mem_cons.mpr ⟨hpath10, List.forall_mem_singleton.mpr hpath8⟩⟩
  subst hrows
  obtain ⟨path, hpath, hallowed⟩ := hcheck 8 (by decide +kernel)
  obtain rfl : "-1,7,8" = path := Option.some.inj (Except.ok.inj (hpath8.symm.trans hpath))
  obtain ⟨path, hpath, hdenied⟩ := hcheck 9 (by decide +kernel)
  obtain rfl : "-1,-20,9" = path := Option.some.inj (Except.ok.inj (hpath9.symm.trans hpath))
  rw [show verdict .content [(10, "-1,10"), (8, "-1,7,8")] "-1,7,8" = "ALLOWED" by decide +kernel] at hallowed
  rw [show verdict .content [(10, "-1,10"), (8, "-1,7,8")] "-1,-20,9" = "DENIED" by decide +kernel] at hdenied
  rw [show listing .content p [(10, "-1,10"), (8, "-1,7,8")] =
    ["Effective CONTENT start nodes for principal 1:", "  10: -1,10", "  8: -1,7,8"] by decide +kernel] at hresolve
  refine ⟨hnone, hnow, ?_, ?_, ?_⟩
  · exact hresolve ((Task.resolve (some .content) (some "p.json")).line nofun) rfl
  · exact hallowed ((Task.check (some .content) (some "p.json") (some "-1,7,8")).line ⟨by decide, by decide⟩) rfl
  · exact hdenied ((Task.check (some .content) (some "p.json") (some "-1,-20,9")).line ⟨by decide, by decide⟩) rfl

end StartNodes.Command
