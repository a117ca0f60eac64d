import StartNodes.Proofs.Command.Arguments
import StartNodes.Proofs.Command.Files
import StartNodes.Proofs.Directory.Reload
import StartNodes.Proofs.Directory.Reports
import StartNodes.Proofs.Scope.Descent

/-!
Runs of commands. Each command starts from the files alone: it loads the directory, does its task and saves what it has
edited. All the same a run of commands does what a run of edits does to one directory that stays in memory: whenever a
command ends, the directory that the files hold is like the one in memory. A command that is given an option without a value
may be accepted and still have nothing to work on; then the program ends of it and leaves the files as they were.
-/

namespace StartNodes.Command

open StartNodes.Graph Text

/-! ### What commands ask for -/

namespace Task

/-- Whether a task has the values that it cannot do without: its hierarchy, and its node or the file of its principal. -/
def hasValues : Task → Bool
  | .addNode kind id _ => kind.isSome && id.isSome
  | .trash kind id => kind.isSome && id.isSome
  | .resolve kind file => kind.isSome && file.isSome
  | .check kind file _ => kind.isSome && file.isSome

/-- Whether a task is to edit the directory. -/
def isEdit : Task → Bool
  | .addNode _ _ _ => true
  | .trash _ _ => true
  | _ => false

/-- The edit that a task asks for, with its hierarchy, if it has values for all that the edit names. -/
def edit? : Task → Option (Hierarchy × Edit NodeId)
  | .addNode (some kind) (some id) (some parent) => some (kind, .add id parent)
  | .trash (some kind) (some id) => some (kind, .trash id)
  | _ => none

/-- A directory that stays in memory, after a task: an edit that fails changes nothing. -/
def apply (d : Directory NodeId) (t : Task) : Directory NodeId :=
  match t.edit? with
  | none => d
  | some (kind, e) =>
      match d.editAndReport kind e with
      | (.ok (), edited) => edited
      | (.error _, _) => d

/-- What asks for an edit has all values, and which they are. -/
theorem edit?_cases {t : Task} {kind : Hierarchy} {e : Edit NodeId} (h : t.edit? = some (kind, e)) :
    (∃ id parent, t = .addNode (some kind) (some id) (some parent) ∧ e = .add id parent) ∨
      ∃ id, t = .trash (some kind) (some id) ∧ e = .trash id := by
  unfold edit? at h
  split at h
  · cases h
    exact .inl ⟨_, _, rfl, rfl⟩
  · cases h
    exact .inr ⟨_, rfl, rfl⟩
  · cases h

theorem exists_of_isSome_and {α β : Type} {a : Option α} {b : Option β} (h : (a.isSome && b.isSome) = true) :
    ∃ x y, a = some x ∧ b = some y := by
  obtain ⟨ha, hb⟩ := Bool.and_eq_true_iff.mp h
  obtain ⟨x, hx⟩ := Option.isSome_iff_exists.mp ha
  obtain ⟨y, hy⟩ := Option.isSome_iff_exists.mp hb
  exact ⟨x, y, hx, hy⟩

/-- What asks for no edit although it has the values that it needs is a question, or it is to add a node below a parent
without a value. -/
theorem query_cases {t : Task} (h : t.edit? = none) (hvalues : t.hasValues = true) :
    (∃ kind id, t = .addNode (some kind) (some id) none) ∨
      (∃ kind file, t = .resolve (some kind) (some file)) ∨ ∃ kind file path, t = .check (some kind) (some file) path := by
  cases t with
  | addNode kind id parent =>
    obtain ⟨kind, id, rfl, rfl⟩ := exists_of_isSome_and hvalues
    cases parent with
    | some parent => cases h
    | none => exact .inl ⟨kind, id, rfl⟩
  | trash kind id =>
    obtain ⟨kind, id, rfl, rfl⟩ := exists_of_isSome_and hvalues
    cases h
  | resolve kind file =>
    obtain ⟨kind, file, rfl, rfl⟩ := exists_of_isSome_and hvalues
    exact .inr (.inl ⟨kind, file, rfl⟩)
  | check kind file path =>
    obtain ⟨kind, file, rfl, rfl⟩ := exists_of_isSome_and hvalues
    exact .inr (.inr ⟨kind, file, path, rfl⟩)

end Task

/-- A command line that is accepted. -/
structure Line where
  arguments : List String
  task : Task
  accepted : readCommandLine arguments = .task task

theorem Line.run_eq (line : Line) (fs : Files) : run fs line.arguments = runTask fs line.task := by
  rw [run, line.accepted]

/-- The directory in memory after command lines, one after the other. -/
def inMemory (lines : List Line) : Directory NodeId :=
  lines.foldl (fun d line => line.task.apply d) .seeded

/-! ### The directory that the files hold -/

/-- The files hold a directory: its saved text, or no snapshot if it is the seeded one. -/
structure Mirrors (fs : Files) (d : Directory NodeId) : Prop where
  storable : d.IsStorable
  snapshot : fs.NoSnapshot ∧ d = .seeded ∨ fs.find snapshotFile = .file (Utf8.encode d.save)

variable {fs : Files} {d : Directory NodeId}

/-- The saved text of a directory is ASCII, so it is read from its octets. -/
theorem decode_encode_save (h : d.IsStorable) : Utf8.decode (Utf8.encode d.save) = .ok d.save := by
  refine Utf8.decode_encode ?_
  rw [Directory.save, Json.write, String.toList_ofList]
  exact Json.isAscii_of_mem_writtenAt h.legible _ 0

namespace Mirrors

/-- The directory that is loaded from the files is like the one they hold. -/
theorem loadDirectory (h : Mirrors fs d) :
    ∃ loaded, Command.loadDirectory fs = .ok loaded ∧ loaded.IsStorable ∧ loaded.Like d := by
  rcases h.snapshot with ⟨hnone, rfl⟩ | hfound
  · refine ⟨.seeded, ?_, h.storable, Directory.Like.refl _⟩
    unfold Command.loadDirectory
    rw [hnone.cases.1]
  · refine ⟨d.regrouped, ?_, h.storable.regrouped, h.storable.like_regrouped.symm⟩
    have htext : readText fs snapshotFile = .ok d.save := by
      unfold readText
      rw [Files.read_snapshotFile hfound]
      simp only [decode_encode_save h.storable]
      rfl
    unfold Command.loadDirectory
    rw [hfound]
    simp only [htext, Directory.load_save h.storable]

theorem saveDirectory (h : Mirrors fs d) (edited : Directory NodeId) :
    ∃ after, Command.saveDirectory fs edited = .ok after ∧
      after.find snapshotFile = .file (Utf8.encode edited.save) := by
  have hplace : ∃ made, fs.makeDirectory dataDirectory = .ok made ∧ made.Opened ∧
      made.entryAt Files.snapshotPlace ≠ .directory := by
    rcases h.snapshot with ⟨hnone, -⟩ | hfound
    · obtain ⟨-, made, hmade, hopened, hplace⟩ := hnone.cases
      exact ⟨made, hmade, hopened, by rw [hplace]; exact nofun⟩
    · have hopened := Files.opened_of_find hfound
      refine ⟨fs, hopened.makeDirectory, hopened, ?_⟩
      rw [← hopened.find_snapshotFile, hfound]
      exact nofun
  obtain ⟨made, hmade, hopened, hplace⟩ := hplace
  obtain ⟨after, hafter, hfind⟩ := hopened.write_snapshotFile hplace (Utf8.encode edited.save)
  refine ⟨after, ?_, hfind⟩
  unfold Command.saveDirectory
  rw [hmade]
  simp only [hafter]
  rfl

end Mirrors

/-! ### One command -/

variable {t : Task} {kind : Hierarchy} {e : Edit NodeId}

theorem runTask_of_ok {output : String} {after : Files} (hkind : t.kind = some kind) (hload : loadDirectory fs = .ok d)
    (h : performAndSave fs d kind t = .ok (output, after)) :
    (runTask fs t).1.ending = .exit 0 ∧ (runTask fs t).1.output = output ∧ (runTask fs t).2 = after := by
  unfold runTask
  rw [hkind]
  simp only [hload, h]
  exact ⟨trivial, trivial, trivial⟩

theorem runTask_of_error {f : Failure} (hkind : t.kind = some kind) (hload : loadDirectory fs = .ok d)
    (h : performAndSave fs d kind t = .error f) :
    (runTask fs t).1.ending = (if f.isReported then .exit 1 else .aborted f) ∧ (runTask fs t).2 = fs := by
  unfold runTask
  rw [hkind]
  simp only [hload, h]
  split <;> exact ⟨rfl, rfl⟩

theorem performAndSave_of_error {f : Failure} (h : perform fs d kind t = .error f) :
    performAndSave fs d kind t = .error f := by
  rw [performAndSave, h]
  rfl

/-- A command that asks for an edit gives the edited directory or fails of what the edit fails of. -/
theorem perform_edit (he : t.edit? = some (kind, e)) (fs : Files) (d : Directory NodeId) :
    t.kind = some kind ∧
      (∀ f, (d.editAndReport kind e).1 = .error f → perform fs d kind t = .error (.edit f)) ∧
      ((d.editAndReport kind e).1 = .ok () →
        ∃ output, perform fs d kind t = .ok (output, some (d.editAndReport kind e).2)) := by
  obtain ⟨id, parent, rfl, rfl⟩ | ⟨id, rfl, rfl⟩ := Task.edit?_cases he
  · refine ⟨rfl, ?_⟩
    cases hedit : d.editAndReport kind (.add id parent) with
    | mk outcome edited => cases outcome <;> simp [perform, addNode, hedit, Except.map]
  · refine ⟨rfl, ?_⟩
    cases hedit : d.editAndReport kind (.trash id) with
    | mk outcome edited => cases outcome <;> simp [perform, trashNode, hedit, Except.map]

/-- The file of a principal that cannot be read, or describes none, is reported. -/
theorem isReported_of_loadPrincipal {name : String} {e : Failure} (h : loadPrincipal fs (some name) = .error e) :
    e.isReported = true := by
  unfold loadPrincipal readText at h
  cases hread : fs.read name with
  | error fault =>
    simp only [hread] at h
    cases h
    rfl
  | ok octets =>
    simp only [hread] at h
    cases hdecode : Utf8.decode octets with
    | error fault =>
      rw [hdecode] at h
      cases h
      rfl
    | ok text =>
      rw [hdecode] at h
      simp only [Except.mapError] at h
      split at h
      · cases h
        rfl
      · cases h

theorem exists_startIds (h : d.HasTrees) (kind : Hierarchy) (p : Principal) : ∃ ids, startIds d kind p = .ok ids := by
  obtain ⟨ids, hids, -⟩ := Scope.combineIds_trees (h kind) (p.groupStarts kind) (p.userStarts kind)
  refine ⟨ids, ?_⟩
  rw [startIds, hids]
  rfl

theorem exists_startPaths (h : d.HasTrees) (kind : Hierarchy) (ids : List NodeId) :
    ∃ paths, startPaths d kind ids = .ok paths := by
  obtain ⟨table, htable, -⟩ := Directory.paths_eq_ok (h kind).toIsTree (ids.filter (· != rootId))
  refine ⟨Scope.pathsOf (PathTable.path? table) ids, ?_⟩
  rw [startPaths, htable]
  rfl

/-- A part of a command gives something or fails of what is reported. -/
def Answers {α : Type} (x : Except Failure α) : Prop :=
  (∃ a, x = .ok a) ∨ ∃ e, x = .error e ∧ e.isReported = true

theorem Answers.bind {α β : Type} {x : Except Failure α} {f : α → Except Failure β} (h : Answers x)
    (hf : ∀ a, Answers (f a)) : Answers (x >>= f) := by
  rcases h with ⟨a, rfl⟩ | ⟨e, rfl, he⟩
  · exact hf a
  · exact .inr ⟨e, rfl, he⟩

theorem answers_loadPrincipal (fs : Files) (name : String) : Answers (loadPrincipal fs (some name)) := by
  cases h : loadPrincipal fs (some name) with
  | error e => exact .inr ⟨e, rfl, isReported_of_loadPrincipal h⟩
  | ok p => exact .inl ⟨p, rfl⟩

theorem answers_resolve (h : d.HasTrees) (fs : Files) (kind : Hierarchy) (file : String) :
    Answers (resolve fs d kind (some file)) := by
  unfold resolve
  refine (answers_loadPrincipal fs file).bind fun p => ?_
  refine Answers.bind (.inl (exists_startIds h kind p)) fun ids => ?_
  exact Answers.bind (.inl (exists_startPaths h kind ids)) fun paths => .inl ⟨_, rfl⟩

theorem answers_check (h : d.HasTrees) (fs : Files) (kind : Hierarchy) (file : String) (path : Option String) :
    Answers (check fs d kind (some file) path) := by
  unfold check
  refine (answers_loadPrincipal fs file).bind fun p => ?_
  refine Answers.bind (.inl (exists_startIds h kind p)) fun ids => ?_
  split
  · exact .inr ⟨_, rfl, rfl⟩
  · exact .inl ⟨_, rfl⟩

/-- A parent without a value is not there, and that is reported, unless the node is refused whatever its parent. -/
theorem addNode_none (d : Directory NodeId) (kind : Hierarchy) (id : NodeId) :
    ∃ f, addNode d kind id none = .error f ∧ f.isReported = true := by
  refine ⟨_, rfl, ?_⟩
  unfold Graph.newRefusal?
  split
  · rfl
  · split <;> rfl

theorem performAndSave_question {x : Except Failure String} (hx : Answers x)
    (h : perform fs d kind t = x.map fun output => (output, none)) :
    (∃ output, performAndSave fs d kind t = .ok (output, fs)) ∨
      ∃ f, performAndSave fs d kind t = .error f ∧ f.isReported = true := by
  obtain ⟨output, rfl⟩ | ⟨f, rfl, hreported⟩ := hx
  · refine .inl ⟨output, ?_⟩
    rw [performAndSave, h]
    rfl
  · exact .inr ⟨f, performAndSave_of_error h, hreported⟩

/-- A command that has its values and asks for no edit answers, or it fails of what is reported, and saves nothing: in trees
every node is found. If it is to edit the directory all the same, it fails. -/
theorem performAndSave_query (h : d.HasTrees) (he : t.edit? = none) (hvalues : t.hasValues = true) (fs : Files) :
    ∃ kind, t.kind = some kind ∧
      ((t.isEdit = false ∧ ∃ output, performAndSave fs d kind t = .ok (output, fs)) ∨
        ∃ f, performAndSave fs d kind t = .error f ∧ f.isReported = true) := by
  obtain ⟨kind, id, rfl⟩ | ⟨kind, file, rfl⟩ | ⟨kind, file, path, rfl⟩ := Task.query_cases he hvalues
  · obtain ⟨f, hf, hreported⟩ := addNode_none d kind id
    refine ⟨kind, rfl, .inr ⟨f, performAndSave_of_error ?_, hreported⟩⟩
    rw [perform, hf]
    rfl
  · have hperform : perform fs d kind (.resolve (some kind) (some file)) =
        (resolve fs d kind (some file)).map fun output => (output, none) := by rw [perform]
    have hanswers := performAndSave_question (answers_resolve h fs kind file) hperform
    exact ⟨kind, rfl, hanswers.imp_left fun houtput => ⟨rfl, houtput⟩⟩
  · have hperform : perform fs d kind (.check (some kind) (some file) path) =
        (check fs d kind (some file) path).map fun output => (output, none) := by rw [perform]
    have hanswers := performAndSave_question (answers_check h fs kind file path) hperform
    exact ⟨kind, rfl, hanswers.imp_left fun houtput => ⟨rfl, houtput⟩⟩

/-- A task without one of the values that it needs fails of what is not reported. -/
theorem performAndSave_valueless (hvalues : t.hasValues = false) (hkind : t.kind = some kind) (fs : Files)
    (d : Directory NodeId) : ∃ f, performAndSave fs d kind t = .error f ∧ f.isReported = false := by
  cases t with
  | addNode _ id _ | trash _ id =>
    cases hkind
    cases id with
    | none => exact ⟨.noNode, rfl, rfl⟩
    | some id => cases hvalues
  | resolve _ file | check _ file _ =>
    cases hkind
    cases file with
    | none => exact ⟨.noPrincipal, rfl, rfl⟩
    | some file => cases hvalues

/-- A node that a command line asks to add is not too long to be read. -/
theorem Line.digitCount_le (line : Line) (he : line.task.edit? = some (kind, e)) (id : NodeId) (hid : e.added? = some id) :
    Decimal.digitCount id ≤ Decimal.maxDigits := by
  have hshort := isShort_of_readCommandLine line.accepted
  obtain ⟨other, parent, htask, rfl⟩ | ⟨other, -, rfl⟩ := Task.edit?_cases he
  · cases hid
    rwa [htask] at hshort
  · cases hid

/-- In a directory that a snapshot can hold, an accepted edit is reported. -/
theorem editAndReport_eq_ok_iff (h : d.IsStorable)
    (hadded : ∀ id, e.added? = some id → Decimal.digitCount id ≤ Decimal.maxDigits) :
    (d.editAndReport kind e).1 = .ok () ↔ (d.edit kind e).1 = .ok () :=
  Directory.editAndReport_eq_ok_iff (h.trees kind).toWellFormed (h.storable kind).short
    ((h.edit kind hadded).storable kind).short

theorem isReported_edit (h : d.HasTrees) {f : EditFailure NodeId} (hf : (d.editAndReport kind e).1 = .error f) :
    (Failure.edit f).isReported = true := by
  cases f with
  | unwritable => rfl
  | refused err =>
    have hparent := (h kind).outcome_ne_noParent (edited_edit kind _ e)
    have herr := error_of_report_refused hf
    cases err with
    | noParent id => exact absurd herr (hparent id)
    | _ => rfl

/-- A command that asks for an edit ends with 0 exactly if the directory in memory can be so edited, and then the snapshot is
the saved text of the edited directory; else the files stay as they are. -/
theorem run_edit (h : Mirrors fs d) (line : Line) (he : line.task.edit? = some (kind, e)) :
    ((d.editAndReport kind e).1 = .ok () ∧ (run fs line.arguments).1.ending = .exit 0 ∧
        (run fs line.arguments).2.find snapshotFile = .file (Utf8.encode (d.editAndReport kind e).2.save)) ∨
      ((∃ f, (d.editAndReport kind e).1 = .error f) ∧ (run fs line.arguments).1.ending = .exit 1 ∧
        (run fs line.arguments).2 = fs) := by
  obtain ⟨loaded, hload, hstorable, hlike⟩ := h.loadDirectory
  obtain ⟨houtcome, hafter⟩ := hlike.edit hstorable.trees h.storable.trees kind e
  have hadded := line.digitCount_le he
  have hsame : (loaded.editAndReport kind e).1 = .ok () ↔ (d.editAndReport kind e).1 = .ok () := by
    rw [editAndReport_eq_ok_iff hstorable hadded, editAndReport_eq_ok_iff h.storable hadded, houtcome]
  obtain ⟨hkind, hfailed, hdone⟩ := perform_edit he fs loaded
  rw [line.run_eq]
  cases hedit : (loaded.editAndReport kind e).1 with
  | ok =>
    obtain ⟨output, hperform⟩ := hdone hedit
    obtain ⟨after, hsave, hfind⟩ := h.saveDirectory (loaded.edit kind e).2
    have hperformed : performAndSave fs loaded kind line.task = .ok (output, after) := by
      rw [performAndSave, hperform]
      show (saveDirectory fs (loaded.edit kind e).2 >>= fun fs => .ok (output, fs)) = _
      rw [hsave]
      rfl
    obtain ⟨hending, -, hfiles⟩ := runTask_of_ok hkind hload hperformed
    refine .inl ⟨hsame.mp hedit, hending, ?_⟩
    rw [hfiles, hfind, hafter.save_eq, Directory.editAndReport_snd]
  | error f =>
    obtain ⟨hending, hfiles⟩ := runTask_of_error hkind hload (performAndSave_of_error (hfailed f hedit))
    rw [isReported_edit hstorable.trees hedit] at hending
    refine .inr ⟨?_, hending, hfiles⟩
    cases hmemory : (d.editAndReport kind e).1 with
    | ok => exact nomatch hedit.symm.trans (hsame.mpr hmemory)
    | error f => exact ⟨f, rfl⟩

theorem run_query (h : Mirrors fs d) (line : Line) (he : line.task.edit? = none) (hvalues : line.task.hasValues = true) :
    (line.task.isEdit = false ∧ (run fs line.arguments).1.ending = .exit 0 ∨ (run fs line.arguments).1.ending = .exit 1) ∧
      (run fs line.arguments).2 = fs := by
  obtain ⟨loaded, hload, hstorable, -⟩ := h.loadDirectory
  rw [line.run_eq]
  obtain ⟨kind, hkind, ⟨hquestion, output, hperformed⟩ | ⟨f, hperformed, hreported⟩⟩ :=
    performAndSave_query hstorable.trees he hvalues fs
  · obtain ⟨hending, -, hfiles⟩ := runTask_of_ok hkind hload hperformed
    exact ⟨.inl ⟨hquestion, hending⟩, hfiles⟩
  · obtain ⟨hending, hfiles⟩ := runTask_of_error hkind hload hperformed
    rw [hreported] at hending
    exact ⟨.inr hending, hfiles⟩

theorem run_valueless (h : Mirrors fs d) (line : Line) (hvalues : line.task.hasValues = false) :
    (∃ f, (run fs line.arguments).1.ending = .aborted f) ∧ (run fs line.arguments).2 = fs := by
  obtain ⟨loaded, hload, -⟩ := h.loadDirectory
  rw [line.run_eq]
  cases hkind : line.task.kind with
  | none =>
    unfold runTask
    rw [hkind]
    exact ⟨⟨_, rfl⟩, rfl⟩
  | some kind =>
    obtain ⟨f, hperformed, hunreported⟩ := performAndSave_valueless hvalues hkind fs loaded
    obtain ⟨hending, hfiles⟩ := runTask_of_error hkind hload hperformed
    rw [hunreported] at hending
    exact ⟨⟨f, hending⟩, hfiles⟩

/-! ### Runs -/

theorem Task.apply_of_ok (he : t.edit? = some (kind, e)) (h : (d.editAndReport kind e).1 = .ok ()) :
    t.apply d = (d.editAndReport kind e).2 := by
  unfold apply
  rw [he]
  simp only
  split
  · next hedit => rw [hedit]
  · next hedit =>
    rw [hedit] at h
    cases h

theorem Task.apply_of_error (he : t.edit? = some (kind, e)) {f : EditFailure NodeId}
    (h : (d.editAndReport kind e).1 = .error f) : t.apply d = d := by
  unfold apply
  rw [he]
  simp only
  split
  · next hedit =>
    rw [hedit] at h
    cases h
  · rfl

theorem Task.apply_of_none (he : t.edit? = none) : t.apply d = d := by
  unfold apply
  rw [he]

/-- What asks for an edit has the values that it needs. -/
theorem Task.hasValues_of_edit? (he : t.edit? = some (kind, e)) : t.hasValues = true := by
  obtain ⟨id, parent, rfl, -⟩ | ⟨id, rfl, -⟩ := edit?_cases he <;> rfl

/-- The files hold the edited directory once its text is the snapshot. -/
theorem Mirrors.edited (h : Mirrors fs d) (line : Line) (he : line.task.edit? = some (kind, e)) {after : Files}
    (hfind : after.find snapshotFile = .file (Utf8.encode (d.editAndReport kind e).2.save)) :
    Mirrors after (d.editAndReport kind e).2 :=
  ⟨h.storable.edit kind (line.digitCount_le he), .inr hfind⟩

/-- After a command the files hold the directory in memory, if they held it before. -/
theorem Mirrors.run (h : Mirrors fs d) (line : Line) : Mirrors (run fs line.arguments).2 (line.task.apply d) := by
  cases he : line.task.edit? with
  | none =>
    have hfiles : (Command.run fs line.arguments).2 = fs := by
      cases hvalues : line.task.hasValues with
      | false => exact (run_valueless h line hvalues).2
      | true => exact (run_query h line he hvalues).2
    rw [hfiles, Task.apply_of_none he]
    exact h
  | some edit =>
    obtain ⟨hok, -, hfind⟩ | ⟨⟨f, hf⟩, -, hfiles⟩ := run_edit h line he
    · rw [Task.apply_of_ok he hok]
      exact h.edited line he hfind
    · rw [hfiles, Task.apply_of_error he hf]
      exact h

theorem Mirrors.runAll (h : Mirrors fs d) (lines : List Line) :
    Mirrors (runAll fs (lines.map Line.arguments)).2 (lines.foldl (fun d line => line.task.apply d) d) := by
  induction lines generalizing fs d with
  | nil => exact h
  | cons line lines ih => exact ih (h.run line)

/-- Files without a snapshot hold the seeded directory. -/
theorem mirrors_seeded (h : fs.NoSnapshot) : Mirrors fs .seeded :=
  ⟨Directory.isStorable_seeded, .inl ⟨h, rfl⟩⟩

/-- A run of commands that starts without a snapshot does what the same edits do to one directory in memory. Whatever
commands came before, a command ends with 0 or 1 if it has values for its hierarchy and for its node or the file of its
principal; without one of them it is a failure that is not reported. A command that asks for an edit ends with 0 exactly if
the directory in memory can be so edited, and then the snapshot is the saved text of the edited directory and loads to a
directory that is like it. A command that is to add a node below a parent without a value does not end with 0. What does not
end with 0, or is to edit nothing, leaves the files as they were. -/
theorem commands_simulate_directory (h : fs.NoSnapshot) (before : List Line) (line : Line) :
    let files := (Command.runAll fs (before.map Line.arguments)).2
    let ending := (Command.run files line.arguments).1.ending
    let after := (Command.run files line.arguments).2
    (line.task.hasValues = true → ending = .exit 0 ∨ ending = .exit 1) ∧
      (line.task.hasValues = false → ∃ f, ending = .aborted f) ∧
      (∀ kind e, line.task.edit? = some (kind, e) →
        (ending = .exit 0 ↔ ((inMemory before).editAndReport kind e).1 = .ok ()) ∧
        (ending = .exit 0 →
          let edited := ((inMemory before).editAndReport kind e).2
          after.find snapshotFile = .file (Utf8.encode edited.save) ∧
            ∃ loaded, loadDirectory after = .ok loaded ∧ loaded.Like edited)) ∧
      (line.task.isEdit = true → line.task.edit? = none → ending ≠ .exit 0) ∧
      (ending ≠ .exit 0 ∨ line.task.isEdit = false → after = files) := by
  intro files ending after
  have hmirrors : Mirrors files (inMemory before) := (mirrors_seeded h).runAll before
  cases hvalues : line.task.hasValues with
  | false =>
    obtain ⟨⟨f, hending⟩, hfiles⟩ := run_valueless hmirrors line hvalues
    refine ⟨nofun, fun _ => ⟨f, hending⟩, fun kind e he => ?_, fun _ _ hzero => ?_, fun _ => hfiles⟩
    · exact absurd (hvalues.symm.trans (Task.hasValues_of_edit? he)) Bool.false_ne_true
    · exact nomatch hending.symm.trans hzero
  | true =>
    cases he : line.task.edit? with
    | none =>
      obtain ⟨hending, hfiles⟩ := run_query hmirrors line he hvalues
      refine ⟨fun _ => hending.imp_left And.right, nofun, nofun, fun hedit _ hzero => ?_, fun _ => hfiles⟩
      obtain ⟨hquestion, -⟩ | hone := hending
      · exact absurd (hquestion.symm.trans hedit) Bool.false_ne_true
      · exact nomatch hone.symm.trans hzero
    | some edit =>
      obtain ⟨kind, e⟩ := edit
      have hedit : line.task.isEdit = true := by
        obtain ⟨id, parent, htask, -⟩ | ⟨id, htask, -⟩ := Task.edit?_cases he <;> rw [htask] <;> rfl
      obtain ⟨hok, hending, hfind⟩ | ⟨⟨f, hf⟩, hending, hfiles⟩ := run_edit hmirrors line he
      · refine ⟨fun _ => .inl hending, nofun, ?_, nofun, fun hnot => ?_⟩
        · rintro _ _ ⟨⟩
          obtain ⟨loaded, hload, -, hlike⟩ := (hmirrors.edited line he hfind).loadDirectory
          exact ⟨⟨fun _ => hok, fun _ => hending⟩, fun _ => ⟨hfind, loaded, hload, hlike⟩⟩
        · rw [hedit] at hnot
          exact hnot.elim (fun hnot => absurd hending hnot) nofun
      · have hnot : ending ≠ .exit 0 := fun hzero => nomatch hending.symm.trans hzero
        refine ⟨fun _ => .inr hending, nofun, ?_, nofun, fun _ => hfiles⟩
        rintro _ _ ⟨⟩
        exact ⟨⟨fun hzero => absurd hzero hnot, fun hok => nomatch hf.symm.trans hok⟩, fun hzero => absurd hzero hnot⟩

/-- A run without any files: a node is added, and another is not there to go to the recycle bin. -/
theorem commands_simulate_directory_anew :
    let added : Line := ⟨["add-node", "--id", "7"], .addNode (some .content) (some 7) (some rootId), rfl⟩
    let trashed : Line := ⟨["trash", "--id", "8"], .trash (some .content) (some 8), rfl⟩
    Files.NoSnapshot {} ∧
      (Command.run {} added.arguments).1.ending = .exit 0 ∧
      (inMemory [added]).path? .content 7 = .ok (some "-1,7") ∧
      (Command.run (Command.run {} added.arguments).2 trashed.arguments).1.ending = .exit 1 := by
  intro added trashed
  have hnone : Files.NoSnapshot {} := Files.noSnapshot_of_missing rfl rfl rfl
  obtain ⟨-, -, hadded, -⟩ := commands_simulate_directory hnone [] added
  obtain ⟨hending, -, htrashed, -⟩ := commands_simulate_directory hnone [added] trashed
  have hfailed : ((inMemory [added]).editAndReport .content (.trash 8)).1 = .error (.refused (.unknownNode .content 8)) := by
    decide
  have hone := (hending rfl).resolve_left fun hzero =>
    nomatch hfailed.symm.trans ((htrashed _ _ rfl).1.mp hzero)
  have hzero := (hadded _ _ rfl).1.mpr (by decide)
  simp only [List.map_cons, List.map_nil, Command.runAll] at hzero hone
  exact ⟨hnone, hzero, rfl, hone⟩

/-- The node is given without a value: the command line is accepted, but the run ends with neither 0 nor 1. -/
theorem commands_simulate_directory_valueless :
    Files.NoSnapshot {} ∧
      readCommandLine ["add-node", "--id=--"] = .task (.addNode (some .content) none (some rootId)) ∧
      (Command.run {} ["add-node", "--id=--"]).1.ending = .aborted .noNode ∧
      (Command.run {} ["add-node", "--id=--"]).1.ending ≠ .exit 0 ∧
      (Command.run {} ["add-node", "--id=--"]).1.ending ≠ .exit 1 := by
  have hending : (Command.run {} ["add-node", "--id=--"]).1.ending = .aborted .noNode := rfl
  refine ⟨Files.noSnapshot_of_missing rfl rfl rfl, rfl, hending, ?_, ?_⟩
  · rw [hending]
    exact nofun
  · rw [hending]
    exact nofun

end StartNodes.Command
