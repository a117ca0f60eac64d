import StartNodes.Command.Run
import StartNodes.Proofs.List.Lookup

/-!
The snapshot among the files: when it is there, when it can be written, and that what has been written is found again.
-/

namespace StartNodes.Command

open Text

namespace Files

/-- Where the directory of the snapshot is. -/
def dataPlace : Place := [dataDirectory]

/-- Where the snapshot is. -/
def snapshotPlace : Place := [dataDirectory, "directory.json"]

/-- There is no snapshot, and the directory that is to hold one is there or can be made. -/
def NoSnapshot (fs : Files) : Prop :=
  ∃ made, fs.makeDirectory dataDirectory = .ok made ∧ made.find snapshotFile = .missing

/-- The directory that is to hold the snapshot is there. -/
structure Opened (fs : Files) : Prop where
  root : fs.entryAt [] = .directory
  data : fs.entryAt dataPlace = .directory

variable {fs : Files}

/-! ### Following the two names -/

theorem find_dataDirectory (fs : Files) : fs.find dataDirectory = fs.follow [] dataPlace := by
  rw [find, if_neg (by decide), show way dataDirectory = ([], dataPlace) by decide]

theorem find_snapshotFile (fs : Files) : fs.find snapshotFile = fs.follow [] snapshotPlace := by
  rw [find, if_neg (by decide), show way snapshotFile = ([], snapshotPlace) by decide]

/-- The working directory is a directory, unless a file stands in its place. -/
theorem entryAt_root (fs : Files) : fs.entryAt [] = .directory ∨ ∃ octets, fs.entryAt [] = .file octets := by
  unfold entryAt
  split
  · next octets _ => exact .inr ⟨octets, rfl⟩
  · exact .inl rfl

/-- Only the way to a place can be barred. -/
theorem entryAt_ne (fs : Files) (place : Place) : fs.entryAt place ≠ .blocked ∧ fs.entryAt place ≠ .tooLong := by
  unfold entryAt
  split
  · exact ⟨nofun, nofun⟩
  · split <;> exact ⟨nofun, nofun⟩

theorem follow_data (h : fs.entryAt [] = .directory) (rest : List String) :
    fs.follow [] (dataDirectory :: rest) = fs.follow dataPlace rest := by
  rw [follow, h]
  simp only
  rw [if_neg (by decide), if_neg (by decide)]
  rfl

theorem find_dataDirectory_of_root (h : fs.entryAt [] = .directory) : fs.find dataDirectory = fs.entryAt dataPlace := by
  rw [find_dataDirectory, dataPlace, follow_data h]
  rfl

theorem find_of_root_file {octets : List UInt8} (h : fs.entryAt [] = .file octets) :
    fs.find dataDirectory = .blocked ∧ fs.find snapshotFile = .blocked := by
  constructor
  · rw [find_dataDirectory, dataPlace, follow, h]
  · rw [find_snapshotFile, snapshotPlace, follow, h]

/-- In its directory the snapshot is found at its place. -/
theorem Opened.find_snapshotFile (h : fs.Opened) : fs.find snapshotFile = fs.entryAt snapshotPlace := by
  rw [Files.find_snapshotFile, snapshotPlace, follow_data h.root, follow, h.data]
  simp only
  rw [if_neg (by decide), if_neg (by decide)]
  rfl

/-- Where the directory of the snapshot is not there, nor is the snapshot. -/
theorem find_snapshotFile_of_missing (hroot : fs.entryAt [] = .directory) (hdata : fs.entryAt dataPlace = .missing) :
    fs.find snapshotFile = .missing := by
  rw [Files.find_snapshotFile, snapshotPlace, follow_data hroot, follow, hdata]

/-- A snapshot that is found stands in its directory. -/
theorem opened_of_find {octets : List UInt8} (h : fs.find snapshotFile = .file octets) : fs.Opened := by
  rcases fs.entryAt_root with hroot | ⟨found, hroot⟩
  · refine ⟨hroot, ?_⟩
    rw [Files.find_snapshotFile, snapshotPlace, follow_data hroot, follow] at h
    cases hdata : fs.entryAt dataPlace with
    | directory => rfl
    | file | missing | blocked | tooLong =>
      rw [hdata] at h
      cases h
  · rw [(find_of_root_file hroot).2] at h
    cases h

/-! ### Making the directory -/

section Making

variable {name : String}

theorem makeDirectory_of_directory (h : fs.find name = .directory) : fs.makeDirectory name = .ok fs := by
  unfold makeDirectory
  rw [h]

theorem makeDirectory_of_file {octets : List UInt8} (h : fs.find name = .file octets) :
    fs.makeDirectory name = .error (.alreadyThere name) := by
  unfold makeDirectory
  rw [h]

theorem makeDirectory_of_missing (h : fs.find name = .missing) :
    fs.makeDirectory name = .ok (fs.goAlong (way name).1 (way name).2).1 := by
  unfold makeDirectory
  rw [h]

theorem makeDirectory_of_blocked (h : fs.find name = .blocked) :
    fs.makeDirectory name = .ok (fs.goAlong (way name).1 (way name).2).1 := by
  unfold makeDirectory
  rw [h]

end Making

theorem goAlong_dataPlace (fs : Files) :
    (fs.goAlong (way dataDirectory).1 (way dataDirectory).2).1 = fs.addDirectory dataPlace := by
  rw [show way dataDirectory = ([], dataPlace) by decide, dataPlace, goAlong, if_neg (by decide)]
  rfl

theorem files_addDirectory (fs : Files) (place : Place) : (fs.addDirectory place).files = fs.files := by
  unfold addDirectory
  split <;> rfl

theorem entryAt_congr {fs' : Files} (hfiles : fs'.files = fs.files) {place : Place}
    (hdirectory : fs'.hasDirectory place = fs.hasDirectory place) : fs'.entryAt place = fs.entryAt place := by
  rw [entryAt, entryAt, hfiles, hdirectory]

theorem Opened.makeDirectory (h : fs.Opened) : fs.makeDirectory dataDirectory = .ok fs :=
  makeDirectory_of_directory ((find_dataDirectory_of_root h.root).trans h.data)

/-- Where the directory of the snapshot is missing it is made. -/
theorem opened_addDirectory (hroot : fs.entryAt [] = .directory) (hdata : fs.entryAt dataPlace = .missing) :
    (fs.addDirectory dataPlace).Opened := by
  have hfiles := fs.files_addDirectory dataPlace
  have hthere : (fs.addDirectory dataPlace).hasDirectory dataPlace = true := by
    unfold addDirectory
    split
    · next h => exact h
    · simp [hasDirectory]
  refine ⟨?_, ?_⟩
  · rw [entryAt_congr hfiles, hroot]
    rfl
  · unfold entryAt at hdata ⊢
    rw [hfiles, hthere]
    split at hdata
    · cases hdata
    · rfl

/-- There is no snapshot where its directory is missing and nothing bars it from being made. -/
theorem noSnapshot_of_missing (hroot : fs.entryAt [] = .directory) (hdata : fs.entryAt dataPlace = .missing)
    (hplace : (fs.addDirectory dataPlace).entryAt snapshotPlace = .missing) : fs.NoSnapshot := by
  have hmakes := makeDirectory_of_missing ((find_dataDirectory_of_root hroot).trans hdata)
  rw [goAlong_dataPlace] at hmakes
  exact ⟨_, hmakes, (opened_addDirectory hroot hdata).find_snapshotFile.trans hplace⟩

/-- When no snapshot is there, none is found, and its directory is there or is made. -/
theorem NoSnapshot.cases (h : fs.NoSnapshot) :
    fs.find snapshotFile = .missing ∧
      ∃ made, fs.makeDirectory dataDirectory = .ok made ∧ made.Opened ∧ made.entryAt snapshotPlace = .missing := by
  obtain ⟨made, hmade, hnone⟩ := h
  rcases fs.entryAt_root with hroot | ⟨octets, hroot⟩
  · cases hdata : fs.entryAt dataPlace with
    | directory =>
      have hopened : fs.Opened := ⟨hroot, hdata⟩
      rw [hopened.makeDirectory] at hmade
      cases hmade
      exact ⟨hnone, fs, hopened.makeDirectory, hopened, hopened.find_snapshotFile ▸ hnone⟩
    | missing =>
      have hopened := opened_addDirectory hroot hdata
      have hmakes := makeDirectory_of_missing ((find_dataDirectory_of_root hroot).trans hdata)
      rw [goAlong_dataPlace] at hmakes
      rw [hmakes] at hmade
      cases hmade
      exact ⟨find_snapshotFile_of_missing hroot hdata, _, hmakes, hopened, hopened.find_snapshotFile ▸ hnone⟩
    | file octets =>
      rw [makeDirectory_of_file ((find_dataDirectory_of_root hroot).trans hdata)] at hmade
      cases hmade
    | blocked => exact absurd hdata (entryAt_ne fs dataPlace).1
    | tooLong => exact absurd hdata (entryAt_ne fs dataPlace).2
  · -- a file in place of the working directory still bars the way once the directory has been made
    rw [makeDirectory_of_blocked (find_of_root_file hroot).1, goAlong_dataPlace] at hmade
    cases hmade
    have hroot' : (fs.addDirectory dataPlace).entryAt [] = .file octets := by
      rw [entryAt_congr (fs.files_addDirectory dataPlace) rfl, hroot]
    rw [(find_of_root_file hroot').2] at hnone
    cases hnone

/-! ### Writing and reading the snapshot -/

theorem lookup_addFile_self (fs : Files) (place : Place) (octets : List UInt8) :
    (fs.addFile place octets).files.lookup place = some octets := by
  rw [addFile, List.lookup_append, lookup_filter_self, Option.none_or, List.lookup_cons_self]

theorem lookup_addFile_of_ne {place other : Place} (h : other ≠ place) (octets : List UInt8) :
    (fs.addFile place octets).files.lookup other = fs.files.lookup other := by
  rw [addFile, List.lookup_append, lookup_filter_of_ne h, List.lookup_cons, beq_eq_false_iff_ne.mpr h, List.lookup_nil,
    Option.or_none]

theorem put_snapshotFile (h : fs.Opened) (octets : List UInt8) :
    fs.put snapshotFile octets = fs.addFile snapshotPlace octets := by
  have hthere : fs.hasDirectory dataPlace = true := by
    have hdata := h.data
    unfold entryAt at hdata
    split at hdata
    · cases hdata
    · split at hdata
      · assumption
      · cases hdata
  have halong : fs.goAlong [] dataPlace = (fs, dataPlace) := by
    have hsame : fs.addDirectory dataPlace = fs := if_pos hthere
    rw [dataPlace, goAlong, if_neg (by decide), List.nil_append]
    exact congrArg (fun fs : Files => (fs, dataPlace)) hsame
  rw [put, show way snapshotFile = ([], snapshotPlace) by decide]
  simp only
  rw [show snapshotPlace.dropLast = dataPlace from rfl, halong]
  rfl

theorem write_of_ne {name : String} (h : fs.find name ≠ .directory) (octets : List UInt8) :
    fs.write name octets = .ok (fs.put name octets) := by
  unfold write
  split
  · next hdirectory => exact absurd hdirectory h
  · rfl

theorem Opened.addFile (h : fs.Opened) (octets : List UInt8) : (fs.addFile snapshotPlace octets).Opened := by
  have hother : ∀ place, place ≠ snapshotPlace → (fs.addFile snapshotPlace octets).entryAt place = fs.entryAt place := by
    intro place hplace
    rw [entryAt, entryAt, lookup_addFile_of_ne hplace]
    rfl
  exact ⟨(hother [] (by decide)).trans h.root, (hother dataPlace (by decide)).trans h.data⟩

/-- A snapshot that is written into its directory is found there. -/
theorem Opened.write_snapshotFile (h : fs.Opened) (hplace : fs.entryAt snapshotPlace ≠ .directory)
    (octets : List UInt8) :
    ∃ after, fs.write snapshotFile octets = .ok after ∧ after.find snapshotFile = .file octets := by
  refine ⟨fs.addFile snapshotPlace octets, ?_, ?_⟩
  · rw [write_of_ne (h.find_snapshotFile ▸ hplace), put_snapshotFile h]
  · rw [(h.addFile octets).find_snapshotFile, entryAt, lookup_addFile_self]

/-- What is read of the snapshot is what is found. -/
theorem read_snapshotFile_congr {now : Files} (h : now.find snapshotFile = fs.find snapshotFile) :
    now.read snapshotFile = fs.read snapshotFile := by
  have hnormal : FileName.normal snapshotFile = snapshotFile := by decide
  unfold read
  simp only [hnormal, h]

/-- A snapshot that is found is read. -/
theorem read_snapshotFile {octets : List UInt8} (h : fs.find snapshotFile = .file octets) :
    fs.read snapshotFile = .ok octets := by
  have hnormal : FileName.normal snapshotFile = snapshotFile := by decide
  have hencodable : Utf8.unencodableName? snapshotFile = none := by decide
  unfold read
  simp only [hnormal, hencodable]
  rw [if_neg (by decide)]
  simp only [h]

end Files

end StartNodes.Command
