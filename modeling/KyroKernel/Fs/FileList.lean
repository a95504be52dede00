import KyroKernel.Foundations.Run
import KyroKernel.Console.Formatters
import KyroKernel.Fs.FileTable

/-!
# The file table implements a list of files

Every call is an operation on the list of entries: it appends one, removes one, changes the
content of one, or leaves the list alone. The strings in the records stay inside their fields.
-/

namespace KyroKernel

open Foundations

/-! ## §1 The list -/

/-- A list with a first entry of this name, the entries before it and those after it. -/
structure FirstNamed (name : List Byte) (files pre post : List File) (file : File) : Prop where
  list : files = pre ++ file :: post
  named : file.nameString = name
  before : ∀ g ∈ pre, g.nameString ≠ name

/-- What a call does to the list of entries. -/
def ListStep (s : FileSystem) (call : FsCall) (r : FsResult) : Prop :=
  match call with
  | .fsInit => r.state.files = []
  | .createFile name isDirectory => Appends name isDirectory
  | .createDirectory name => Appends name true
  | .deleteFile name =>
    (r.result = true → ∃ pre file post, FirstNamed name.toList s.files pre post file ∧
      r.state.files = pre ++ post) ∧
    (r.result = false → r.state.files = s.files)
  | .deleteDirectory name =>
    (r.result = true → ∃ pre file post, FirstNamed name.toList s.files pre post file ∧
      file.isDirectory = true ∧ r.state.files = pre ++ post) ∧
    (r.result = false → r.state.files = s.files)
  | .readFile _ => r.state.files = s.files
  | .writeFile name content =>
    (r.result = true → ∃ pre file file' post, FirstNamed name.toList s.files pre post file ∧
      r.state.files = pre ++ file' :: post ∧ file'.name = file.name ∧
      file'.isDirectory = file.isDirectory ∧
      file'.contentString = content.toList.take 255 ∧
      -- A following `read_file` prints the new content.
      (readFile r.state name).result = true ∧
      (readFile r.state name).output = content.toList.take 255 ++ chars "\n") ∧
    (r.result = false → r.state.files = s.files)
where
  /-- A new entry with empty content comes last. -/
  Appends (name : CString) (isDirectory : Bool) : Prop :=
    (r.result = true → ∃ file : File, r.state.files = s.files ++ [file] ∧
      file.nameString = name.toList ∧ file.contentString = [] ∧
      file.isDirectory = isDirectory) ∧
    (r.result = false → r.state.files = s.files)

/-! ## §2 The invariant -/

/-- The fields have their sizes, and a NUL in each. -/
structure FileOk (file : File) : Prop where
  name_length : file.name.length = filenameLength
  content_length : file.content.length = fileContentLength
  name_terminated : Terminated file.name
  content_terminated : Terminated file.content

/-- The invariant of the table: the count is in range and every record of the array is fine. -/
structure TableInv (s : FileSystem) : Prop where
  count_nonneg : 0 ≤ s.fileCount
  count_le : s.fileCount ≤ 5000
  records : ∀ i, FileOk (s.fileList i)

variable {s : FileSystem} {name : CString} {file : File} {i : Int}

theorem tableInv_empty : TableInv emptyFileSystem where
  count_nonneg := Int.le_refl _
  count_le := by decide
  records := fun _ =>
    ⟨List.length_replicate, List.length_replicate, List.mem_replicate.mpr ⟨by decide, rfl⟩,
      List.mem_replicate.mpr ⟨by decide, rfl⟩⟩

/-- Changing a record to a fine one. -/
theorem TableInv.setFile (h : TableInv s) (hfile : FileOk file) (i : Int) :
    TableInv (s.setFile i file) where
  count_nonneg := h.count_nonneg
  count_le := h.count_le
  records := by
    intro j
    -- One record changes.
    by_cases hj : j = i
    · rw [hj, setFile_self]
      exact hfile
    · rw [setFile_of_ne s hj]
      exact h.records j

/-- Moving records down. -/
theorem TableInv.remove (h : TableInv s) (hpos : 0 < s.fileCount) : TableInv (removeFile s i) where
  count_nonneg := by
    simp only [removeFile]
    omega
  count_le := by
    have := h.count_le
    simp only [removeFile]
    omega
  records := by
    intro j
    -- Every record is an old one, perhaps from one place above.
    have hrow : (removeFile s i).fileList j =
        shiftRows s.fileList i (s.fileCount - 1 - i).toNat j := rfl
    rw [hrow, shiftRows_apply]
    split
    · exact h.records (j + 1)
    · exact h.records j

/-! ## §3 Searches -/

/-- The comparison of the search loops. -/
theorem strcmp_name (file : File) (name : CString) :
    (strcmp file.name name.toList == 0) = true ↔ file.nameString = name.toList :=
  strcmp_string file.name name

/-- A search that succeeds. -/
theorem findFile_some (h : TableInv s) (hfind : findFile s name.toList = some i) :
    0 < s.fileCount ∧ ∃ pre post, FirstNamed name.toList s.files pre post (s.fileList i) ∧
      (removeFile s i).files = pre ++ post ∧
      ∀ file, (s.setFile i file).files = pre ++ file :: post := by
  obtain ⟨pre, post, hrow⟩ := exists_firstRow hfind
  have hnonneg := h.count_nonneg
  have hlt := hrow.lt
  have hlo := hrow.nonneg
  refine ⟨by omega, pre, post, ⟨hrow.list, (strcmp_name _ _).mp hrow.hit, ?_⟩, ?_, hrow.replaced⟩
  · intro g hg hname
    have := hrow.before g hg
    rw [(strcmp_name _ _).mpr hname] at this
    cases this
  · exact hrow.removed (s.fileCount - 1) (by omega)

/-- An entry of this name is found. -/
theorem exists_findFile (hfile : file ∈ s.files) (hname : file.nameString = name.toList) :
    ∃ i, findFile s name.toList = some i :=
  exists_findRow hfile ((strcmp_name _ _).mpr hname)

/-- A search does not depend on anything but the names. -/
theorem findFile_setFile (hname : file.name = (s.fileList i).name) (key : List Byte) :
    findFile (s.setFile i file) key = findFile s key := by
  apply findRow_congr
  intro j
  by_cases hj : j = i
  · rw [hj, setFile_self, hname]
  · rw [setFile_of_ne s hj]

/-! ## §4 The calls -/

/-- When `create_file` succeeds. -/
def CanCreate (s : FileSystem) (name : CString) : Prop :=
  s.fileCount < 5000 ∧ 0 < name.toList.length ∧ name.toList.length < 50

/-- `create_file` fails without a trace, or appends an empty entry. -/
theorem createFile_cases (h : TableInv s) (name : CString) (isDirectory : Bool) :
    (¬ CanCreate s name ∧ ∃ message, createFile s name isDirectory = fsFail s message) ∨
    (CanCreate s name ∧ (createFile s name isDirectory).result = true ∧
      TableInv (createFile s name isDirectory).state ∧
      ∃ file : File, (createFile s name isDirectory).state.files = s.files ++ [file] ∧
        file.nameString = name.toList ∧ file.contentString = [] ∧
        file.isDirectory = isDirectory) := by
  unfold createFile
  rw [strlen_string]
  -- The three checks, in their order.
  by_cases hfull : s.fileCount ≥ maxFiles
  · left
    exact ⟨fun hc => absurd hc.1 (Int.not_lt.mpr hfull), _, if_pos hfull⟩
  by_cases hempty : name.toList.length = 0
  · left
    rw [if_neg hfull, if_pos hempty]
    exact ⟨fun hc => absurd hempty (Nat.ne_of_gt hc.2.1), _, rfl⟩
  by_cases hlong : name.toList.length ≥ filenameLength
  · left
    rw [if_neg hfull, if_neg hempty, if_pos hlong]
    exact ⟨fun hc => absurd hc.2.2 (Nat.not_lt.mpr hlong), _, rfl⟩
  · right
    rw [if_neg hfull, if_neg hempty, if_neg hlong]
    have hlt : s.fileCount < 5000 := Int.not_le.mp hfull
    have hshort : name.toList.length < filenameLength := Nat.not_le.mp hlong
    have hnonneg := h.count_nonneg
    obtain ⟨hname, hcontent, -, -⟩ := h.records s.fileCount
    have hset : (s.fileList s.fileCount).content.set 0 0 =
        0 :: (s.fileList s.fileCount).content.drop 1 := by
      rw [fileContentLength] at hcontent
      obtain ⟨c, rest, hrest⟩ := List.exists_cons_of_length_eq_add_one hcontent
      rw [hrest]
      rfl
    -- The record that goes into the first free place.
    have hok : FileOk (newFile (s.fileList s.fileCount) name isDirectory) :=
      { name_length := by
          rw [newFile, strcpy_length name.nul_free (by rw [hname]; exact hshort), hname]
        content_length := by rw [newFile, List.length_set, hcontent]
        name_terminated := terminated_strcpy name.nul_free _
        content_terminated := by
          rw [newFile, hset]
          exact List.mem_cons_self }
    have hinv := h.setFile hok s.fileCount
    refine ⟨⟨hlt, Nat.pos_of_ne_zero hempty, hshort⟩, rfl,
      ⟨by simp only; omega, by simp only; omega, hinv.records⟩,
      newFile (s.fileList s.fileCount) name isDirectory, ?_, cstr_strcpy name.nul_free _, ?_, rfl⟩
    · have hcount : (s.fileCount + 1).toNat = s.fileCount.toNat + 1 := by omega
      have happend := tableList_append s.fileList s.fileCount.toNat
        (newFile (s.fileList s.fileCount) name isDirectory)
      rw [Int.toNat_of_nonneg hnonneg] at happend
      simp only [FileSystem.files, FileSystem.setFile, hcount]
      exact happend
    · rw [File.contentString, newFile, hset, cstr_nul]

/-- What `write_file` leaves in the field: the first 255 bytes of the string. -/
theorem writtenContent {field : List Byte} (hfield : field.length = fileContentLength)
    (content : CString) :
    ((strncpy field content.toList (fileContentLength - 1)).set (fileContentLength - 1) 0).length =
      fileContentLength ∧
    Terminated ((strncpy field content.toList (fileContentLength - 1)).set
      (fileContentLength - 1) 0) ∧
    cstr ((strncpy field content.toList (fileContentLength - 1)).set (fileContentLength - 1) 0) =
      content.toList.take 255 := by
  have hfree := content.nul_free
  have hlast : fileContentLength - 1 = 255 := rfl
  have hsize : fileContentLength = 256 := rfl
  rw [hsize] at hfield
  rw [hlast, hsize]
  by_cases hlen : 255 ≤ content.toList.length
  · -- Cut: the copy fills 255 bytes, and the last byte becomes the NUL.
    obtain ⟨d, hd⟩ : ∃ d, field.drop 255 = [d] := by
      apply List.length_eq_one_iff.mp
      rw [List.length_drop, hfield]
    have htake : (content.toList.take 255).length = 255 := by
      rw [List.length_take]
      omega
    have hresult : (content.toList.take 255 ++ [d]).set 255 0 = content.toList.take 255 ++ [0] := by
      rw [List.set_append_right _ _ (by omega), htake]
      rfl
    have hnul : (0 : Byte) ∉ content.toList.take 255 := fun h => hfree (List.mem_of_mem_take h)
    rw [strncpy_of_le hfree hlen (by omega), hd, hresult]
    refine ⟨by rw [List.length_append, htake]; rfl, ?_, cstr_append_nul hnul⟩
    exact List.mem_append_right _ List.mem_cons_self
  · -- Padded: the extra NUL of `strncpy` is the last byte of the field.
    have hshort : content.toList.length < 255 := Nat.lt_of_not_le hlen
    have hdrop : field.drop (255 + 1) = [] := List.drop_of_length_le (by omega)
    obtain ⟨k, hk⟩ : ∃ k, 255 - content.toList.length = k + 1 := ⟨254 - content.toList.length, by omega⟩
    have hresult : (content.toList ++ List.replicate (k + 1 + 1) (0 : Byte)).set 255 0 =
        content.toList ++ 0 :: List.replicate (k + 1) 0 := by
      have hindex : 255 - content.toList.length = k + 1 := hk
      rw [List.set_append_right _ _ (by omega), hindex, List.replicate_succ]
      have hset : ∀ n, (List.replicate (n + 1) (0 : Byte)).set n 0 = List.replicate (n + 1) 0 := by
        intro n
        exact List.set_replicate_self
      rw [List.set_cons_succ, hset]
    rw [strncpy_of_lt hfree hshort (by omega), hdrop, List.append_nil, hk, hresult,
      List.take_of_length_le (by omega)]
    refine ⟨?_, List.mem_append_right _ List.mem_cons_self, cstr_append_nul hfree⟩
    rw [List.length_append, List.length_cons, List.length_replicate]
    omega

theorem printed_content (content : CString) :
    printed (chars "%s\n") [.string (some content)] = content.toList ++ chars "\n" := by
  obtain ⟨p, hp, hout⟩ := printf_line content
  rw [printed, hp]
  exact hout

/-- `read_file` of the first file of this name prints its content. -/
theorem readFile_of_find (hfind : findFile s name.toList = some i)
    (hfile : (s.fileList i).isDirectory = false) :
    (readFile s name).result = true ∧
      (readFile s name).output = (s.fileList i).contentString ++ chars "\n" := by
  unfold readFile
  rw [hfind]
  simp only [hfile, Bool.not_false, if_true]
  exact ⟨trivial, printed_content _⟩

/-- `write_file` of the first file of this name, and reading it back. -/
theorem writeFile_of_find (h : TableInv s) (content : CString)
    (hfind : findFile s name.toList = some i) (hfile : (s.fileList i).isDirectory = false) :
    ∃ file', writeFile s name content = ⟨true, [], s.setFile i file'⟩ ∧ FileOk file' ∧
      file'.name = (s.fileList i).name ∧ file'.isDirectory = (s.fileList i).isDirectory ∧
      file'.contentString = content.toList.take 255 ∧
      (readFile (s.setFile i file') name).result = true ∧
      (readFile (s.setFile i file') name).output = content.toList.take 255 ++ chars "\n" := by
  obtain ⟨hname, hcontent, hterm, -⟩ := h.records i
  obtain ⟨hlen, hterm', hcstr⟩ := writtenContent hcontent content
  have hwrite : writeFile s name content =
      ⟨true, [], s.setFile i (writtenFile (s.fileList i) content)⟩ := by
    unfold writeFile
    rw [hfind]
    simp only [hfile, Bool.not_false, if_true]
  refine ⟨writtenFile (s.fileList i) content, hwrite, ⟨hname, hlen, hterm, hterm'⟩, rfl, rfl,
    hcstr, ?_⟩
  -- The name is as before, so the search finds the same entry.
  have hsame : (writtenFile (s.fileList i) content).name = (s.fileList i).name := rfl
  have hagain : findFile (s.setFile i (writtenFile (s.fileList i) content)) name.toList = some i :=
    (findFile_setFile hsame name.toList).trans hfind
  have hread := readFile_of_find hagain (by rw [setFile_self]; exact hfile)
  have hcontent' : (writtenFile (s.fileList i) content).contentString = content.toList.take 255 :=
    hcstr
  rw [setFile_self, hcontent'] at hread
  exact hread

/-- Every call keeps the invariant and is an operation on the list. -/
theorem FsCall.exec_spec (h : TableInv s) (call : FsCall) :
    TableInv (call.exec s).state ∧ ListStep s call (call.exec s) := by
  have hcreate : ∀ (name : CString) (isDirectory : Bool),
      TableInv (KyroKernel.createFile s name isDirectory).state ∧
        ListStep.Appends s (KyroKernel.createFile s name isDirectory) name isDirectory := by
    intro name isDirectory
    rcases createFile_cases h name isDirectory with
      ⟨-, message, hfail⟩ | ⟨-, hresult, hinv, file, hfile⟩
    · rw [hfail]
      exact ⟨h, fun hr => (nomatch hr), fun _ => rfl⟩
    · refine ⟨hinv, fun _ => ⟨file, hfile⟩, fun hr => ?_⟩
      rw [hresult] at hr
      cases hr
  cases call with
  | fsInit => exact ⟨⟨Int.le_refl _, Int.natCast_nonneg 5000, h.records⟩, rfl⟩
  | createFile name isDirectory => exact hcreate name isDirectory
  | createDirectory name => exact hcreate name true
  | deleteFile name =>
    simp only [FsCall.exec, KyroKernel.deleteFile]
    cases hfind : findFile s name.toList with
    | none => exact ⟨h, fun hr => (nomatch hr), fun _ => rfl⟩
    | some i =>
      obtain ⟨hpos, pre, post, hfirst, hremoved, -⟩ := findFile_some h hfind
      exact ⟨h.remove hpos, fun _ => ⟨pre, _, post, hfirst, hremoved⟩, fun hr => (nomatch hr)⟩
  | deleteDirectory name =>
    simp only [FsCall.exec, KyroKernel.deleteDirectory]
    cases hfind : findFile s name.toList with
    | none => exact ⟨h, fun hr => (nomatch hr), fun _ => rfl⟩
    | some i =>
      obtain ⟨hpos, pre, post, hfirst, hremoved, -⟩ := findFile_some h hfind
      by_cases hdir : (s.fileList i).isDirectory = true
      · simp only [if_pos hdir]
        exact ⟨h.remove hpos, fun _ => ⟨pre, _, post, hfirst, hdir, hremoved⟩,
          fun hr => (nomatch hr)⟩
      · simp only [if_neg hdir]
        exact ⟨h, fun hr => (nomatch hr), fun _ => rfl⟩
  | readFile name =>
    simp only [FsCall.exec, KyroKernel.readFile]
    cases hfind : findFile s name.toList with
    | none => exact ⟨h, rfl⟩
    | some i =>
      by_cases hdir : (s.fileList i).isDirectory = true
      · simp only [hdir]
        exact ⟨h, rfl⟩
      · simp only [Bool.eq_false_iff.mpr hdir]
        exact ⟨h, rfl⟩
  | writeFile name content =>
    cases hfind : findFile s name.toList with
    | none =>
      simp only [FsCall.exec, KyroKernel.writeFile, hfind]
      exact ⟨h, fun hr => (nomatch hr), fun _ => rfl⟩
    | some i =>
      by_cases hdir : (s.fileList i).isDirectory = true
      · simp only [FsCall.exec, KyroKernel.writeFile, hfind, hdir]
        exact ⟨h, fun hr => (nomatch hr), fun _ => rfl⟩
      · obtain ⟨-, pre, post, hfirst, -, hreplaced⟩ := findFile_some h hfind
        obtain ⟨file', hwrite, hok, hname, hsame, hcontent, hread⟩ :=
          writeFile_of_find h content hfind (Bool.eq_false_iff.mpr hdir)
        simp only [FsCall.exec, hwrite]
        exact ⟨h.setFile hok i, fun _ =>
          ⟨pre, _, file', post, hfirst, hreplaced file', hname, hsame, hcontent, hread⟩,
          fun hr => (nomatch hr)⟩

/-! ## §5 Runs -/

/-- What holds of the table itself: the count, and the strings in their fields. -/
structure TableOk (s : FileSystem) : Prop where
  count_range : 0 ≤ s.fileCount ∧ s.fileCount ≤ 5000
  files_length : s.files.length = s.fileCount.toNat
  name_terminated : ∀ file ∈ s.files, file.name.length = 50 ∧ Terminated file.name
  content_terminated : ∀ file ∈ s.files, file.content.length = 256 ∧ Terminated file.content

theorem TableInv.tableOk (h : TableInv s) : TableOk s := by
  have hrecord : ∀ file ∈ s.files, FileOk file := by
    intro file hfile
    obtain ⟨j, -, -, rfl⟩ := mem_rowsFrom.mp hfile
    exact h.records j
  exact
    { count_range := ⟨h.count_nonneg, h.count_le⟩
      files_length := rowsFrom_length _ _ _
      name_terminated := fun file hfile =>
        ⟨(hrecord file hfile).name_length, (hrecord file hfile).name_terminated⟩
      content_terminated := fun file hfile =>
        ⟨(hrecord file hfile).content_length, (hrecord file hfile).content_terminated⟩ }

/-- The runs of calls from the empty table. -/
abbrev FsRun (tr : List (FileSystem × FsCall)) (s : FileSystem) : Prop :=
  Run (· = emptyFileSystem) FsStep tr s

theorem TableInv.of_run {tr : List (FileSystem × FsCall)} (h : FsRun tr s) : TableInv s := by
  apply Run.inv TableInv ?_ ?_ h
  · rintro _ rfl
    exact tableInv_empty
  · rintro s call _ hs rfl
    exact (FsCall.exec_spec hs call).1

/-- After every run the table is in order, and every next call is an operation on the list of
entries. -/
theorem fileTable_implements_list {tr : List (FileSystem × FsCall)} (h : FsRun tr s) :
    TableOk s ∧ ∀ call : FsCall, ListStep s call (call.exec s) :=
  ⟨(TableInv.of_run h).tableOk, fun call => (FsCall.exec_spec (TableInv.of_run h) call).2⟩

/-- A name of one letter. -/
def nameA : CString := ⟨chars "a", by decide⟩


theorem nul_notMem_nameB : (0 : Byte) ∉ chars "b" := by decide

def nameB : CString := ⟨chars "b", nul_notMem_nameB⟩

/-- A run of these calls from the empty table, and what is computed of it. -/
theorem exists_fsRun (calls : List FsCall) (P : List (FileSystem × FsCall) → FileSystem → Prop)
    [∀ tr s, Decidable (P tr s)]
    (h : (Run.follow (fun s call => some (FsCall.exec s call).state) [] emptyFileSystem calls).any
      (fun r => P r.1 r.2) = true) : ∃ tr s, FsRun tr s ∧ P tr s := by
  have hrun : FsRun [] emptyFileSystem := .start rfl
  exact hrun.exists_of_follow (fun _ hexec => (Option.some.inj hexec).symm) P h

/-- Two files are created, the second one is written and the first one deleted. -/
theorem fileTable_implements_list_written : ∃ tr s, FsRun tr s ∧
    s.files.map (fun file => (file.nameString, file.contentString)) =
      [(nameB.toList, nameA.toList)] ∧
    TableOk s ∧ ∀ call : FsCall, ListStep s call (call.exec s) := by
  obtain ⟨tr, s, hrun, hfiles⟩ := exists_fsRun
    [.createFile nameA false, .createFile nameB false, .writeFile nameB nameA, .deleteFile nameA]
    (fun _ s => s.files.map (fun file => (file.nameString, file.contentString)) =
      [(nameB.toList, nameA.toList)]) (by decide)
  exact ⟨tr, s, hrun, hfiles, fileTable_implements_list hrun⟩

end KyroKernel
