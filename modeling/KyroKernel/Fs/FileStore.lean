import KyroKernel.Foundations.Refinement
import KyroKernel.Fs.FileList
import KyroKernel.Fs.Listing

/-!
# What the file system is for

A store of named files and directories, with no arrays, no counts and no bytes after a NUL. The
functions of `kernel/fs.c` give the answers of the store, to the last character that they print, in
every sequence of calls.
-/

namespace KyroKernel

open Foundations

/-! ## §1 The store -/

/-- A file or directory, as the callers know it. -/
structure StoredFile where
  name : List Byte
  isDirectory : Bool
  content : List Byte

/-- The files and directories, oldest first. Names need not be unique. -/
abbrev FileStore := List StoredFile

/-- Whether a call succeeds, and what it prints. -/
abbrev FileAnswer := Bool × List Byte

/-- A file of this name. -/
def StoredFile.named (name : CString) (file : StoredFile) : Bool := file.name == name.toList

namespace FileStore

/-- A call that fails. -/
def refuse (store : FileStore) (message : String) : FileAnswer × FileStore :=
  ((false, chars message), store)

/-- An empty file or directory comes last, whether or not the name is in use. -/
def create (store : FileStore) (name : CString) (isDirectory : Bool) : FileAnswer × FileStore :=
  if 5000 ≤ store.length then store.refuse "File limit reached.\n"
  else if name.toList = [] then store.refuse "Filename cannot be empty.\n"
  else if 50 ≤ name.toList.length then store.refuse "Filename too long.\n"
  else ((true, []), store ++ [⟨name.toList, isDirectory, []⟩])

/-- The oldest of this name goes. -/
def delete (store : FileStore) (name : CString) : FileAnswer × FileStore :=
  match store.find? (StoredFile.named name) with
  | some _ => ((true, []), store.eraseP (StoredFile.named name))
  | none => store.refuse "File not found.\n"

def deleteDirectory (store : FileStore) (name : CString) : FileAnswer × FileStore :=
  match store.find? (StoredFile.named name) with
  | some file =>
    if file.isDirectory then ((true, []), store.eraseP (StoredFile.named name))
    else store.refuse "Not a directory.\n"
  | none => store.refuse "Directory not found.\n"

def read (store : FileStore) (name : CString) : FileAnswer × FileStore :=
  match store.find? (StoredFile.named name) with
  | some file =>
    if file.isDirectory then store.refuse "Cannot read directory.\n"
    else ((true, file.content ++ chars "\n"), store)
  | none => store.refuse "File not found.\n"

/-- The oldest of this name gets the first 255 characters. -/
def write (store : FileStore) (name content : CString) : FileAnswer × FileStore :=
  match store.find? (StoredFile.named name) with
  | some file =>
    if file.isDirectory then store.refuse "Cannot write to directory.\n"
    else ((true, []), store.lookmap fun f =>
      if f.named name then some { f with content := content.toList.take 255 } else none)
  | none => store.refuse "File not found.\n"

/-- One line for each, with a slash behind the name of a directory. -/
def list (store : FileStore) : FileAnswer × FileStore :=
  ((true, chars "Files:\n" ++
    joinLines (ascii '\n') (store.map fun file => listedName (file.name, file.isDirectory))), store)

end FileStore

/-- The calls, with `list_files`. -/
inductive FileCall where
  | fs (call : FsCall)
  | listFiles

/-- Carry out a call on the store. -/
def FileCall.onStore (store : FileStore) : FileCall → FileAnswer × FileStore
  | .fs .fsInit => ((true, chars "File system initialized.\n"), [])
  | .fs (.createFile name isDirectory) => store.create name isDirectory
  | .fs (.createDirectory name) => store.create name true
  | .fs (.deleteFile name) => store.delete name
  | .fs (.deleteDirectory name) => store.deleteDirectory name
  | .fs (.readFile name) => store.read name
  | .fs (.writeFile name content) => store.write name content
  | .listFiles => store.list

/-! ## §2 The table stands for a store -/

/-- What a call returns and prints, and the table after it. -/
def FsResult.answer (r : FsResult) : FileAnswer × FileSystem := ((r.result, r.output), r.state)

/-- Carry out a call on the table. -/
def FileCall.exec (s : FileSystem) : FileCall → FileAnswer × FileSystem
  | .fs call => (call.exec s).answer
  | .listFiles => (KyroKernel.listFiles s).answer

def File.stored (file : File) : StoredFile :=
  ⟨file.nameString, file.isDirectory, file.contentString⟩

def FileSystem.store (s : FileSystem) : FileStore := s.files.map File.stored

variable {s : FileSystem} {name : CString} {i : Int}

theorem named_stored (name : CString) (file : File) :
    file.stored.named name = (strcmp file.name name.toList == 0) := by
  rw [Bool.eq_iff_iff, strcmp_name]
  exact beq_iff_eq

/-- A search of the table that succeeds is a search of the store, and the loops that remove or
change the entry found do the same to the store. -/
theorem exists_firstHit (h : TableInv s) (hfind : findFile s name.toList = some i) :
    ∃ pre post, FirstHit (StoredFile.named name) s.store pre post (s.fileList i).stored ∧
      (removeFile s i).store = pre ++ post ∧
      ∀ file : File, (s.setFile i file).store = pre ++ file.stored :: post := by
  obtain ⟨-, pre, post, hfirst, hremove, hset⟩ := findFile_some h hfind
  refine ⟨pre.map File.stored, post.map File.stored, ⟨?_, ?_, ?_⟩, ?_, fun file => ?_⟩
  · rw [FileSystem.store, hfirst.list, List.map_append, List.map_cons]
  · rw [named_stored, strcmp_name]
    exact hfirst.named
  · rw [List.forall_mem_map]
    intro g hg
    rw [named_stored, ← Bool.not_eq_true, strcmp_name]
    exact hfirst.before g hg
  · rw [FileSystem.store, hremove, List.map_append]
  · rw [FileSystem.store, hset, List.map_append, List.map_cons]

/-- A search that fails. -/
theorem find?_store_none (hfind : findFile s name.toList = none) :
    s.store.find? (StoredFile.named name) = none := by
  rw [FileSystem.store, List.find?_eq_none, List.forall_mem_map]
  intro file hfile hnamed
  rw [named_stored, strcmp_name] at hnamed
  obtain ⟨i, hi⟩ := exists_findFile hfile hnamed
  rw [hi] at hfind
  cases hfind

theorem length_store (h : TableInv s) : (s.store.length : Int) = s.fileCount := by
  rw [FileSystem.store, List.length_map, FileSystem.files, tableList, rowsFrom_length]
  exact Int.toNat_of_nonneg h.count_nonneg

/-! ## §3 The calls -/

/-- The result `r` of a call is the answer `a` of the store. -/
structure AnswersAs (r : FsResult) (a : FileAnswer × FileStore) : Prop where
  result : r.result = a.1.1
  output : r.output = a.1.2
  state : r.state.store = a.2

theorem fsFail_answersAs (s : FileSystem) {message : String}
    (hplain : ascii '%' ∉ chars message) :
    AnswersAs (fsFail s message) (s.store.refuse message) where
  result := rfl
  output := printed_of_plain hplain []
  state := rfl

theorem createFile_answersAs (h : TableInv s) (name : CString) (isDirectory : Bool) :
    AnswersAs (createFile s name isDirectory) (s.store.create name isDirectory) := by
  have hlength := length_store h
  have hnonneg := h.count_nonneg
  have hfull : s.fileCount ≥ maxFiles ↔ 5000 ≤ s.store.length := by
    unfold maxFiles
    omega
  have hempty : strlen name.toList = 0 ↔ name.toList = [] := by
    rw [strlen_string, List.length_eq_zero_iff]
  have hlong : strlen name.toList ≥ filenameLength ↔ 50 ≤ name.toList.length := by
    rw [strlen_string]
    rfl
  rcases createFile_cases h name isDirectory with ⟨hcan, -⟩ | ⟨hcan, hresult, -, file, hfiles, hfile⟩
  · unfold createFile FileStore.create
    simp only [hfull, hempty, hlong]
    split_ifs with h₁ h₂ h₃
    · exact fsFail_answersAs s (by decide)
    · exact fsFail_answersAs s (by decide)
    · exact fsFail_answersAs s (by decide)
    · have hpos := List.length_pos_iff.mpr h₂
      exact absurd ⟨by omega, hpos, by omega⟩ hcan
  · obtain ⟨hlt, hpos, hshort⟩ := hcan
    have h₁ : ¬ 5000 ≤ s.store.length := by omega
    have h₂ : ¬ name.toList = [] := List.ne_nil_of_length_pos hpos
    have h₃ : ¬ 50 ≤ name.toList.length := by omega
    have houtput : (createFile s name isDirectory).output = [] := by
      unfold createFile
      rw [if_neg (mt hfull.mp h₁), if_neg (mt hempty.mp h₂), if_neg (mt hlong.mp h₃)]
    have hstored : file.stored = ⟨name.toList, isDirectory, []⟩ := by
      rw [File.stored, hfile.1, hfile.2.1, hfile.2.2]
    unfold FileStore.create
    rw [if_neg h₁, if_neg h₂, if_neg h₃]
    refine ⟨hresult, houtput, ?_⟩
    rw [FileSystem.store, hfiles, List.map_append, List.map_singleton, hstored]
    rfl

theorem deleteFile_answersAs (h : TableInv s) (name : CString) :
    AnswersAs (deleteFile s name) (s.store.delete name) := by
  unfold deleteFile FileStore.delete
  cases hfind : findFile s name.toList with
  | some i =>
    obtain ⟨pre, post, hfirst, hremove, -⟩ := exists_firstHit h hfind
    rw [hfirst.find?_eq, hfirst.eraseP_eq]
    exact ⟨rfl, rfl, hremove⟩
  | none =>
    rw [find?_store_none hfind]
    exact fsFail_answersAs s (by decide)

theorem deleteDirectory_answersAs (h : TableInv s) (name : CString) :
    AnswersAs (deleteDirectory s name) (s.store.deleteDirectory name) := by
  unfold deleteDirectory FileStore.deleteDirectory
  cases hfind : findFile s name.toList with
  | some i =>
    obtain ⟨pre, post, hfirst, hremove, -⟩ := exists_firstHit h hfind
    rw [hfirst.find?_eq, hfirst.eraseP_eq]
    change AnswersAs (if (s.fileList i).isDirectory then _ else _)
      (if (s.fileList i).isDirectory then _ else _)
    cases (s.fileList i).isDirectory with
    | true => exact ⟨rfl, rfl, hremove⟩
    | false => exact fsFail_answersAs s (by decide)
  | none =>
    rw [find?_store_none hfind]
    exact fsFail_answersAs s (by decide)

theorem readFile_answersAs (h : TableInv s) (name : CString) :
    AnswersAs (readFile s name) (s.store.read name) := by
  unfold FileStore.read
  cases hfind : findFile s name.toList with
  | some i =>
    obtain ⟨pre, post, hfirst, -, -⟩ := exists_firstHit h hfind
    rw [hfirst.find?_eq]
    change AnswersAs _ (if (s.fileList i).isDirectory then _ else _)
    cases hdir : (s.fileList i).isDirectory with
    | true =>
      unfold readFile
      rw [hfind]
      dsimp only
      rw [hdir]
      exact fsFail_answersAs s (by decide)
    | false =>
      obtain ⟨hresult, houtput⟩ := readFile_of_find hfind hdir
      have hfiles : ((FsCall.readFile name).exec s).state.files = s.files :=
        (FsCall.exec_spec h (.readFile name)).2
      exact ⟨hresult, houtput, congrArg (List.map File.stored) hfiles⟩
  | none =>
    rw [find?_store_none hfind]
    unfold readFile
    rw [hfind]
    exact fsFail_answersAs s (by decide)

theorem writeFile_answersAs (h : TableInv s) (name content : CString) :
    AnswersAs (writeFile s name content) (s.store.write name content) := by
  unfold FileStore.write
  cases hfind : findFile s name.toList with
  | some i =>
    obtain ⟨pre, post, hfirst, -, hset⟩ := exists_firstHit h hfind
    rw [hfirst.find?_eq, hfirst.lookmap_eq]
    change AnswersAs _ (if (s.fileList i).isDirectory then _ else _)
    cases hdir : (s.fileList i).isDirectory with
    | true =>
      unfold writeFile
      rw [hfind]
      dsimp only
      rw [hdir]
      exact fsFail_answersAs s (by decide)
    | false =>
      obtain ⟨file, hwrite, -, hname, hisDirectory, hcontent, -⟩ :=
        writeFile_of_find h content hfind hdir
      have hstored : file.stored =
          { (s.fileList i).stored with content := content.toList.take 255 } := by
        rw [File.stored, File.nameString, hname, hisDirectory, hcontent]
        rfl
      rw [hwrite]
      refine ⟨rfl, rfl, ?_⟩
      change (s.setFile i file).store = _
      rw [hset, hstored]
      rfl
  | none =>
    rw [find?_store_none hfind]
    unfold writeFile
    rw [hfind]
    exact fsFail_answersAs s (by decide)

theorem listFiles_answersAs (s : FileSystem) : AnswersAs (listFiles s) s.store.list where
  result := rfl
  output := by
    rw [listFiles_output, FileStore.list, FileSystem.store, List.map_map]
    rfl
  state := rfl

theorem fsInit_answersAs (h : TableInv s) :
    AnswersAs (fsInit s) ((true, chars "File system initialized.\n"), []) where
  result := rfl
  output := by
    simp only [fsInit]
    rw [printed_of_plain (by decide)]
  state := by
    have hfiles : (FsCall.fsInit.exec s).state.files = [] := (FsCall.exec_spec h .fsInit).2
    exact congrArg (List.map File.stored) hfiles

/-- Every call. -/
theorem FileCall.exec_answersAs (h : TableInv s) (call : FileCall) :
    (call.exec s).1 = (call.onStore s.store).1 ∧ (call.exec s).2.store = (call.onStore s.store).2 := by
  have hanswer {r : FsResult} {a : FileAnswer × FileStore} (ha : AnswersAs r a) :
      r.answer.1 = a.1 ∧ r.answer.2.store = a.2 := ⟨Prod.ext ha.result ha.output, ha.state⟩
  cases call with
  | fs call =>
    cases call with
    | fsInit =>
      exact hanswer (fsInit_answersAs h)
    | createFile name isDirectory => exact hanswer (createFile_answersAs h name isDirectory)
    | createDirectory name => exact hanswer (createFile_answersAs h name true)
    | deleteFile name => exact hanswer (deleteFile_answersAs h name)
    | deleteDirectory name => exact hanswer (deleteDirectory_answersAs h name)
    | readFile name => exact hanswer (readFile_answersAs h name)
    | writeFile name content => exact hanswer (writeFile_answersAs h name content)
  | listFiles => exact hanswer (listFiles_answersAs s)

/-! ## §4 Sequences of calls -/

theorem fileTable_implements_store :
    Implements (fun s (call : FileCall) => call.exec s) (fun store call => call.onStore store)
      TableInv FileSystem.store where
  answer s call h := (call.exec_answersAs h).1
  state s call h := (call.exec_answersAs h).2
  inv s call h := by
    cases call with
    | fs call => exact (FsCall.exec_spec h call).1
    | listFiles => exact h

/-- From boot on, whatever the calls: the file system gives the answers of the empty store. -/
theorem fileSystem_answers (calls : List FileCall) :
    answers (fun s (call : FileCall) => call.exec s) emptyFileSystem calls =
      answers (fun store call => call.onStore store) [] calls :=
  fileTable_implements_store.answers_eq tableInv_empty calls

end KyroKernel
