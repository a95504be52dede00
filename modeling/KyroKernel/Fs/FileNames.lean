import Mathlib.Data.List.Nodup
import KyroKernel.Fs.FileList

/-!
# File names

`create_file` does not look for an entry of the same name, unlike `add_user` in `kernel/user.c`.
Every other function takes the first entry of a name, so with two of them a deleted name is
still there and a new file can be hidden by an old directory. Names are unique in a run exactly
when nobody creates a name that exists.
-/

namespace KyroKernel

open Foundations

/-- The names in the table. -/
def FileSystem.names (s : FileSystem) : List (List Byte) := s.files.map File.nameString

/-- The name a call creates an entry for. -/
def FsCall.creates : FsCall → Option CString
  | .createFile name _ => some name
  | .createDirectory name => some name
  | _ => none

/-- A name is free whenever an entry could be created for it: the table is not full and the
name has between 1 and 49 characters. -/
def CreatesFresh (s : FileSystem) (call : FsCall) : Prop :=
  ∀ name, call.creates = some name → CanCreate s name → name.toList ∉ s.names

/-- File names identify files all through a run. -/
structure NamesIdentify (tr : List (FileSystem × FsCall)) (s : FileSystem) : Prop where
  unique : ∀ z ∈ Run.states tr s, z.names.Nodup
  /-- After a successful `delete_file` the name is gone. -/
  deleted : ∀ p ∈ tr, ∀ name, p.2 = .deleteFile name → (p.2.exec p.1).result = true →
    name.toList ∉ (p.2.exec p.1).state.names
  /-- After a successful `create_file` of a file, it can be written and read back. -/
  written : ∀ p ∈ tr, ∀ name, p.2 = .createFile name false → (p.2.exec p.1).result = true →
    ∀ content : CString,
      let w := writeFile (p.2.exec p.1).state name content
      w.result = true ∧ (readFile w.state name).result = true ∧
        (readFile w.state name).output = content.toList.take 255 ++ chars "\n"

variable {s : FileSystem} {name : CString} {call : FsCall} {tr : List (FileSystem × FsCall)}

/-- Taking out the first entry of a name that is unique leaves no entry of that name. -/
theorem FirstNamed.notMem_removed {files pre post : List File} {file : File}
    (h : FirstNamed name.toList files pre post file)
    (hnodup : (files.map File.nameString).Nodup) :
    name.toList ∉ (pre ++ post).map File.nameString := by
  -- The name of the entry taken out is not among the others.
  rw [h.list, List.map_append, List.map_cons, h.named, List.nodup_middle] at hnodup
  rw [List.map_append]
  exact (List.nodup_cons.mp hnodup).1

/-- And keeps the names unique. -/
theorem FirstNamed.nodup_removed {files pre post : List File} {file : File}
    (h : FirstNamed name.toList files pre post file)
    (hnodup : (files.map File.nameString).Nodup) :
    ((pre ++ post).map File.nameString).Nodup := by
  have hsub : (pre ++ post).Sublist files := by
    rw [h.list]
    exact (List.sublist_cons_self file post).append_left pre
  exact hnodup.sublist (hsub.map _)

/-- What `create_file` does to the names, when it succeeds. -/
theorem createFile_names {isDirectory : Bool} (h : TableInv s) (hcan : CanCreate s name) :
    (createFile s name isDirectory).state.names = s.names ++ [name.toList] := by
  rcases createFile_cases h name isDirectory with ⟨hcannot, -⟩ | ⟨-, -, -, file, hfiles, hname, -⟩
  · exact absurd hcan hcannot
  · rw [FileSystem.names, hfiles, List.map_append, List.map_singleton, hname]
    rfl

/-- Creating a fresh name keeps the names unique. -/
theorem createFile_nodup {isDirectory : Bool} (h : TableInv s) (hnodup : s.names.Nodup)
    (hfresh : CanCreate s name → name.toList ∉ s.names) :
    (createFile s name isDirectory).state.names.Nodup := by
  rcases createFile_cases h name isDirectory with ⟨-, message, hfail⟩ | ⟨hcan, -⟩
  · rw [hfail]
    exact hnodup
  · -- The new name comes last.
    rw [createFile_names h hcan, ← List.concat_eq_append, List.nodup_concat]
    exact ⟨hfresh hcan, hnodup⟩

/-- Every call that creates only fresh names keeps the names unique. -/
theorem nodup_step (h : TableInv s) (hnodup : s.names.Nodup) (hfresh : CreatesFresh s call) :
    (call.exec s).state.names.Nodup := by
  have hlist := (FsCall.exec_spec h call).2
  -- One case for each call, by what it does to the list.
  cases call with
  | fsInit =>
    have hnil : ((FsCall.fsInit).exec s).state.files = [] := hlist
    rw [FileSystem.names, hnil]
    exact List.nodup_nil
  | createFile name isDirectory => exact createFile_nodup h hnodup (hfresh name rfl)
  | createDirectory name => exact createFile_nodup h hnodup (hfresh name rfl)
  | deleteFile name =>
    obtain ⟨htrue, hfalse⟩ := hlist
    cases hresult : ((FsCall.deleteFile name).exec s).result with
    | false =>
      rw [FileSystem.names, hfalse hresult]
      exact hnodup
    | true =>
      obtain ⟨pre, file, post, hfirst, hfiles⟩ := htrue hresult
      rw [FileSystem.names, hfiles]
      exact hfirst.nodup_removed hnodup
  | deleteDirectory name =>
    obtain ⟨htrue, hfalse⟩ := hlist
    cases hresult : ((FsCall.deleteDirectory name).exec s).result with
    | false =>
      rw [FileSystem.names, hfalse hresult]
      exact hnodup
    | true =>
      obtain ⟨pre, file, post, hfirst, -, hfiles⟩ := htrue hresult
      rw [FileSystem.names, hfiles]
      exact hfirst.nodup_removed hnodup
  | readFile name =>
    have hsame : ((FsCall.readFile name).exec s).state.files = s.files := hlist
    rw [FileSystem.names, hsame]
    exact hnodup
  | writeFile name content =>
    obtain ⟨htrue, hfalse⟩ := hlist
    cases hresult : ((FsCall.writeFile name content).exec s).result with
    | false =>
      rw [FileSystem.names, hfalse hresult]
      exact hnodup
    | true =>
      -- The entry written keeps its name.
      obtain ⟨pre, file, file', post, hfirst, hfiles, hname, -⟩ := htrue hresult
      have hsame : file'.nameString = file.nameString := congrArg cstr hname
      rw [FileSystem.names, hfirst.list] at hnodup
      rw [FileSystem.names, hfiles, List.map_append, List.map_cons, hsame]
      rwa [List.map_append, List.map_cons] at hnodup

/-- A file created under a fresh name is the one that `write_file` and `read_file` find. -/
theorem written_of_fresh (h : TableInv s) (hfresh : CanCreate s name → name.toList ∉ s.names)
    (hresult : (createFile s name false).result = true) (content : CString) :
    let w := writeFile (createFile s name false).state name content
    w.result = true ∧ (readFile w.state name).result = true ∧
      (readFile w.state name).output = content.toList.take 255 ++ chars "\n" := by
  rcases createFile_cases h name false with
    ⟨-, message, hfail⟩ | ⟨hcan, -, hinv, file, hfiles, hname, -, hdir⟩
  · rw [hfail] at hresult
    cases hresult
  · have hmem : file ∈ (createFile s name false).state.files := by
      rw [hfiles]
      exact List.mem_append_right _ List.mem_cons_self
    -- `write_file` takes the first entry of the name.
    obtain ⟨i, hfind⟩ := exists_findFile hmem hname
    obtain ⟨-, pre, post, hfirst, -⟩ := findFile_some hinv hfind
    -- The entry found has this name, and the old entries do not.
    have hfound : (createFile s name false).state.fileList i = file := by
      have hin : (createFile s name false).state.fileList i ∈ s.files ++ [file] := by
        rw [← hfiles, hfirst.list]
        exact List.mem_append_right _ List.mem_cons_self
      rcases List.mem_append.mp hin with hold | hnew
      · have := hfresh hcan
        rw [FileSystem.names, ← hfirst.named] at this
        exact absurd (List.mem_map_of_mem hold) this
      · exact List.mem_singleton.mp hnew
    obtain ⟨file', hwrite, -, -, -, -, hread⟩ :=
      writeFile_of_find hinv content hfind (by rw [hfound]; exact hdir)
    simp only [hwrite]
    exact ⟨trivial, hread⟩

/-- Names identify files all through a run if and only if no call of the run creates a name that
exists. -/
theorem namesIdentify_iff (h : FsRun tr s) :
    NamesIdentify tr s ↔ ∀ p ∈ tr, CreatesFresh p.1 p.2 := by
  constructor
  · -- A name created twice is in the table twice right after the call.
    intro hnames p hp name hcreates hcan hexists
    obtain ⟨pre, z, hrun, hz⟩ := h.exists_after hp
    obtain rfl : z = (p.2.exec p.1).state := hrun.last
    have hinv := TableInv.of_run hrun.tail
    have hnew : (p.2.exec p.1).state.names = p.1.names ++ [name.toList] := by
      obtain ⟨z, call⟩ := p
      cases call with
      | createFile name' isDirectory =>
        obtain rfl := Option.some.inj hcreates
        exact createFile_names hinv hcan
      | createDirectory name' =>
        obtain rfl := Option.some.inj hcreates
        exact createFile_names hinv hcan
      | fsInit | deleteFile _ | deleteDirectory _ | readFile _ | writeFile _ _ => cases hcreates
    have hnodup := hnames.unique _ hz
    rw [hnew, ← List.concat_eq_append, List.nodup_concat] at hnodup
    exact hnodup.1 hexists
  · -- Fresh names only: the names stay unique, and the rest follows at each step.
    intro hfresh
    have hinv : ∀ z ∈ Run.states tr s, TableInv z ∧ z.names.Nodup := by
      apply Run.inv_states_of_guard (fun z => TableInv z ∧ z.names.Nodup) CreatesFresh ?_ ?_ h hfresh
      · rintro _ rfl
        exact ⟨tableInv_empty, List.nodup_nil⟩
      · rintro z call _ ⟨hz, hnodup⟩ hcall rfl
        exact ⟨(FsCall.exec_spec hz call).1, nodup_step hz hnodup hcall⟩
    -- The state before a step is a state of the run.
    have hbefore : ∀ p ∈ tr, TableInv p.1 ∧ p.1.names.Nodup := fun p hp =>
      hinv p.1 (Run.fst_mem_states hp)
    refine ⟨fun z hz => (hinv z hz).2, ?_, ?_⟩
    · rintro ⟨z, _⟩ hp name rfl hresult
      obtain ⟨hz, hnodup⟩ := hbefore _ hp
      obtain ⟨pre, file, post, hfirst, hfiles⟩ :=
        (FsCall.exec_spec hz (.deleteFile name)).2.1 hresult
      rw [FileSystem.names, hfiles]
      exact hfirst.notMem_removed hnodup
    · rintro ⟨z, _⟩ hp name rfl hresult content
      exact written_of_fresh (hbefore _ hp).1 (hfresh _ hp name rfl) hresult content

instance (s : FileSystem) (name : CString) : Decidable (CanCreate s name) :=
  inferInstanceAs (Decidable (_ ∧ _))

instance (s : FileSystem) (call : FsCall) : Decidable (CreatesFresh s call) :=
  inferInstanceAs (Decidable (∀ name ∈ call.creates, CanCreate s name → name.toList ∉ s.names))

/-- Two files are created, the second one is written, the first one is deleted and created again,
now as a directory. -/
theorem namesIdentify_iff_recreated : ∃ tr s, FsRun tr s ∧
    (tr.length = 5 ∧ s.names = [nameB.toList, nameA.toList]) ∧ NamesIdentify tr s := by
  obtain ⟨tr, s, hrun, hlists, hfresh⟩ := exists_fsRun
    [.createFile nameA false, .createFile nameB false, .writeFile nameB nameA, .deleteFile nameA,
      .createDirectory nameA]
    (fun tr s => (tr.length = 5 ∧ s.names = [nameB.toList, nameA.toList]) ∧
      ∀ p ∈ tr, CreatesFresh p.1 p.2) (by decide)
  exact ⟨tr, s, hrun, hlists, (namesIdentify_iff hrun).mpr hfresh⟩

/-- A directory and a file of the same name: both are created. -/
theorem not_forall_namesIdentify : ¬ ∀ tr s, FsRun tr s → NamesIdentify tr s := by
  intro hall
  have hrun : FsRun
      [(FsCall.exec emptyFileSystem (.createDirectory nameA) |>.state, .createFile nameA false),
        (emptyFileSystem, .createDirectory nameA)] _ :=
    .snoc (.snoc (.start rfl) rfl) rfl
  have hnodup := (hall _ _ hrun).unique _ List.mem_cons_self
  exact absurd hnodup (by decide)

end KyroKernel
