import KyroKernel.Console.Printf
import KyroKernel.Foundations.ArrayTable
import KyroKernel.Utils.Strings

/-!
# The file table

`include/fs/fs.h` and `kernel/fs.c`: an array of fixed-size records and a count. Every function
that can fail says so through `printf`; its characters are part of the result.
-/

namespace KyroKernel

open Foundations

def maxFiles : Int := 5000
def filenameLength : Nat := 50
def fileContentLength : Nat := 256

/-- `File`. The fields `name` and `content` are the bytes of the arrays. -/
structure File where
  name : List Byte
  content : List Byte
  isDirectory : Bool
  deriving DecidableEq

/-- `file_list` and `file_count`. -/
structure FileSystem where
  fileList : Int → File
  fileCount : Int

/-- What a call returns, what it prints, and the table after it. -/
structure FsResult where
  result : Bool
  output : List Byte
  state : FileSystem

/-- A failed call. -/
def fsFail (s : FileSystem) (message : String) : FsResult := ⟨false, printed (chars message) [], s⟩

/-- The search loop that the functions share: the first record with this name. -/
def findFile (s : FileSystem) (name : List Byte) : Option Int :=
  findRow (fun file => strcmp file.name name == 0) s.fileList 0 s.fileCount.toNat

/-- The loop that moves the later records down, and `file_count--`. -/
def removeFile (s : FileSystem) (i : Int) : FileSystem :=
  { fileList := shiftRows s.fileList i (s.fileCount - 1 - i).toNat
    fileCount := s.fileCount - 1 }

/-- Change one record. -/
def FileSystem.setFile (s : FileSystem) (i : Int) (file : File) : FileSystem :=
  { s with fileList := Function.update s.fileList i file }

theorem setFile_self (s : FileSystem) (i : Int) (file : File) :
    (s.setFile i file).fileList i = file := Function.update_self _ _ _

theorem setFile_of_ne (s : FileSystem) {i j : Int} (h : j ≠ i) (file : File) :
    (s.setFile i file).fileList j = s.fileList j := Function.update_of_ne h _ _

/-- The record that `create_file` fills in; the rest of the content stays. -/
def newFile (file : File) (name : CString) (isDirectory : Bool) : File :=
  { name := strcpy file.name name.toList
    content := file.content.set 0 0
    isDirectory := isDirectory }

/-- `create_file`. -/
def createFile (s : FileSystem) (name : CString) (isDirectory : Bool) : FsResult :=
  if s.fileCount ≥ maxFiles then fsFail s "File limit reached.\n"
  else if strlen name.toList = 0 then fsFail s "Filename cannot be empty.\n"
  else if strlen name.toList ≥ filenameLength then fsFail s "Filename too long.\n"
  else
    let file := newFile (s.fileList s.fileCount) name isDirectory
    ⟨true, [], { s.setFile s.fileCount file with fileCount := s.fileCount + 1 }⟩

/-- `create_directory`. -/
def createDirectory (s : FileSystem) (name : CString) : FsResult := createFile s name true

/-- `delete_file`. -/
def deleteFile (s : FileSystem) (name : CString) : FsResult :=
  match findFile s name.toList with
  | some i => ⟨true, [], removeFile s i⟩
  | none => fsFail s "File not found.\n"

/-- `delete_directory`. -/
def deleteDirectory (s : FileSystem) (name : CString) : FsResult :=
  match findFile s name.toList with
  | some i =>
    if (s.fileList i).isDirectory then ⟨true, [], removeFile s i⟩
    else fsFail s "Not a directory.\n"
  | none => fsFail s "Directory not found.\n"

/-- `read_file`. -/
def readFile (s : FileSystem) (name : CString) : FsResult :=
  match findFile s name.toList with
  | some i =>
    if !(s.fileList i).isDirectory then
      let content : CString := ⟨cstr (s.fileList i).content, nul_notMem_cstr _⟩
      ⟨true, printed (chars "%s\n") [.string (some content)], s⟩
    else fsFail s "Cannot read directory.\n"
  | none => fsFail s "File not found.\n"

/-- The record after `write_file` has copied the string and terminated it. -/
def writtenFile (file : File) (content : CString) : File :=
  let copied := strncpy file.content content.toList (fileContentLength - 1)
  { file with content := copied.set (fileContentLength - 1) 0 }

/-- `write_file`. -/
def writeFile (s : FileSystem) (name content : CString) : FsResult :=
  match findFile s name.toList with
  | some i =>
    if !(s.fileList i).isDirectory then
      ⟨true, [], s.setFile i (writtenFile (s.fileList i) content)⟩
    else fsFail s "Cannot write to directory.\n"
  | none => fsFail s "File not found.\n"

/-- `fs_init`; it returns nothing. -/
def fsInit (s : FileSystem) : FsResult :=
  ⟨true, printed (chars "File system initialized.\n") [], { s with fileCount := 0 }⟩

/-! ## Calls and runs -/

/-- The calls on the file table. -/
inductive FsCall where
  | fsInit
  | createFile (name : CString) (isDirectory : Bool)
  | createDirectory (name : CString)
  | deleteFile (name : CString)
  | deleteDirectory (name : CString)
  | readFile (name : CString)
  | writeFile (name content : CString)

/-- Carry out a call. -/
def FsCall.exec (s : FileSystem) : FsCall → FsResult
  | .fsInit => KyroKernel.fsInit s
  | .createFile name isDirectory => KyroKernel.createFile s name isDirectory
  | .createDirectory name => KyroKernel.createDirectory s name
  | .deleteFile name => KyroKernel.deleteFile s name
  | .deleteDirectory name => KyroKernel.deleteDirectory s name
  | .readFile name => KyroKernel.readFile s name
  | .writeFile name content => KyroKernel.writeFile s name content

/-- The table before the first call: static data, all zero. -/
def emptyFileSystem : FileSystem :=
  { fileList := fun _ =>
      ⟨List.replicate filenameLength 0, List.replicate fileContentLength 0, false⟩
    fileCount := 0 }

/-- The runs of calls. -/
abbrev FsStep (s : FileSystem) (call : FsCall) (s' : FileSystem) : Prop := s' = (call.exec s).state

/-- The entries: `file_list[0..file_count)`. -/
def FileSystem.files (s : FileSystem) : List File := tableList s.fileList s.fileCount.toNat

/-- The name of an entry. -/
def File.nameString (file : File) : List Byte := cstr file.name

/-- The content of an entry. -/
def File.contentString (file : File) : List Byte := cstr file.content

end KyroKernel
