import KyroKernel.Console.FormatTexts
import KyroKernel.Foundations.Lines
import KyroKernel.Fs.FileTable

/-!
# The listing of files

`list_files` prints the name of every file on a line of its own, with a slash behind the name of a
directory. From the listing one can tell what is in the table, unless a name has a newline in it, or
a name with a slash at its end is that of a plain file.
-/

namespace KyroKernel

open Foundations

/-- The string in the field `name`. -/
def File.nameCString (file : File) : CString := ⟨file.nameString, nul_notMem_cstr _⟩

/-- What `list_files` prints for a file. -/
def fileLine (file : File) : List Byte :=
  printed (chars "%s%s\n")
    [.string (some file.nameCString),
      .string (some (if file.isDirectory then ⟨chars "/", by decide⟩ else ⟨[], by decide⟩))]

/-- `list_files`; it returns nothing. -/
def listFiles (s : FileSystem) : FsResult :=
  ⟨true, printed (chars "Files:\n") [] ++ printRows fileLine s.fileList 0 s.fileCount.toNat, s⟩

/-! ## Reading it -/

/-- The name on a line, and whether it is that of a directory. -/
def readFileLine (line : List Byte) : Option (List Byte × Bool) :=
  if line.getLast? = some (ascii '/') then some (line.dropLast, true) else some (line, false)

/-- The files in a listing. -/
def readFiles (text : List Byte) : Option (List (List Byte × Bool)) :=
  ((chars "Files:\n").isPrefixOf? text).bind (readLines (ascii '\n') readFileLine)

/-- The text of a line without its end. -/
def listedName (file : List Byte × Bool) : List Byte :=
  file.1 ++ if file.2 then chars "/" else []

theorem fileLine_eq (file : File) :
    fileLine file = listedName (file.nameString, file.isDirectory) ++ [ascii '\n'] := by
  have hformat : chars "%s%s\n" =
      ascii '%' :: ascii 's' :: ascii '%' :: ascii 's' :: [ascii '\n'] := rfl
  have hnewline : ascii '\n' ≠ ascii '%' := by decide
  have htext (slash : CString) :
      printed (chars "%s%s\n") [.string (some file.nameCString), .string (some slash)] =
        file.nameString ++ (slash.toList ++ [ascii '\n']) := by
    rw [hformat]
    exact (Formats.conversion (.string file.nameCString _) (.conversion (.string slash [])
      (.char hnewline (.nil [])))).printed_eq
  rw [fileLine, htext, listedName, List.append_assoc]
  cases file.isDirectory <;> rfl

/-- The lines after the first. -/
theorem listFiles_output (s : FileSystem) :
    (listFiles s).output = chars "Files:\n" ++ joinLines (ascii '\n')
      (s.files.map fun file => listedName (file.nameString, file.isDirectory)) := by
  have hlines : fileLine = fun file =>
      listedName (file.nameString, file.isDirectory) ++ [ascii '\n'] := funext fileLine_eq
  simp only [listFiles]
  rw [printed_of_plain (by decide), printRows_eq, joinLines, List.flatMap_map, hlines]
  rfl

/-- A line is read back unless it is that of a plain file whose name ends with a slash. -/
theorem readFileLine_listedName (file : List Byte × Bool) :
    readFileLine (listedName file) = some file ↔
      (file.2 = false → file.1.getLast? ≠ some (ascii '/')) := by
  obtain ⟨name, isDirectory⟩ := file
  cases isDirectory with
  | true =>
    have hslash : listedName (name, true) = name ++ [ascii '/'] := rfl
    rw [hslash, readFileLine, List.getLast?_concat, if_pos rfl, List.dropLast_concat]
    simp
  | false =>
    have hplain : listedName (name, false) = name := List.append_nil _
    rw [hplain, readFileLine]
    by_cases hlast : name.getLast? = some (ascii '/')
    · simp [hlast]
    · simp [hlast]

theorem newline_mem_listedName (file : List Byte × Bool) :
    ascii '\n' ∈ listedName file ↔ ascii '\n' ∈ file.1 := by
  have hslash : ascii '\n' ∉ (if file.2 then chars "/" else []) := by
    cases file.2 <;> decide
  rw [listedName, List.mem_append, or_iff_left hslash]

/-- The files can be read from the listing, with their names, their order and which are directories,
exactly when no name has a newline in it, and no name of a plain file ends with a slash. -/
theorem readFiles_listFiles_iff (s : FileSystem) :
    readFiles (listFiles s).output =
        some (s.files.map fun file => (file.nameString, file.isDirectory)) ↔
      ∀ file ∈ s.files, ascii '\n' ∉ file.nameString ∧
        (file.isDirectory = false → file.nameString.getLast? ≠ some (ascii '/')) := by
  have hheading (rest : List Byte) : (chars "Files:\n").isPrefixOf? (chars "Files:\n" ++ rest) =
      some rest := rfl
  rw [readFiles, listFiles_output, hheading, Option.bind_some, readLines_joinLines_iff]
  refine forall₂_congr fun file _ => ?_
  rw [newline_mem_listedName, readFileLine_listedName]

end KyroKernel
