import Liboffs.Library.ByteOrder

/-!
# Extraction of an update

An update is a USTAR archive: a header block for each entry, and the content
of a regular file in the blocks that follow.  The extractor reads one block
after the other.  It refuses names that lead out of the directory, entries
other than files and directories, and archives that are too large; whatever
it has written before it stops stays in the directory.

Only regular files are kept here.  What the file system refuses is given for
each entry.
-/

namespace Liboffs.Update

open Library.ByteOrder

/-- The name of a file below a directory, component by component. -/
abbrev FilePath := List Bytes

/-- The regular files of a directory. -/
abbrev Files := FilePath → Option Bytes

/-- A directory without files. -/
def Files.empty : Files := fun _ => none

def Files.write (files : Files) (path : FilePath) (content : Bytes) : Files :=
  Function.update files path (some content)

/-- The directory with a file removed. -/
def Files.unlink (files : Files) (path : FilePath) : Files :=
  Function.update files path none

/-- `USTAR_BLOCK_SIZE`. -/
def ustarBlockSize : Nat := 512

def field (header : Bytes) (offset length : Nat) : Bytes :=
  (header.drop offset).take length

/-- A field up to its first zero byte: `_bounded_strlen`. -/
def stringField (header : Bytes) (offset length : Nat) : Bytes :=
  (field header offset length).takeWhile (· != 0)

/-- `_is_zero_block`. -/
def isZeroBlock (block : Bytes) : Bool :=
  block.all (· == 0)

/-- `_parse_octal`. -/
def parseOctal (digits : Bytes) : Nat :=
  (digits.takeWhile fun digit => 48 ≤ digit && digit ≤ 55).foldl
    (fun value digit => value * 8 + (digit.toNat - 48)) 0

/-- The name of an entry: the prefix, a slash and the name. -/
def entryName (header : Bytes) : Bytes :=
  let name := stringField header 0 100
  match stringField header 345 155 with
  | [] => name
  | front => front ++ 47 :: name

/-- `_path_has_dotdot`. -/
def pathHasDotdot (path : Bytes) : Bool :=
  (path.splitOn 47).contains [46, 46]

/-- The file that a name denotes. -/
def filePath (name : Bytes) : FilePath :=
  (name.splitOn 47).filter fun component => component != [] && component != [46]

/-- The name is that of a directory: it ends in a slash or a dot. -/
def namesDirectory (name : Bytes) : Bool :=
  match (name.splitOn 47).getLast? with
  | some component => component == [] || component == [46]
  | none => true

/-- The entries that are extracted. -/
inductive ArchiveEntry where
  | file (name : Bytes) (size : Nat)
  | directory

/-- The checks of a header, with the bytes extracted so far. -/
def checkHeader (maxBytes total : Nat) (header : Bytes) : Option ArchiveEntry :=
  let name := entryName header
  let typeflag := header.getD 156 0
  let size := parseOctal (field header 124 12)
  if name.head? = some 47 then
    none
  else if pathHasDotdot name then
    none
  else if typeflag = 53 then
    some .directory
  else if typeflag = 48 ∨ typeflag = 0 then
    if maxBytes < total ∨ maxBytes - total < size then
      none
    else
      some (.file name size)
  else
    none

/-- What the file system does for an entry. -/
inductive EntryOutcome where
  | done
  | refused
  | writeFails
deriving DecidableEq

/-- Whether a header is read next or the content of a file. -/
inductive Reading where
  | header
  | content (path : FilePath) (remaining : Nat) (written : Bytes)

/--
`update_extract` from one block on, with what was before it and whether the archive ends early.
-/
def extractBlocks (io : Nat → EntryOutcome) (maxBytes : Nat) (truncated : Bool) :
    List Bytes → Reading → Nat → Nat → Files → Bool × Files
  | [], .header, _, _, files => (!truncated, files)
  | [], .content path _ _, _, _, files => (false, files.unlink path)
  | block :: rest, .header, entries, total, files =>
    if isZeroBlock block then
      (true, files)
    else
      match checkHeader maxBytes total block with
      | none => (false, files)
      | some .directory =>
        if io entries = .refused then
          (false, files)
        else
          extractBlocks io maxBytes truncated rest .header (entries + 1) total files
      | some (.file name size) =>
        if io entries = .refused ∨ namesDirectory name then
          (false, files)
        else if size = 0 then
          extractBlocks io maxBytes truncated rest .header (entries + 1)
            total (files.write (filePath name) [])
        else
          extractBlocks io maxBytes truncated rest (.content (filePath name) size []) (entries + 1)
            (total + size) files
  | block :: rest, .content path remaining written, entries, total, files =>
    if io (entries - 1) = .writeFails then
      (false, files.unlink path)
    else if remaining ≤ ustarBlockSize then
      extractBlocks io maxBytes truncated rest .header entries total
        (files.write path (written ++ block.take remaining))
    else
      extractBlocks io maxBytes truncated rest
        (.content path (remaining - ustarBlockSize) (written ++ block))
        entries total files

def archiveBlocks (archive : Bytes) : List Bytes :=
  (List.range (archive.length / ustarBlockSize)).map fun index =>
    (archive.drop (index * ustarBlockSize)).take ustarBlockSize

/-- `update_extract`. -/
def updateExtract (io : Nat → EntryOutcome) (maxBytes : Nat)
    (archive : Bytes) (files : Files) : Bool × Files :=
  extractBlocks io maxBytes (archive.length % ustarBlockSize != 0)
    (archiveBlocks archive) .header 0 0 files

/-- A file system that refuses nothing. -/
def reliable : Nat → EntryOutcome := fun _ => .done

section

/-- An extraction that succeeds is that of a reliable file system. -/
theorem extractBlocks_reliable
    (succeeds : extractBlocks io maxBytes truncated blocks reading entries
      total files = (true, result)) :
    extractBlocks reliable maxBytes truncated blocks reading entries total
      files = (true, result) := by
  induction blocks generalizing reading entries total files with
  | nil =>
    cases reading with
    | header => exact succeeds
    | content path remaining written => simp [extractBlocks] at succeeds
  | cons block rest ih =>
    cases reading with
    | header =>
      rw [extractBlocks] at succeeds ⊢
      by_cases zero : isZeroBlock block = true
      · rw [if_pos zero] at succeeds ⊢
        exact succeeds
      · rw [if_neg zero] at succeeds ⊢
        split at succeeds
        · cases succeeds
        · by_cases refused : io entries = .refused
          · rw [if_pos refused] at succeeds
            cases succeeds
          · rw [if_neg refused] at succeeds
            exact ih succeeds
        · rename_i name size _
          by_cases refused : io entries = .refused ∨ namesDirectory name = true
          · rw [if_pos refused] at succeeds
            cases succeeds
          · have accepted : ¬ (reliable entries = .refused ∨ namesDirectory name = true) := by
              rintro (never | named)
              · cases never
              · exact refused (Or.inr named)
            rw [if_neg refused] at succeeds
            rw [if_neg accepted]
            split at succeeds
            · rename_i nothing
              rw [if_pos nothing]
              exact ih succeeds
            · rename_i something
              rw [if_neg something]
              exact ih succeeds
    | content path remaining written =>
      rw [extractBlocks] at succeeds ⊢
      rw [if_neg nofun]
      split at succeeds
      · cases succeeds
      · split at succeeds
        · rename_i last
          rw [if_pos last]
          exact ih succeeds
        · rename_i more
          rw [if_neg more]
          exact ih succeeds

/-- Two directories have the same files, one name apart. -/
def AgreeOff (apart : FilePath) (first second : Files) : Prop :=
  ∀ path, path ≠ apart → first path = second path

variable (agree : AgreeOff apart first second)
include agree

theorem AgreeOff.write (path : FilePath) (content : Bytes) :
    AgreeOff apart (first.write path content) (second.write path content) := by
  intro other different
  by_cases same : other = path
  · subst same
    simp [Files.write]
  · simp [Files.write, same, agree other different]

theorem AgreeOff.unlink (path : FilePath) :
    AgreeOff apart (first.unlink path) (second.unlink path) := by
  intro other different
  by_cases same : other = path
  · subst same
    simp [Files.unlink]
  · simp [Files.unlink, same, agree other different]

/-- An extraction does the same in directories that are the same. -/
theorem extractBlocks_agreeOff :
    (extractBlocks io maxBytes truncated blocks reading entries total first).1 =
      (extractBlocks io maxBytes truncated blocks reading entries total second).1 ∧
    AgreeOff apart (extractBlocks io maxBytes truncated blocks reading entries total first).2
      (extractBlocks io maxBytes truncated blocks reading entries total second).2 := by
  induction blocks generalizing reading entries total first second with
  | nil =>
    cases reading with
    | header => exact ⟨rfl, agree⟩
    | content path remaining written => exact ⟨rfl, agree.unlink path⟩
  | cons block rest ih =>
    cases reading with
    | header =>
      simp only [extractBlocks]
      split
      · exact ⟨rfl, agree⟩
      · split
        · exact ⟨rfl, agree⟩
        · split
          · exact ⟨rfl, agree⟩
          · exact ih agree
        · split
          · exact ⟨rfl, agree⟩
          · split
            · exact ih (agree.write _ _)
            · exact ih agree
    | content path remaining written =>
      simp only [extractBlocks]
      split
      · exact ⟨rfl, agree.unlink path⟩
      · split
        · exact ih (agree.write _ _)
        · exact ih agree

end

end Liboffs.Update
