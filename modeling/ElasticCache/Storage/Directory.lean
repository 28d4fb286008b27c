import ElasticCache.Bytes
import Std.Data.TreeMap

/-!
# The directory of a disk tier

A directory holds files and, when someone put them there, other directories. It is a value, so that
a store can be closed and opened again on what it left behind, and so that its content can be
changed behind its back.
-/

namespace ElasticCache

/-- Names that lead from a directory down to an entry. -/
abbrev Path := List String

/-- A directory with files and directories inside it. -/
structure Directory where
  /-- Files by name. The directories inside hold none. -/
  files : Std.TreeMap String ByteArray
  /-- Paths of the directories, that of the whole one being empty. -/
  directories : List Path

namespace Directory

/-- A directory without entries. -/
def empty : Directory := ⟨∅, [[]]⟩

/-- Name of the record log. -/
def logName : String := "data.log"

/-- Name under which a compacted log is written before it replaces the log. -/
def draftName : String := "data.log.compact"

/-- The content of a file. -/
def content? (dir : Directory) (name : String) : Option ByteArray := dir.files[name]?

/-- The content of the record log, empty when there is none. -/
def log (dir : Directory) : ByteArray := (dir.content? logName).getD .empty

/-- Whether a name stands for a directory. -/
def isDirectory (dir : Directory) (name : String) : Bool := dir.directories.contains [name]

/-- Creates or replaces a file. -/
def put (dir : Directory) (name : String) (content : ByteArray) : Directory :=
  { dir with files := dir.files.insert name content }

/-- Replaces the record log. -/
def putLog (dir : Directory) (content : ByteArray) : Directory := dir.put logName content

/-- Removes a file. -/
def erase (dir : Directory) (name : String) : Directory :=
  { dir with files := dir.files.erase name }

/-- Brings the directory back when it was removed. -/
def ensure (dir : Directory) : Directory :=
  if dir.directories.contains [] then dir else { dir with directories := [] :: dir.directories }

/-- The name of an entry right inside, by its path. -/
def nameOf? : Path → Option String
  | [name] => some name
  | _ => none

/-- The names in the directory, in ascending order. -/
def names (dir : Directory) : List String :=
  (dir.files.keys ++ dir.directories.filterMap nameOf?).mergeSort (· ≤ ·)

/-! ## Changes from outside -/

/-- Whether a text without slashes can be the name of a new entry. -/
def isName (text : String) : Bool :=
  text ≠ "." && text ≠ ".." && text.utf8ByteSize ≤ 255 && text.toList.all (·.toNat ≠ 0)

/-- The directory that some steps lead to from another one. A step names a directory inside, or is
one dot to stay or two dots to go back up, but not out of the whole. -/
def walk (dir : Directory) : (place : Path) → List String → Option Path
  | place, [] => if dir.directories.contains place then some place else none
  | place, step :: rest =>
    if !dir.directories.contains place then none
    else if step = "." then dir.walk place rest
    else if step = ".." then
      if place.isEmpty then none else dir.walk place.dropLast rest
    else dir.walk (place ++ [step]) rest

/-- The path of the entry that a text names, which need not be there. Slashes separate the steps
that lead to it, may be repeated and may end the text. The empty text names the whole directory. -/
def locate? (dir : Directory) (text : String) : Option Path :=
  let steps := (text.splitOn "/").filter (· ≠ "")
  if text.startsWith "/" then none
  else
    match steps.getLast? with
    | none => some []
    | some name =>
      if isName name then (dir.walk [] steps.dropLast).map (· ++ [name]) else none

/-- Whether there is an entry of a path. -/
def hasEntry (dir : Directory) (path : Path) : Bool :=
  dir.directories.contains path || (nameOf? path).any (· ∈ dir.files)

/-- Whether a directory holds nothing. -/
def isEmptyAt (dir : Directory) (path : Path) : Bool :=
  dir.directories.all (fun other => other.isEmpty || other.dropLast ≠ path) &&
    (!path.isEmpty || dir.files.isEmpty)

/-- Makes an empty directory under a free name. -/
def makeDirectory? (dir : Directory) (text : String) : Option Directory := do
  let path ← dir.locate? text
  if dir.hasEntry path then none
  else some { dir with directories := path :: dir.directories }

/-- Removes an empty directory. -/
def removeDirectory? (dir : Directory) (text : String) : Option Directory := do
  let path ← dir.locate? text
  if dir.directories.contains path && dir.isEmptyAt path then
    some { dir with directories := dir.directories.filter (· ≠ path) }
  else none

/-- Appends bytes to the record log, which is created when absent. -/
def appendLog? (dir : Directory) (bytes : ByteArray) : Option Directory :=
  if !dir.directories.contains [] || dir.isDirectory logName then none
  else some (dir.putLog (dir.log ++ bytes))

/-- Bytes that a file may have: its blocks of 4096 bytes are counted by a 32-bit word. -/
def maxFileSize : Nat := ((1 <<< 32) - 1) * 4096

/-- Sets the length of the record log. What is added reads as zeros. -/
def truncateLog? (dir : Directory) (length : Nat) : Option Directory := do
  let log ← dir.content? logName
  if maxFileSize < length then none
  else if length ≤ log.size then some (dir.putLog (log.extract 0 length))
  else some (dir.putLog (log ++ Bytes.zeros (length - log.size)))

end Directory

end ElasticCache
