import StoryMachine.Terminal.Console
import StoryMachine.Terminal.Path
import StoryMachine.Text.Lines

/-!
# Files in memory

A `Disk` is a tree of files with a current directory, kept as the list of its
files by their places.  There is a directory wherever a file lies below, and on
the way to the current directory; directories come and go in no other way.

Names are followed part by part: every part but the last has to be a directory,
and a part `..` leads back.
-/

namespace StoryMachine.Terminal

/-- The names that lead from the root to a file or directory. -/
abbrev Place := List String

/-- Files, and the directory in which names begin. -/
structure Disk where
  current : Place := []
  files : List (Place × Array UInt8) := []

namespace Disk

variable (disk : Disk)

/-- The file at a place. -/
def file? (place : Place) : Option (Array UInt8) :=
  disk.files.lookup place

/-- Whether there is a directory at a place. -/
def isDirectory (place : Place) : Bool :=
  place.isPrefixOf disk.current
    || disk.files.any fun file => place.isPrefixOf file.1 && place.length < file.1.length

/-- Whether there is anything at a place. -/
def isThere (place : Place) : Bool :=
  (disk.file? place).isSome || disk.isDirectory place

/-- How many bytes a part of a name can have. -/
def maxPart : Nat := 255

/-- How many bytes a name can have. -/
def maxName : Nat := 4095

/-- Follows the parts of a name from a place. -/
def follow : (place : Place) → (parts : List String) → Except SystemFault Place
  | place, [] => .ok place
  | place, part :: rest =>
    if !disk.isDirectory place then
      .error (if (disk.file? place).isSome then .notDirectory else .notFound)
    else if part = "" ∨ part = "." then follow place rest
    else if part = ".." then follow place.dropLast rest
    else if maxPart < part.utf8ByteSize then .error .nameTooLong
    else follow (place ++ [part]) rest

/-- The place that a name stands for; the last part of it need not be there. -/
def resolve (name : String) : Except SystemFault Place :=
  if name.isEmpty then .error .notFound
  else if name.contains '\x00' then .error .nulInName
  else if maxName < name.utf8ByteSize then .error .nameTooLong
  else disk.follow (if Path.isAbsolute name then [] else disk.current) (Path.pieces name)

/-- Whether a name stands for anything. -/
def exists? (name : String) : Bool :=
  match disk.resolve name with
  | .ok place => disk.isThere place
  | .error _ => false

/-- The place of something that can be opened for reading.  A directory can, though
it cannot be read. -/
def find (name : String) : Except SystemFault Place := do
  let place ← disk.resolve name
  if disk.isThere place then .ok place else .error .notFound

/-- Puts a file at a place. -/
def put (place : Place) (bytes : Array UInt8) : Disk :=
  { disk with files := (place, bytes) :: disk.files.filter (·.1 ≠ place) }

/-- The place of a file that can be made. -/
def findNew (name : String) : Except SystemFault Place := do
  let place ← disk.resolve name
  if disk.isDirectory place then .error .isDirectory else .ok place

/-- What can be read at a place. -/
def read (place : Place) : Except SystemFault (List UInt8) :=
  match disk.file? place with
  | some bytes => .ok bytes.toList
  | none => .error (if disk.isDirectory place then .isDirectory else .notFound)

/-- Bytes with others written over them from an offset on; zeros fill a gap. -/
def overwrite (old : Array UInt8) (offset : Nat) (bytes : Array UInt8) : Array UInt8 :=
  old.extract 0 offset ++ Array.replicate (offset - old.size) 0 ++ bytes
    ++ old.extract (offset + bytes.size) old.size

/-- Writes into the file at a place. -/
def write (place : Place) (offset : Nat) (bytes : Array UInt8) : Disk :=
  disk.put place (overwrite ((disk.file? place).getD #[]) offset bytes)

/-- A disk with files below a current directory, by their names there. -/
def ofFiles (current : Place) (files : List (String × Array UInt8)) : Disk where
  current
  files := files.map fun (name, bytes) =>
    (current ++ (Path.pieces name).filter fun part => part ≠ "" && part ≠ ".", bytes)

/-- The files below the current directory by their names there. -/
def listing : List (String × Array UInt8) :=
  (disk.files.filter fun file => disk.current.isPrefixOf file.1).map fun (place, bytes) =>
    (String.intercalate "/" (place.drop disk.current.length), bytes)

end Disk

/-- A file that is being read: how far, and what has been read ahead. -/
structure ReadHead where
  place : Place
  offset : Nat := 0
  ahead : List UInt8 := []

namespace ReadHead

/-- How much is read ahead at a time. -/
def chunk : Nat := 8192

variable (content : List UInt8)

/-- All that is left of the file. -/
def rest (head : ReadHead) : List UInt8 × ReadHead :=
  (head.ahead ++ content.drop head.offset,
    { head with ahead := [], offset := max head.offset content.length })

/-- Reads ahead. -/
def refill (head : ReadHead) : ReadHead :=
  let ahead := (content.drop head.offset).take chunk
  { head with ahead, offset := head.offset + ahead.length }

/-- The next line, in at most `chunks` chunks. -/
def lineIn : (chunks : Nat) → ReadHead → List UInt8 × ReadHead
  | 0, head => ([], head)
  | chunks + 1, head =>
    let head := if head.ahead.isEmpty then head.refill content else head
    let (part, ahead) := splitLine head.ahead
    let head := { head with ahead }
    if part.isEmpty ∨ part.getLast? = some 10 then (part, head)
    else
      let (more, head) := lineIn chunks head
      (part ++ more, head)

/-- The next line; none at the end. -/
def line (head : ReadHead) : List UInt8 × ReadHead :=
  lineIn content (content.length + 2) head

end ReadHead

/-- A file that is being written, and how far. -/
structure WriteHead where
  place : Place
  offset : Nat := 0

end StoryMachine.Terminal
