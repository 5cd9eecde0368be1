import StoryMachine.Fault
import StoryMachine.Text.Utf8

/-!
# Chunk containers

A save file is a container of chunks.  A chunk is a four byte name, the length of
its data in four bytes, and the data, with a zero after data of odd length.  The
container is itself written like a chunk named `FORM`, whose data begins with the
kind of the container.  Whatever follows its declared end is not part of it.
-/

namespace StoryMachine

/-- A named piece of data. -/
structure Chunk where
  id : List UInt8
  data : List UInt8
  deriving DecidableEq

namespace Container

/-- The four bytes of a name in ASCII. -/
def name (text : String) : List UInt8 :=
  text.toList.map fun c => c.toNat.toUInt8

/-- A number in four bytes, the highest first, modulo 2^32. -/
def bytes4 (n : Nat) : List UInt8 :=
  [(n / 0x1000000).toUInt8, (n / 0x10000).toUInt8, (n / 0x100).toUInt8, n.toUInt8]

/-- The number in the first four bytes, the highest first. -/
def number4 (bytes : List UInt8) : Nat :=
  (bytes.take 4).foldl (fun n b => 256 * n + b.toNat) 0

/-- A chunk as bytes. -/
def writeChunk (chunk : Chunk) : List UInt8 :=
  chunk.id ++ bytes4 chunk.data.length ++ chunk.data
    ++ (if chunk.data.length % 2 = 1 then [0] else [])

/-- A container as bytes. -/
def write (kind : List UInt8) (chunks : List Chunk) : List UInt8 :=
  let body := kind ++ chunks.flatMap writeChunk
  name "FORM" ++ bytes4 body.length ++ body

/-- Whether some bytes begin like a container of a kind. -/
def isOfKind (kind bytes : List UInt8) : Bool :=
  12 ≤ bytes.length && bytes.take 4 == name "FORM" && (bytes.drop 8).take 4 == kind

/-- Where a container says that it ends. -/
def declaredEnd (bytes : List UInt8) : Nat :=
  8 + number4 (bytes.drop 4)

/-- How many bytes follow the end of a container. -/
def surplus (bytes : List UInt8) : Nat :=
  bytes.length - declaredEnd bytes

/-- The fault of a container that ends too early. -/
def truncated (detail : String) : Fault :=
  { kind := .truncated, detail }

/-- The chunks in the rest of a container, after the first `skip` bytes of it;
`place` counts the bytes before. -/
def chunksFrom : (skip place : Nat) → List UInt8 → Except Fault (List Chunk)
  | _, _, [] => .ok []
  | skip + 1, place, _ :: rest => chunksFrom skip (place + 1) rest
  | 0, place, b :: rest =>
    let here := b :: rest
    let length := number4 (here.drop 4)
    if here.length < 8 then .error (truncated s!"CHUNK HEADER AT {place}")
    else if here.length < 8 + length then
      .error (truncated s!"CHUNK {Utf8.lossy (here.take 4)} NEEDS {length} BYTES")
    else do
      let others ← chunksFrom (7 + length + length % 2) (place + 1) rest
      return ⟨here.take 4, (here.drop 8).take length⟩ :: others

/-- The chunks of a container of a kind. -/
def chunks (kind bytes : List UInt8) : Except Fault (List Chunk) :=
  if !isOfKind kind bytes then .error { kind := .notQuetzal }
  else if bytes.length < declaredEnd bytes then
    .error (truncated s!"FORM NEEDS {declaredEnd bytes} BYTES, HAS {bytes.length}")
  else chunksFrom 0 12 ((bytes.take (declaredEnd bytes)).drop 12)

/-- The data of the first chunk with a name. -/
def find? (chunks : List Chunk) (id : List UInt8) : Option (List UInt8) :=
  (chunks.find? (·.id == id)).map Chunk.data

end Container

end StoryMachine
