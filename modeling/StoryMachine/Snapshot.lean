import StoryMachine.CallStack
import StoryMachine.Header
import StoryMachine.Snapshot.Compression
import StoryMachine.Snapshot.Container

/-!
# Snapshots

A snapshot holds what it takes to go on later: a chunk that identifies the story
and says where to resume, dynamic memory, plain or compressed, and all frames,
the oldest first, each followed by its locals and its words.  `capture` makes
one.  `parse` checks one against the running story and changes nothing, so a
snapshot that is turned down leaves the machine as it is.
-/

namespace StoryMachine

/-- What a snapshot restores. -/
structure Restored where
  dynamic : List UInt8
  stack : CallStack
  /-- Where the result of the instruction that made the snapshot goes. -/
  pc : Nat
  deriving DecidableEq

namespace Snapshot

/-- The kind of container that snapshots are. -/
def kind : List UInt8 := Container.name "IFZS"

/-- The name of the chunk that identifies the story. -/
def storyId : List UInt8 := Container.name "IFhd"

/-- The name of the chunk of compressed memory. -/
def compressedId : List UInt8 := Container.name "CMem"

/-- The name of the chunk of plain memory. -/
def plainId : List UInt8 := Container.name "UMem"

/-- The name of the chunk of frames. -/
def framesId : List UInt8 := Container.name "Stks"

/-- The name of the chunk of a remark. -/
def remarkId : List UInt8 := Container.name "ANNO"

/-- An address in three bytes, modulo 2^24. -/
def bytes3 (address : Nat) : List UInt8 :=
  [(address / 0x10000).toUInt8, (address / 0x100).toUInt8, address.toUInt8]

/-- The address in the first three bytes. -/
def number3 (bytes : List UInt8) : Nat :=
  (bytes.take 3).foldl (fun n b => 256 * n + b.toNat) 0

/-- The ten bytes that tell stories apart: release, serial code and checksum. -/
def identity (memory : Memory) : List UInt8 :=
  (memory.headerWord .release).toBytes ++ memory.serial ++ (memory.headerWord .checksum).toBytes

/-- The words of some bytes, two bytes each. -/
def wordsOf : List UInt8 → List Word
  | hi :: lo :: rest => Word.ofBytes hi lo :: wordsOf rest
  | _ => []

/-- A frame and its words, the oldest first, as bytes. -/
def frameBytes (frame : Frame) (words : List Word) : List UInt8 :=
  let drops := if frame.store.isNone then 0x10 else 0
  bytes3 frame.returnPc
    ++ [drops ||| frame.locals.length.toUInt8, frame.store.getD 0,
        ((1 <<< frame.arguments) - 1).toUInt8]
    ++ Word.toBytes frame.size.toUInt16
    ++ frame.locals.flatMap Word.toBytes
    ++ words.flatMap Word.toBytes

/-- Frames, the oldest first, and the words they share, as bytes. -/
def framesBytes : List Frame → List Word → List UInt8
  | [], _ => []
  | frame :: frames, words =>
    frameBytes frame (words.take frame.size) ++ framesBytes frames (words.drop frame.size)

/-- Makes a snapshot that resumes at `pc`. -/
def capture (memory : Memory) (stack : CallStack) (pc : Nat) (compressed : Bool)
    (remark : Option String) : List UInt8 :=
  let memoryChunk : Chunk :=
    if compressed then
      ⟨compressedId, Compression.compress memory.dynamic memory.pristineDynamic⟩
    else ⟨plainId, memory.dynamic⟩
  let remarkChunk : List Chunk := (remark.map fun text => ⟨remarkId, Utf8.encode text⟩).toList
  Container.write kind
    (⟨storyId, identity memory ++ bytes3 pc⟩ :: memoryChunk
      :: ⟨framesId, framesBytes stack.frames stack.words⟩ :: remarkChunk)

/-- What is said about a new snapshot. -/
def capturedNotice (snapshot : List UInt8) (pc : Nat) : Notice :=
  .remark s!"snapshot of {snapshot.length} bytes at pc {Numeral.marked 5 pc}"

/-- What is said about a save file that goes on after its end. -/
def surplusNotice? (bytes : List UInt8) : Option Notice :=
  if Container.isOfKind kind bytes ∧ 0 < Container.surplus bytes then
    some (.warning s!"{Container.surplus bytes} bytes after the end of the save file")
  else none

/-- The fault of a snapshot that makes no sense. -/
def corrupt (detail : String) : Fault :=
  { kind := .corruptSnapshot, detail }

/-- The fault of a snapshot that lacks a chunk. -/
def missing (detail : String) : Fault :=
  { kind := .missingChunk, detail }

/-- How many bits of a byte are set. -/
def bitCount (b : UInt8) : Nat :=
  (List.range 8).countP fun i => b.toNat.testBit i

/-- The frames in some bytes, the oldest first, each with its words, after the
first `skip` bytes. -/
def framesFrom : (skip : Nat) → List UInt8 → Except Fault (List (Frame × List Word))
  | _, [] => .ok []
  | skip + 1, _ :: rest => framesFrom skip rest
  | 0, b :: rest =>
    let here := b :: rest
    match here with
    | _ :: _ :: _ :: flags :: store :: arguments :: sizeHigh :: sizeLow :: body =>
      let localCount := (flags &&& 0x0f).toNat
      let size := (Word.ofBytes sizeHigh sizeLow).toNat
      let words := wordsOf (body.take (2 * (localCount + size)))
      if words.length < localCount + size then .error (corrupt "STKS")
      else do
        let frame : Frame :=
          { returnPc := number3 here, store := if flags &&& 0x10 ≠ 0 then none else some store,
            locals := words.take localCount, arguments := bitCount arguments, size }
        let others ← framesFrom (7 + 2 * (localCount + size)) rest
        return (frame, words.drop localCount) :: others
    | _ => .error (corrupt "STKS")

/-- The call stack in the data of a chunk. -/
def parseStack (data : List UInt8) : Except Fault CallStack := do
  let frames ← framesFrom 0 data
  CallStack.ofParts (frames.map Prod.fst) (frames.flatMap Prod.snd)

/-- The address to resume at, from the chunk that identifies the story. -/
def parsePc (memory : Memory) (chunks : List Chunk) : Except Fault Nat :=
  match Container.find? chunks storyId with
  | none => .error (missing "IFHD")
  | some data =>
    if data.length ≠ 13 then .error (corrupt s!"IFHD IS {data.length} BYTES")
    else if data.take 10 ≠ identity memory then .error { kind := .wrongStory }
    else
      let pc := number3 (data.drop 10)
      if memory.size ≤ pc then .error (corrupt ("PC " ++ Numeral.marked 5 pc)) else .ok pc

/-- Dynamic memory, compressed or else plain. -/
def parseMemory (memory : Memory) (chunks : List Chunk) : Except Fault (List UInt8) :=
  match Container.find? chunks compressedId, Container.find? chunks plainId with
  | some data, _ => Compression.decompress data memory.pristineDynamic
  | none, some data =>
    if data.length ≠ memory.dynamicCeiling then .error (corrupt s!"UMEM IS {data.length} BYTES")
    else .ok data
  | none, none => .error (missing "CMEM OR UMEM")

/-- The call stack. -/
def parseFrames (chunks : List Chunk) : Except Fault CallStack :=
  match Container.find? chunks framesId with
  | some data => parseStack data
  | none => .error (missing "STKS")

/-- Checks a snapshot against the running story. -/
def parse (bytes : List UInt8) (memory : Memory) : Except Fault Restored := do
  let chunks ← Container.chunks kind bytes
  let pc ← parsePc memory chunks
  let dynamic ← parseMemory memory chunks
  let stack ← parseFrames chunks
  return { dynamic, stack, pc }

end Snapshot

end StoryMachine
