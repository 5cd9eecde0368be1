import StoryMachine.Fault

/-!
# Compressed memory

Dynamic memory differs little from the image it started as.  Compressed memory is
the exclusive or of the two, with every run of zeros written as a zero and the
length of the run less one, and without the zeros at the end.  `expand` undoes
the run lengths, `decompress` gives back the memory.
-/

namespace StoryMachine.Compression

/-- A run of zeros, in pieces of at most 256. -/
def zeroRun (length : Nat) : List UInt8 :=
  (List.replicate (length / 256) [0, 255]).flatten
    ++ (if length % 256 = 0 then [] else [0, (length % 256 - 1).toUInt8])

/-- Takes one byte: the zeros that wait to be written, and what is written. -/
def pushByte (state : Nat × Array UInt8) (b : UInt8) : Nat × Array UInt8 :=
  if b = 0 then (state.1 + 1, state.2)
  else (0, (state.2 ++ zeroRun state.1).push b)

/-- Bytes with their runs of zeros shortened and the last one left off. -/
def shorten (bytes : List UInt8) : List UInt8 :=
  (bytes.foldl pushByte (0, #[])).2.toList

/-- Memory, compressed against what it started as. -/
def compress (current pristine : List UInt8) : List UInt8 :=
  shorten (List.zipWith (· ^^^ ·) current pristine)

/-- The fault of compressed memory. -/
def corrupt (detail : String) : Fault :=
  { kind := .corruptSnapshot, detail }

/-- Bytes with their runs of zeros written out, behind what came before. -/
def expandOnto (out : Array UInt8) : List UInt8 → Except Fault (Array UInt8)
  | [] => .ok out
  | b :: rest =>
    if b ≠ 0 then expandOnto (out.push b) rest
    else match rest with
      | [] => .error (corrupt "CMEM ENDS IN A ZERO RUN")
      | n :: rest => expandOnto (out ++ Array.replicate (n.toNat + 1) 0) rest

/-- Bytes with their runs of zeros written out. -/
def expand (data : List UInt8) : Except Fault (List UInt8) :=
  (expandOnto #[] data).map Array.toList

/-- The memory that was compressed against `pristine`. -/
def decompress (data pristine : List UInt8) : Except Fault (List UInt8) := do
  let bytes ← expand data
  if pristine.length < bytes.length then
    throw (corrupt s!"CMEM EXPANDS TO {bytes.length} BYTES")
  else
    let filled := bytes ++ List.replicate (pristine.length - bytes.length) 0
    return List.zipWith (· ^^^ ·) filled pristine

end StoryMachine.Compression
