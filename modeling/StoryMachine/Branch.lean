import StoryMachine.Memory

/-!
# Branches

An instruction that tests something is followed by one or two bytes of branch
data: which outcome branches, and how far.  Offsets 0 and 1 do not lead anywhere
but return false or true from the current routine.  Any other offset is counted
from two bytes before the end of the data, and addresses wrap at 2^64.
-/

namespace StoryMachine

/-- The address with a given value, wrapped at 2^64. -/
def wrapAddress (n : Int) : Nat :=
  (n % 0x10000000000000000).toNat

/-- Where a branch goes that is taken. -/
inductive BranchTarget where
  | returnFalse
  | returnTrue
  | address (address : Nat)
  deriving DecidableEq

/-- Branch data. -/
structure Branch where
  /-- The outcome that branches. -/
  condition : Bool
  offset : Int
  /-- Whether it takes one byte rather than two. -/
  short : Bool
  deriving DecidableEq

namespace Branch

/-- The value of fourteen bits in two's complement. -/
def signedOffset (bits : Nat) : Int :=
  if bits < 0x2000 then bits else (bits : Int) - 0x4000

/-- Reads the branch data at an address, and how many bytes it takes. -/
def decode (memory : Memory) (address : Nat) : Except Fault (Branch × Nat) := do
  let first ← memory.readByte address
  let condition := first &&& 0x80 != 0
  let high := (first &&& 0x3f).toNat
  if first &&& 0x40 ≠ 0 then
    return ({ condition, offset := high, short := true }, 1)
  else
    let second ← memory.readByte (address + 1)
    return ({ condition, offset := signedOffset (256 * high + second.toNat), short := false }, 2)

/-- Where the branch goes, if the instruction after it is at `next`. -/
def target (branch : Branch) (next : Nat) : BranchTarget :=
  if branch.offset = 0 then .returnFalse
  else if branch.offset = 1 then .returnTrue
  else .address (wrapAddress (next + branch.offset - 2))

/-- The bytes of branch data. -/
def encode (branch : Branch) : List UInt8 :=
  let polarity : UInt8 := if branch.condition then 0x80 else 0
  if branch.short then
    [polarity ||| 0x40 ||| (branch.offset % 0x40).toNat.toUInt8]
  else
    let bits := (branch.offset % 0x4000).toNat
    [polarity ||| (bits / 256).toUInt8, (bits % 256).toUInt8]

end Branch

end StoryMachine
