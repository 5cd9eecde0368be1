import StoryMachine.Machine.Flow

/-!
# Tables in memory

Instructions that search, copy and use tables of the story: `scanTable`,
`copyTable`, and the stacks that a version 6 story keeps in memory.  Such a stack
begins with the number of its free slots and is filled from its end downwards.
-/

namespace StoryMachine.Table

/-- The entry at an address: a word or a byte. -/
def entryAt (memory : Memory) (isWord : Bool) (address : Nat) : Except Fault Word := do
  if isWord then memory.readWord address
  else return (← memory.readByte address).toUInt16

/-- The address of the first of `count` entries that has a value. -/
def find? (memory : Memory) (value : Word) (isWord : Bool) (step : Nat) :
    (count address : Nat) → Except Fault (Option Nat)
  | 0, _ => .ok none
  | count + 1, address => do
    if (← entryAt memory isWord address) = value then return some address
    else find? memory value isWord step count (address + step)

/-- Copies bytes one at a time, from the first on; a byte may already have been
overwritten when its turn comes. -/
def copyForward : (count source destination : Nat) → Edit Unit
  | 0, _, _ => pure ()
  | count + 1, source, destination => do
    let b ← Edit.look (·.readByte source)
    Edit.writeByte destination b
    copyForward count (source + 1) (destination + 1)

/-- Copies a table.  To address zero, the table is cleared; a negative size asks
for copying forwards, and otherwise the source is kept intact. -/
def copy (first second size : Word) : Edit Unit := do
  let length := size.signed.natAbs
  if second = 0 then Edit.writeBytes first.toNat (List.replicate length 0)
  else if size.signed < 0 ∨ second ≤ first then
    copyForward length first.toNat second.toNat
  else
    let bytes ← Edit.look (·.slice first.toNat length)
    Edit.writeBytes second.toNat bytes

/-- Pushes a value onto a stack in memory.  False if it is full. -/
def pushOnto (stack : Nat) (value : Word) : Edit Bool := do
  let free ← Edit.look (·.readWord stack)
  if free = 0 then return false
  else
    Edit.writeWord (stack + 2 * free.toNat) value
    Edit.writeWord stack (free - 1)
    return true

/-- Pulls a value from a stack in memory. -/
def pullFrom (stack : Nat) : Edit Word := do
  let free := (← Edit.look (·.readWord stack)) + 1
  let value ← Edit.look (·.readWord (stack + 2 * free.toNat))
  Edit.writeWord stack free
  return value

end StoryMachine.Table

namespace StoryMachine.Play

variable {m : Type → Type} [Monad m]

/-- Searches a table for a value.  The form gives the length of a field in its low
seven bits and words by its top bit.  The answer is an address or zero. -/
def scanTable (value table count form : Word) : Play m Word := do
  let step := (form &&& 0x7f).toNat
  if step = 0 then
    warn "scan_table with zero field length"
    return 0
  else
    let found ← look fun memory =>
      Table.find? memory value (form &&& 0x80 != 0) step count.toNat table.toNat
    return match found with
      | some address => address.toUInt16
      | none => 0

end StoryMachine.Play
