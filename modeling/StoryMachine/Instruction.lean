import StoryMachine.Branch
import StoryMachine.Opcode

/-!
# Instructions

An instruction is an opcode byte (two in the extended form), the types of its
operands where the opcode byte does not tell them, the operands, and what the
opcode asks for after that: a store variable, branch data, text.

`Instruction.decode` reads the instruction at an address.  Type slots after the
first omitted one are ignored, whatever they say.
-/

namespace StoryMachine

/-- How the opcode and the operand types are written. -/
inductive Form where
  | long
  | short
  | var
  | ext
  deriving DecidableEq

/-- The type of an operand. -/
inductive OperandKind where
  | large
  | small
  | var
  deriving DecidableEq

namespace OperandKind

/-- The type that two bits stand for; three means that there is no operand. -/
def ofBits? (bits : UInt8) : Option OperandKind :=
  match (bits &&& 3).toNat with
  | 0 => some .large
  | 1 => some .small
  | 2 => some .var
  | _ => none

/-- The two bits of a type. -/
def bits : OperandKind → UInt8
  | .large => 0
  | .small => 1
  | .var => 2

/-- The four slots of a type byte. -/
def slots (b : UInt8) : List (Option OperandKind) :=
  [ofBits? (b >>> 6), ofBits? (b >>> 4), ofBits? (b >>> 2), ofBits? b]

/-- The types before the first omitted one. -/
def leading : List (Option OperandKind) → List OperandKind
  | some kind :: rest => kind :: leading rest
  | _ => []

end OperandKind

/-- An operand: a word, a byte, or the variable that holds the value. -/
inductive Operand where
  | large (value : Word)
  | small (value : UInt8)
  | var (number : UInt8)
  deriving DecidableEq

namespace Operand

/-- The type of an operand. -/
def kind : Operand → OperandKind
  | .large _ => .large
  | .small _ => .small
  | .var _ => .var

/-- The bytes of an operand. -/
def encode : Operand → List UInt8
  | .large value => value.toBytes
  | .small value => [value]
  | .var number => [number]

/-- An operand in a listing: variable zero is the stack, then come the locals and
the globals, each counted from zero. -/
def listing : Operand → String
  | .large value => "#" ++ Numeral.hex 4 value.toNat
  | .small value => "#" ++ Numeral.hex 2 value.toNat
  | .var number =>
    if number = 0 then "sp"
    else if number < 16 then "L" ++ Numeral.hex 2 (number.toNat - 1)
    else "G" ++ Numeral.hex 2 (number.toNat - 16)

/-- Reads an operand of a type, and the address after it. -/
def decode (memory : Memory) (address : Nat) : OperandKind → Except Fault (Operand × Nat)
  | .large => do return (.large (← memory.readWord address), address + 2)
  | .small => do return (.small (← memory.readByte address), address + 1)
  | .var => do return (.var (← memory.readByte address), address + 1)

/-- Reads operands of the given types, and the address after them. -/
def decodeAll (memory : Memory) : (address : Nat) → List OperandKind →
    Except Fault (List Operand × Nat)
  | address, [] => .ok ([], address)
  | address, kind :: kinds => do
    let (operand, next) ← decode memory address kind
    let (operands, stop) ← decodeAll memory next kinds
    return (operand :: operands, stop)

end Operand

/-- A decoded instruction. -/
structure Instruction where
  address : Nat
  form : Form
  count : OperandCount
  number : UInt8
  opcode : Opcode
  operands : List Operand
  store : Option UInt8
  branch : Option Branch
  /-- Where the text of the instruction starts. -/
  text : Option Nat
  /-- Where the store variable or branch data is.  Snapshots record this. -/
  result : Nat
  /-- The address after the instruction. -/
  next : Nat
  deriving DecidableEq

namespace Instruction

/-- The part of an instruction before its operands. -/
structure Head where
  form : Form
  count : OperandCount
  number : UInt8
  kinds : List OperandKind
  /-- The address after this part. -/
  next : Nat
  deriving DecidableEq

/-- How many type bytes an instruction of the variable class has.  The two calls
with up to seven arguments have two. -/
def typeBytes (number : UInt8) : Nat :=
  if number = 12 ∨ number = 26 then 2 else 1

/-- Reads `count` type bytes. -/
def readKinds (memory : Memory) (address count : Nat) : Except Fault (List OperandKind) := do
  let bytes ← (List.range count).mapM fun i => memory.readByte (address + i)
  return OperandKind.leading (bytes.flatMap OperandKind.slots)

/-- Reads the opcode and the operand types at an address. -/
def readHead (memory : Memory) (pc : Nat) : Except Fault Head := do
  let byte ← memory.readByte pc
  if byte < 0x80 then
    let first := if byte &&& 0x40 ≠ 0 then .var else .small
    let second := if byte &&& 0x20 ≠ 0 then .var else .small
    return { form := .long, count := .op2, number := byte &&& 0x1f, kinds := [first, second],
             next := pc + 1 }
  else if byte = 0xbe ∧ 5 ≤ memory.version then
    let number ← memory.readByte (pc + 1)
    let kinds ← readKinds memory (pc + 2) 1
    return { form := .ext, count := .ext, number, kinds, next := pc + 3 }
  else if byte < 0xc0 then
    match OperandKind.ofBits? (byte >>> 4) with
    | some kind =>
      return { form := .short, count := .op1, number := byte &&& 0x0f, kinds := [kind],
               next := pc + 1 }
    | none =>
      return { form := .short, count := .op0, number := byte &&& 0x0f, kinds := [],
               next := pc + 1 }
  else if byte < 0xe0 then
    let kinds ← readKinds memory (pc + 1) 1
    return { form := .var, count := .op2, number := byte &&& 0x1f, kinds, next := pc + 2 }
  else
    let number := byte &&& 0x1f
    let kinds ← readKinds memory (pc + 1) (typeBytes number)
    return { form := .var, count := .var, number, kinds, next := pc + 1 + typeBytes number }

/-- The address after the packed text at an address: after the first word with
its top bit set.  The count is of the bytes left to look at. -/
def textEnd (memory : Memory) : (left address : Nat) → Except Fault Nat
  | 0, address => .error (memory.outOfBounds address)
  | left + 1, address => do
    let word ← memory.readWord address
    if word < 0x8000 then textEnd memory left (address + 2) else return address + 2

/-- How many bytes the packed text at an address takes. -/
def textLength (memory : Memory) (address : Nat) : Except Fault Nat := do
  return (← textEnd memory (memory.size - address) address) - address

/-- Reads the store variable, if the opcode has one. -/
def readStore (memory : Memory) (address : Nat) (stores : Bool) :
    Except Fault (Option UInt8 × Nat) := do
  if stores then return (some (← memory.readByte address), address + 1)
  else return (none, address)

/-- Reads the branch data, if the opcode has any. -/
def readBranch (memory : Memory) (address : Nat) (branches : Bool) :
    Except Fault (Option Branch × Nat) := do
  if branches then
    let (branch, length) ← Branch.decode memory address
    return (some branch, address + length)
  else return (none, address)

/-- Passes over the text, if the opcode has any. -/
def readText (memory : Memory) (address : Nat) (hasText : Bool) :
    Except Fault (Option Nat × Nat) := do
  if hasText then return (some address, address + (← textLength memory address))
  else return (none, address)

/-- Reads the instruction at an address. -/
def decode (memory : Memory) (pc : Nat) : Except Fault Instruction := do
  let version := memory.version
  let head ← readHead memory pc
  match Opcode.decode? head.count head.number version with
  | none =>
    throw { kind := .unknownOpcode, pc := some pc,
            detail := s!"{head.count.name} {head.number} IN VERSION {version}" }
  | some opcode =>
    let (operands, result) ← Operand.decodeAll memory head.next head.kinds
    let (store, afterStore) ← readStore memory result (opcode.stores version)
    let (branch, afterBranch) ← readBranch memory afterStore (opcode.branches version)
    let (text, next) ← readText memory afterBranch opcode.hasText
    return { address := pc, form := head.form, count := head.count, number := head.number, opcode,
             operands, store, branch, text, result, next }

/-- An instruction as a line of a listing. -/
def listing (instruction : Instruction) : String :=
  let operands := instruction.operands.map fun operand => " " ++ operand.listing
  let store := match instruction.store with
    | some variableNumber => s!" -> {variableNumber}"
    | none => ""
  let branch := match instruction.branch with
    | some branch => (if branch.condition then " ?" else " ?~") ++ s!"{branch.offset}"
    | none => ""
  Numeral.hex 5 instruction.address ++ ": " ++ instruction.opcode.title
    ++ String.join operands ++ store ++ branch

end Instruction

end StoryMachine
