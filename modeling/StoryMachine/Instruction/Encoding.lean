import StoryMachine.Instruction

/-!
# Instructions as bytes

The other direction of decoding.  `Instruction.encode` gives the bytes of an
instruction up to its text, if it has one.  Every type slot after the last
operand is written as omitted.
-/

namespace StoryMachine.Instruction

/-- The byte of four type slots, the first in the top bits; slots that are not
given are omitted ones. -/
def typeByte (kinds : List OperandKind) : UInt8 :=
  let slot (i : Nat) : UInt8 := (kinds[i]?.map OperandKind.bits).getD 3
  (slot 0 <<< 6) ||| (slot 1 <<< 4) ||| (slot 2 <<< 2) ||| slot 3

/-- The opcode and operand types of an instruction as bytes. -/
def encodeHead (instruction : Instruction) : List UInt8 :=
  let kinds := instruction.operands.map Operand.kind
  let number := instruction.number
  match instruction.form with
  | .long =>
    let first : UInt8 := if kinds[0]? = some .var then 0x40 else 0
    let second : UInt8 := if kinds[1]? = some .var then 0x20 else 0
    [number ||| first ||| second]
  | .short =>
    match kinds with
    | kind :: _ => [(0x80 : UInt8) ||| (kind.bits <<< 4) ||| number]
    | [] => [0xb0 ||| number]
  | .ext => [0xbe, number, typeByte kinds]
  | .var =>
    if instruction.count = .op2 then [0xc0 ||| number, typeByte kinds]
    else if typeBytes number = 2 then [0xe0 ||| number, typeByte kinds, typeByte (kinds.drop 4)]
    else [0xe0 ||| number, typeByte kinds]

/-- The bytes of an instruction, without its text. -/
def encode (instruction : Instruction) : List UInt8 :=
  instruction.encodeHead
    ++ instruction.operands.flatMap Operand.encode
    ++ instruction.store.toList
    ++ (instruction.branch.map Branch.encode).getD []

end StoryMachine.Instruction
