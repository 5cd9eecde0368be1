import StoryMachine.Numeral

/-!
# Faults

Everything that can stop an instruction or reject a save file is a `Fault`: a
`kind`, the address of the instruction at which it arose if that is known, and
a detail written where it was found.  The kinds fall into two classes.  A
*fatal* fault halts the machine; the others (a save file that cannot be read,
nothing left to undo) are reported to the running story as a failed operation.
`Fault.atPc_pc` records that the first address attached to a fault is the one
it keeps.
-/

namespace StoryMachine

/-- What went wrong. -/
inductive FaultKind where
  | corruptImage
  | unsupportedVersion
  | outOfBounds
  | writeToStatic
  | stackUnderflow
  | stackOverflow
  | unknownOpcode
  | badOperands
  | badVariable
  | badDictionary
  | badAbbreviation
  | divisionByZero
  | badStream
  | strictWarning
  /-- A chain of links that was followed without ever coming to its end. -/
  | endlessChain
  | internalError
  /-- A number that left the range of the machine's own arithmetic.  Nobody is told
  of it: the program breaks off. -/
  | arithmeticOverflow
  | notQuetzal
  | truncated
  | missingChunk
  | wrongStory
  | corruptSnapshot
  | fileUnavailable
  | nothingToUndo
  deriving DecidableEq

namespace FaultKind

/-- The number under which a kind is reported. -/
def code : FaultKind → Nat
  | corruptImage => 1
  | unsupportedVersion => 2
  | outOfBounds => 3
  | writeToStatic => 4
  | stackUnderflow => 5
  | stackOverflow => 6
  | unknownOpcode => 7
  | badOperands => 8
  | badVariable => 9
  | badDictionary => 10
  | badAbbreviation => 11
  | divisionByZero => 12
  | badStream => 13
  | strictWarning => 14
  | endlessChain => 50
  | internalError => 51
  | arithmeticOverflow => 52
  | notQuetzal => 60
  | truncated => 61
  | missingChunk => 62
  | wrongStory => 63
  | corruptSnapshot => 64
  | fileUnavailable => 65
  | nothingToUndo => 66

/-- Kinds below code 60 halt the machine. -/
def isFatal (kind : FaultKind) : Bool :=
  kind.code < 60

/-- The words for a kind. -/
def text : FaultKind → String
  | corruptImage => "CORRUPT STORY FILE"
  | unsupportedVersion => "UNSUPPORTED VERSION"
  | outOfBounds => "ADDRESS OUT OF BOUNDS"
  | writeToStatic => "WRITE TO STATIC MEMORY"
  | stackUnderflow => "STACK UNDERFLOW"
  | stackOverflow => "STACK OVERFLOW"
  | unknownOpcode => "UNKNOWN OPCODE"
  | badOperands => "BAD OPERANDS"
  | badVariable => "BAD VARIABLE"
  | badDictionary => "BAD DICTIONARY"
  | badAbbreviation => "BAD ABBREVIATION"
  | divisionByZero => "DIVISION BY ZERO"
  | badStream => "BAD OUTPUT STREAM"
  | strictWarning => "WARNING"
  | endlessChain => "ENDLESS CHAIN"
  | internalError => "INTERNAL ERROR"
  | arithmeticOverflow => "ARITHMETIC OVERFLOW"
  | notQuetzal => "NOT A SAVE FILE"
  | truncated => "TRUNCATED SAVE FILE"
  | missingChunk => "MISSING CHUNK"
  | wrongStory => "SAVE FILE IS FOR ANOTHER STORY"
  | corruptSnapshot => "CORRUPT SAVE FILE"
  | fileUnavailable => "FILE NOT AVAILABLE"
  | nothingToUndo => "NOTHING TO UNDO"

end FaultKind

/-- A failure: its kind, the instruction at which it arose, and a detail. -/
structure Fault where
  kind : FaultKind
  detail : String := ""
  pc : Option Nat := none
  deriving DecidableEq

namespace Fault

/-- Whether the machine halts on this fault. -/
def isFatal (fault : Fault) : Bool :=
  fault.kind.isFatal

/-- Attaches the address of the failing instruction.  A fault that already
carries an address keeps it. -/
def atPc (fault : Fault) (pc : Nat) : Fault :=
  { fault with pc := fault.pc <|> some pc }

/-- The line shown to the player: the kind, then ` AT $` and the address in at
least five digits, then `; ` and the detail, each part only if there is one. -/
def message (fault : Fault) : String :=
  let place := match fault.pc with
    | some pc => " AT $" ++ Numeral.hexUpper 5 pc
    | none => ""
  let tail := if fault.detail.isEmpty then "" else "; " ++ fault.detail
  fault.kind.text ++ place ++ tail

@[simp] theorem atPc_pc (fault : Fault) (pc : Nat) :
    (fault.atPc pc).pc = some (fault.pc.getD pc) := by
  cases h : fault.pc <;> simp [atPc, h]

@[simp] theorem atPc_kind (fault : Fault) (pc : Nat) :
    (fault.atPc pc).kind = fault.kind := rfl

@[simp] theorem atPc_detail (fault : Fault) (pc : Nat) :
    (fault.atPc pc).detail = fault.detail := rfl

/-- Only the first address attached to a fault counts. -/
theorem atPc_atPc (fault : Fault) (pc later : Nat) :
    (fault.atPc pc).atPc later = fault.atPc pc := by
  cases h : fault.pc <;> simp [atPc, h]

end Fault

end StoryMachine
