import StoryMachine.Machine

/-!
# Variables, calls and branches

Variable 0 is the top of the stack, 1 to 15 are the locals of the current routine
and the others are globals.  Reading variable 0 takes the word off the stack and
writing it pushes one, except where an instruction names a variable by an operand:
then the word on top is read or replaced in place.
-/

namespace StoryMachine.Play

variable {m : Type → Type} [Monad m]

/-- The address of a global variable. -/
def globalAddress (machine : Machine) (number : UInt8) : Nat :=
  machine.globals + 2 * (number.toNat - 16)

/-- Reads a variable. -/
def readVariable (number : UInt8) : Play m Word := do
  if number = 0 then onStack CallStack.pop
  else if number < 16 then MonadExcept.ofExcept ((← get).stack.localValue number)
  else look (·.readWord (globalAddress (← get) number))

/-- Writes a variable. -/
def writeVariable (number : UInt8) (value : Word) : Play m Unit := do
  if number = 0 then onStack (CallStack.push value)
  else if number < 16 then onStack (CallStack.setLocal number value)
  else edit (Edit.writeWord (globalAddress (← get) number) value)

/-- Reads a variable that an operand names. -/
def readNamed (number : UInt8) : Play m Word := do
  if number = 0 then MonadExcept.ofExcept (← get).stack.peek else readVariable number

/-- Writes a variable that an operand names. -/
def writeNamed (number : UInt8) (value : Word) : Play m Unit := do
  if number = 0 then onStack (CallStack.poke value) else writeVariable number value

/-- The value of an operand. -/
def operandValue : Operand → Play m Word
  | .large value => pure value
  | .small value => pure value.toUInt16
  | .var number => readVariable number

/-- The values of operands, taken from left to right. -/
def operandValues : List Operand → Play m (List Word)
  | [] => pure []
  | operand :: rest => do
    let value ← operandValue operand
    return value :: (← operandValues rest)

/-- Delivers a result to a variable, or drops it. -/
def storeTo (target : Option UInt8) (value : Word) : Play m Unit :=
  match target with
  | some number => writeVariable number value
  | none => pure ()

/-- Delivers the result of an instruction. -/
def store (instruction : Instruction) (value : Word) : Play m Unit :=
  storeTo instruction.store value

/-- Enters a routine by its packed address.  Routine zero does nothing and returns
zero. -/
def call (routine : Word) (arguments : List Word) (target : Option UInt8) : Play m Unit := do
  if routine = 0 then storeTo target 0
  else
    let machine ← get
    let address := machine.memory.story.routineAddress routine
    setPc (← onStack (CallStack.call machine.memory address arguments machine.pc target none))

/-- Enters the routine that is run when a read has timed out. -/
def interrupt (routine : Word) (pending : PendingRead) : Play m Unit := do
  let machine ← get
  let address := machine.memory.story.routineAddress routine
  setPc (← onStack (CallStack.call machine.memory address [] machine.pc none (some pending)))

/-- Returns from the current routine.  A routine that was run because a read had
timed out leaves its value for that read; the main routine of version 6 ends the
story. -/
def ret (value : Word) : Play m Unit := do
  let frame ← onStack CallStack.ret
  setPc frame.returnPc
  match frame.pending with
  | some pending => modify fun machine => { machine with resume := some (pending, value) }
  | none =>
    let machine ← get
    if machine.memory.version = 6 ∧ machine.stack.depth = 1 then
      modify fun machine => { machine with halted := some .quit }
    else storeTo frame.store value

/-- Goes where a taken branch leads. -/
def jump : BranchTarget → Play m Unit
  | .returnFalse => ret 0
  | .returnTrue => ret 1
  | .address address => setPc address

/-- Branches if the outcome of a test is the one the instruction asks for. -/
def branch (instruction : Instruction) (outcome : Bool) : Play m Unit :=
  match instruction.branch with
  | some branch =>
    if branch.condition = outcome then jump (branch.target instruction.next) else pure ()
  | none => pure ()

/-- Reports how a save or restore went: through a store variable, or in version 3
through a branch. -/
def report (instruction : Instruction) (value : Word) : Play m Unit :=
  if instruction.store.isSome then store instruction value
  else branch instruction (value != 0)

/-- Object zero is no object: says so, and is false. -/
def isObject (object : Word) (opcode : Opcode) : Play m Bool := do
  if object = 0 then
    warn s!"{opcode.title} with object 0"
    return false
  else return true

end StoryMachine.Play
