import StoryMachine.Machine.Dispatch

/-!
# Running a story

`Machine.create` loads a story, `Machine.execute` runs a bounded number of
instructions.  A machine that has quit or met a fault stays halted, and says so
again, until it is restarted or restored.
-/

namespace StoryMachine

namespace Play

variable {m : Type → Type} [Monad m]

/-- Executes one instruction, or goes on with a read whose routine has returned. -/
def step : Play m Unit := do
  let machine ← get
  match machine.resume with
  | some (pending, value) =>
    set { machine with resume := none }
    resumeRead value pending
  | none =>
    set { machine with current := machine.pc }
    let instruction ← MonadExcept.ofExcept (Instruction.decode machine.memory machine.pc)
    ask (·.trace instruction)
    setPc instruction.next
    dispatch instruction

end Play

namespace Machine

variable {m : Type → Type} [Monad m]

/-- Does what a machine does: its outcome, and the machine afterwards. -/
def play (machine : Machine) (host : Host m) (work : Play m α) : m (Except Fault α × Machine) :=
  StateT.run (ExceptT.run (work host)) machine

/-- Executes instructions until the machine halts, at most `cycles` of them. -/
def executeFrom (host : Host m) : (cycles : Nat) → Machine → m (Event × Machine)
  | 0, machine => return (.running, machine)
  | cycles + 1, machine => do
    match ← machine.play host Play.step with
    | (.error fault, machine) =>
      let fault := fault.atPc machine.current
      host.note ⟨.error, fault.message⟩
      return (.error fault, { machine with halted := some (.error fault) })
    | (.ok (), machine) =>
      match machine.halted with
      | some event => return (event, machine)
      | none => executeFrom host cycles machine

/-- Executes at most `cycles` instructions, and says why it stopped. -/
def execute (machine : Machine) (host : Host m) (cycles : Nat) : m (Event × Machine) :=
  match machine.halted with
  | some event => return (event, machine)
  | none => executeFrom host cycles machine

/-- What it takes to read the text of a story, with the alphabet and the extra
characters that it brings. -/
def loadCodec : Edit Codec := do
  let memory ← Edit.view id
  let version := memory.version
  let alphabetTable := if 5 ≤ version then (memory.headerWord .alphabetTable).toNat else 0
  let alphabet ←
    if alphabetTable = 0 then pure .standard
    else Edit.look fun memory => Alphabet.load memory.bytes alphabetTable
  Edit.noteIf memory.extension.notice
  let unicodeTable := (memory.extensionWord .unicodeTable).toNat
  let unicode ←
    if unicodeTable = 0 then pure .standard
    else Edit.look fun memory => UnicodeTable.load memory.bytes unicodeTable
  return { version, alphabet, unicode,
           abbreviations := (memory.headerWord .abbreviationsTable).toNat }

/-- The machine of a story whose header is set up, before it is started. -/
def assemble (memory : Memory) (codec : Codec) (options : Options) (info : HostInfo)
    (seed : UInt32) : Machine where
  memory
  stack := {}
  pc := 0
  current := 0
  objects := { version := memory.version, address := (memory.headerWord .objectTable).toNat }
  globals := (memory.headerWord .globalTable).toNat
  codec
  dictionaries := {}
  streams := {}
  random := .ofSeed seed
  undo := { levels := options.undoLevels }
  options
  info
  resume := none
  halted := none

/-- Loads a story and starts it. -/
def create (host : Host m) (image : Array UInt8) (options : Options) : m (Except Fault Machine) :=
  ExceptT.run do
    let memory ← MonadExcept.ofExcept (Memory.ofImage image)
    let info ← liftM host.info
    let (outcome, draft) := Edit.run (do Header.setUp info options; loadCodec) memory
    liftM (draft.notices.forM host.note)
    let codec ← MonadExcept.ofExcept outcome
    let seed ← match options.randomSeed with
      | some seed => pure seed
      | none => liftM host.entropy
    let (outcome, machine) ←
      liftM ((assemble draft.memory codec options info seed).play host Play.start)
    MonadExcept.ofExcept outcome
    let size := machine.memory.size
    liftM <| host.note <| .remark <|
      s!"version {machine.memory.version} story, {size} bytes, starts at {Numeral.marked 5 machine.pc}"
    return machine

end Machine

end StoryMachine
