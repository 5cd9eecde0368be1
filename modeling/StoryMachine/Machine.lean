import StoryMachine.CallStack
import StoryMachine.Dictionary
import StoryMachine.ObjectTable
import StoryMachine.Random
import StoryMachine.Streams
import StoryMachine.UndoRing

/-!
# The machine

A `Machine` owns everything that one story needs, so any number of machines can
run side by side.  What it does is `Play`: it asks a host, changes the machine,
and may stop with a fault.  Whatever was changed before a fault stays changed.

Parts of the machine have actions of their own: `Edit` for memory, `StackWork`
for the call stack, `StreamWork` for the streams.  `Play.edit`, `Play.onStack` and
`Play.onStreams` run them where they belong.
-/

namespace StoryMachine

/-- Why a machine stopped executing. -/
inductive Event where
  | running
  | quit
  | error (fault : Fault)
  deriving DecidableEq

/-- A story at some point of its run. -/
structure Machine where
  memory : Memory
  stack : CallStack
  pc : Nat
  /-- The address of the instruction that is being executed. -/
  current : Nat
  objects : ObjectTable
  /-- The address of the table of global variables. -/
  globals : Nat
  codec : Codec
  dictionaries : Dictionaries
  streams : Streams
  random : Random
  undo : UndoRing
  options : Options
  info : HostInfo
  /-- A read to go on with, and what its routine returned. -/
  resume : Option (PendingRead × Word)
  /-- Why the machine will not go on. -/
  halted : Option Event

/-- What a machine does, with a host. -/
abbrev Play (m : Type → Type) := ReaderT (Host m) (ExceptT Fault (StateT Machine m))

namespace Play

variable {m : Type → Type} [Monad m]

/-- Asks the host. -/
def ask (f : Host m → m α) : Play m α := do
  liftM (f (← read))

/-- Sends a notice to the host. -/
def note (notice : Notice) : Play m Unit :=
  ask (·.note notice)

/-- Looks at memory. -/
def view (f : Memory → α) : Play m α := do
  return f (← get).memory

/-- Looks at memory where that may fail. -/
def look (f : Memory → Except Fault α) : Play m α := do
  MonadExcept.ofExcept (f (← get).memory)

/-- Works on memory. -/
def edit (work : Edit α) : Play m α := fun host => ExceptT.mk fun machine => do
  let (outcome, draft) := work.run machine.memory
  draft.notices.forM host.note
  return (outcome, { machine with memory := draft.memory })

/-- Works on the call stack. -/
def onStack (work : StackWork α) : Play m α := fun _ => ExceptT.mk fun machine => do
  let (outcome, stack) := machine.stack.run work
  return (outcome, { machine with stack })

/-- Works with the streams. -/
def onStreams (work : StreamWork m α) : Play m α := fun host => ExceptT.mk fun machine => do
  let (outcome, desk) ← StateT.run (ExceptT.run (work host))
    { memory := machine.memory, streams := machine.streams }
  return (outcome, { machine with memory := desk.memory, streams := desk.streams })

/-- Goes on at an address. -/
def setPc (pc : Nat) : Play m Unit :=
  modify fun machine => { machine with pc }

/-- Warns about something that the story does.  If warnings are to be fatal, this
is a fault. -/
def warn (message : String) : Play m Unit := do
  let machine ← get
  if machine.options.fatalWarnings then
    throw { kind := .strictWarning, detail := message, pc := some machine.current }
  else
    note (.warning (message ++ " at $" ++ Numeral.hexUpper 5 machine.current))

/-- Warns if there is something to warn about. -/
def warnIf : Option String → Play m Unit
  | some message => warn message
  | none => pure ()

end Play

end StoryMachine
