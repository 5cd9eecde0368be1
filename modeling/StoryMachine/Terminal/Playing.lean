import StoryMachine.Machine.Run
import StoryMachine.Terminal.Arguments
import StoryMachine.Terminal.Session

/-!
# Playing a story at a terminal

The whole program but for its console: read the story, begin a session, go on with
a saved game if one is named, and execute until the story quits, meets a fault or
somebody asks to stop.  Faults are shown to the player and are no failure of the
program; a terminal that cannot be written to is.
-/

namespace StoryMachine.Terminal

variable {m : Type → Type} [Monad m]

/-- How arguments set up a machine. -/
def Arguments.options (arguments : Arguments) : Options where
  undoLevels := arguments.undo
  fatalWarnings := arguments.fatal
  randomSeed := arguments.seed.map UInt32.ofInt

/-- The levels of the notices that arguments ask for. -/
def Arguments.levels (arguments : Arguments) : List Level :=
  if arguments.verbose then [.error, .warn, .debug]
  else if arguments.warnings then [.error, .warn]
  else [.error]

variable (console : Console m)

/-- The bytes of a file. -/
def readFile (name : String) : m (Except SystemFault (List UInt8)) := do
  match ← console.openFile name with
  | .error fault => return .error fault
  | .ok file => console.readAll file

/-- Goes on with a saved game.  If that is not possible, the player is told. -/
def resumeSaved (name : String) (machine : Machine) : Sitting m Machine := do
  match ← Session.quietly (readFile console name) with
  | .error fault =>
    Session.report console fault.message
    return machine
  | .ok bytes =>
    let (outcome, machine) ← liftM (machine.play (Session.host console) (Play.restoreBytes bytes))
    if let .error fault := outcome then Session.report console fault.message
    return machine

/-- How many instructions are executed before anybody looks whether to stop. -/
def turnCycles : Nat := 5000

/-- Executes in turns, at most `turns` of them. -/
def takeTurns : (turns : Nat) → Machine → Sitting m Unit
  | 0, _ => pure ()
  | turns + 1, machine => do
    if ← Session.quietly console.isStopped then return
    let (event, machine) ← liftM (machine.execute (Session.host console) turnCycles)
    match event with
    | .running => takeTurns turns machine
    | .quit => return
    | .error fault => Session.report console fault.message

/-- More turns than any story takes. -/
def endlessTurns : Nat := 0x4000000000000000

/-- Plays a story from its image on. -/
def playImage (image : Array UInt8) (arguments : Arguments) : Sitting m Unit := do
  match ← liftM (Machine.create (Session.host console) image arguments.options) with
  | .error fault => Session.report console fault.message
  | .ok machine =>
    let machine ← match arguments.save with
      | some name => resumeSaved console name machine
      | none => pure machine
    takeTurns console endlessTurns machine
    Session.flush console

/-- Plays the story that arguments name. -/
def play (arguments : Arguments) : m (Except SystemFault Unit) := do
  match ← readFile console arguments.story with
  | .error fault => return .error fault
  | .ok image =>
    let storyName := (Path.fileStem? arguments.story).getD "story"
    match ← Session.begin console storyName (arguments.saveDirectory.getD ".") with
    | .error fault => return .error fault
    | .ok session =>
      let (outcome, _) ← StateT.run (playImage console image.toArray arguments).run session
      return outcome

end StoryMachine.Terminal
