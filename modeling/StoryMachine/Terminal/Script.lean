import StoryMachine.Terminal.Disk

/-!
# A console that follows a script

A player at a terminal whose lines and keys are known beforehand, with files in
memory.  Steps that are to fail are named in the script.  Every step leaves an
act, so that a session against a script is a function of the script.
-/

namespace StoryMachine.Terminal

/-- The steps at a console that can fail. -/
inductive Step where
  | openEditor
  | openTerminal
  | prepare
  | restore
  | awaitKey
  | write
  | setPrompt
  | setBuffer
  | awaitLine
  | cancelLine
  deriving DecidableEq

/-- Something done at a console. -/
inductive Act where
  | wrote (pieces : List Piece)
  /-- A prompt for the next line. -/
  | prompted (text : String)
  /-- Text put into the line editor. -/
  | filled (text : String)
  /-- A look at the line editor. -/
  | awaitedLine (timed : Bool)
  /-- A look at the keyboard. -/
  | awaitedKey (timed : Bool)
  /-- A line for the history. -/
  | remembered (text : String)
  | reportedInterrupts
  /-- One of the steps that take nothing. -/
  | took (step : Step)
  | noted (notice : Notice)
  | traced (listing : String)
  deriving DecidableEq

/-- What happens in a line editor. -/
inductive LineCue where
  /-- A line, ended by the enter key. -/
  | entered (text : String)
  /-- Text stands in the editor, but nothing else happens. -/
  | typed (text : String)
  | interrupted
  | closed
  | failed
  deriving DecidableEq

/-- What happens at a keyboard. -/
inductive KeyCue where
  | pressed (key : Key)
  /-- Nothing happens until the time is over. -/
  | nothing
  | interrupted
  /-- Something happens that is no key. -/
  | resized
  | failed
  deriving DecidableEq

/-- What is going to happen at a console, and what has been done there. -/
structure Script where
  /-- Lines and columns, if they can be had. -/
  size : Option (Nat × Nat) := some (24, 80)
  lines : List LineCue := []
  keys : List KeyCue := []
  /-- The steps that fail. -/
  failing : List Step := []
  /-- How many writes succeed, if not all of them. -/
  writes : Option Nat := none
  disk : Disk := {}
  /-- The levels of the notices that are kept. -/
  levels : List Level := [.error, .warn]
  /-- Whether executed instructions are kept. -/
  traces : Bool := false
  buffer : String := ""
  stopped : Bool := false
  readers : Array ReadHead := #[]
  writers : Array WriteHead := #[]
  /-- What has been done, the newest first. -/
  acts : List Act := []

namespace Script

/-- The failure of a step that is to fail. -/
def failure : SystemFault := .other "terminal failed"

variable (script : Script)

/-- Adds an act. -/
def add (act : Act) : Script :=
  { script with acts := act :: script.acts }

/-- Whether a step fails. -/
def outcome (step : Step) : Except SystemFault Unit :=
  if script.failing.contains step then .error failure else .ok ()

/-- Goes through what happens in the line editor until there is something to say.
When nothing is left, there is no more input. -/
def lineFrom (timed : Option Word) : List LineCue → Script → Except SystemFault LineEvent × Script
  | cues, script =>
    let script := script.add (.awaitedLine timed.isSome)
    match script.outcome .awaitLine, cues with
    | .error fault, _ => (.error fault, { script with lines := cues })
    | .ok (), [] => (.ok .closed, { script with lines := [] })
    | .ok (), .entered text :: rest => (.ok (.entered text), { script with lines := rest })
    | .ok (), .interrupted :: rest => (.ok .interrupted, { script with lines := rest })
    | .ok (), .closed :: rest => (.ok .closed, { script with lines := rest })
    | .ok (), .failed :: rest => (.error failure, { script with lines := rest })
    | .ok (), .typed text :: rest =>
      let script := { script with buffer := text }
      if timed.isSome then (.ok .timedOut, { script with lines := rest })
      else lineFrom timed rest script

/-- Goes through what happens at the keyboard until there is something to say.  When
nothing is left, somebody asks to stop. -/
def keyFrom (timed : Option Word) : List KeyCue → Script → Except SystemFault KeyEvent × Script
  | cues, script =>
    let script := script.add (.awaitedKey timed.isSome)
    match script.outcome .awaitKey, cues with
    | .error fault, _ => (.error fault, { script with keys := cues })
    | .ok (), [] => (.ok .interrupted, { script with keys := [] })
    | .ok (), .interrupted :: rest => (.ok .interrupted, { script with keys := rest })
    | .ok (), .failed :: rest => (.error failure, { script with keys := rest })
    | .ok (), .resized :: rest => keyFrom timed rest script
    | .ok (), .nothing :: rest =>
      if timed.isSome then (.ok .timedOut, { script with keys := rest })
      else keyFrom timed rest script
    | .ok (), .pressed key :: rest =>
      match key.event? with
      | some event => (.ok event, { script with keys := rest })
      | none => keyFrom timed rest script

end Script

/-- What a scripted console does. -/
abbrev Scripted := StateM Script

namespace Script

/-- A step that leaves an act and may be one of those that fail. -/
def take (step : Step) (act : Act) : Scripted (Except SystemFault Unit) := do
  modify (·.add act)
  return (← get).outcome step

/-- Writes, as long as writes succeed. -/
def write (pieces : List Piece) : Scripted (Except SystemFault Unit) := do
  let script ← get
  if script.writes = some 0 then return .error failure
  else
    set ({ script with writes := script.writes.map (· - 1) }.add (.wrote pieces))
    return script.outcome .write

/-- Opens a file. -/
def openFile (name : String) : Scripted (Except SystemFault Reader) := do
  let script ← get
  match script.disk.find name with
  | .error fault => return .error fault
  | .ok place =>
    set { script with readers := script.readers.push { place } }
    return .ok ⟨script.readers.size⟩

/-- Reads part of a file. -/
def readPart (part : List UInt8 → ReadHead → List UInt8 × ReadHead) (file : Reader) :
    Scripted (Except SystemFault (List UInt8)) := do
  let script ← get
  match script.readers[file.id]? with
  | none => return .error .notFound
  | some head =>
    match script.disk.read head.place with
    | .error fault => return .error fault
    | .ok content =>
      let (bytes, head) := part content head
      set { script with readers := script.readers.setIfInBounds file.id head }
      return .ok bytes

/-- Makes a file. -/
def createFile (name : String) : Scripted (Except SystemFault Writer) := do
  let script ← get
  match script.disk.findNew name with
  | .error fault => return .error fault
  | .ok place =>
    set { script with
      disk := script.disk.put place #[]
      writers := script.writers.push { place } }
    return .ok ⟨script.writers.size⟩

/-- Writes to a file. -/
def writeFile (file : Writer) (bytes : List UInt8) : Scripted (Except SystemFault Unit) := do
  let script ← get
  match script.writers[file.id]? with
  | none => return .error .notFound
  | some head =>
    set { script with
      disk := script.disk.write head.place head.offset bytes.toArray
      writers := script.writers.setIfInBounds file.id
        { head with offset := head.offset + bytes.length } }
    return .ok ()

/-- Keeps a notice, if its level is kept. -/
def note (notice : Notice) : Scripted Unit :=
  modify fun script =>
    if script.levels.contains notice.level then script.add (.noted notice) else script

/-- Keeps an instruction, if they are kept. -/
def trace (instruction : Instruction) : Scripted Unit :=
  modify fun script =>
    if script.traces then script.add (.traced instruction.listing) else script

/-- The scripted console. -/
def console : Console Scripted where
  openEditor := take .openEditor (.took .openEditor)
  reportInterrupts := modify (·.add .reportedInterrupts)
  openTerminal := take .openTerminal (.took .openTerminal)
  size := do
    match (← get).size with
    | some size => return .ok size
    | none => return .error failure
  prepare := take .prepare (.took .prepare)
  restore := take .restore (.took .restore)
  awaitKey timed := fun script => script.keyFrom timed script.keys
  write
  setPrompt text := take .setPrompt (.prompted text)
  setBuffer text := do
    modify fun script => { script with buffer := text }
    take .setBuffer (.filled text)
  buffer := do return (← get).buffer
  awaitLine timed := fun script => script.lineFrom timed script.lines
  addHistory text := modify (·.add (.remembered text))
  cancelLine := take .cancelLine (.took .cancelLine)
  stop := modify fun script => { script with stopped := true }
  isStopped := do return (← get).stopped
  openFile
  readAll := readPart ReadHead.rest
  readLineBytes := readPart ReadHead.line
  fileExists name := do return (← get).disk.exists? name
  createFile
  writeFile
  flushFile _ := return .ok ()
  note
  trace
  complain _ := pure ()
  entropy := pure 1
  longTime := pure (String.ofList (List.replicate 24 '#'))
  shortTime := pure (String.ofList (List.replicate 16 '#'))

end Script

end StoryMachine.Terminal
