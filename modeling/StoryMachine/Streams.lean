import StoryMachine.Header
import StoryMachine.Host
import StoryMachine.Streams.MemoryStream
import StoryMachine.Text.Unicode
import StoryMachine.Text.Utf8

/-!
# Output and input streams

Output stream 1 is the screen, 2 a transcript, 3 a table in memory and 4 a record
of the player's commands.  Streams into memory nest; while one is open nothing
else sees what is printed.  Input stream 1 replays a record of commands.

Whether a transcript is being made shows in the lowest bit of the second header
flags, which every selection of stream 2 sets.  A file that cannot be written is
given up with a notice.
-/

namespace StoryMachine

/-- The streams of a machine. -/
structure Streams where
  screen : Bool := true
  transcript : Option Writer := none
  transcriptOn : Bool := false
  commands : Option Writer := none
  commandsOn : Bool := false
  /-- The open streams into memory, the innermost first. -/
  tables : List MemoryStream := []
  /-- The record of commands that is being replayed. -/
  replay : Option Reader := none
  deriving DecidableEq

/-- What the streams work on. -/
structure Desk where
  memory : Memory
  streams : Streams

/-- Work of the streams, with a host. -/
abbrev StreamWork (m : Type → Type) := ReaderT (Host m) (ExceptT Fault (StateT Desk m))

namespace StreamWork

variable {m : Type → Type} [Monad m]

/-- Asks the host. -/
def ask (f : Host m → m α) : StreamWork m α := do
  liftM (f (← read))

/-- Sends a notice to the host. -/
def note (notice : Notice) : StreamWork m Unit :=
  ask (·.note notice)

/-- Works on memory. -/
def edit (work : Edit α) : StreamWork m α := fun host => ExceptT.mk fun desk => do
  let (outcome, draft) := work.run desk.memory
  draft.notices.forM host.note
  return (outcome, { desk with memory := draft.memory })

/-- Changes the streams. -/
def change (f : Streams → Streams) : StreamWork m Unit :=
  modify fun desk => { desk with streams := f desk.streams }

end StreamWork

namespace Streams

open StreamWork

/-- How many streams into memory may be open. -/
def maxTables : Nat := 16

/-- Whether printed text goes into memory. -/
def isRedirected (streams : Streams) : Bool :=
  !streams.tables.isEmpty

/-- Closes the streams into memory, stops replaying and turns the screen on.  The
transcript and the record of commands go on. -/
def resetRedirection (streams : Streams) : Streams :=
  { streams with screen := true, tables := [], replay := none }

variable {m : Type → Type} [Monad m]

/-- Opens the transcript, unless it is open.  Says whether it is open now. -/
def openTranscript : StreamWork m Bool := do
  if (← get).streams.transcript.isSome then return true
  match ← ask (·.openForWrite .transcript) with
  | none =>
    note (.warning "transcript could not be opened")
    return false
  | some file =>
    let stamp ← ask (·.longTime)
    match ← ask (·.write file (Utf8.encode s!"*** Transcript generated {stamp} ***\n\n")) with
    | .error _ =>
      note (.warning "transcript could not be written")
      return false
    | .ok () =>
      change fun streams => { streams with transcript := some file }
      return true

/-- Writes text to the transcript, if it is on. -/
def writeTranscript (text : String) : StreamWork m Unit := do
  let streams := (← get).streams
  match streams.transcript with
  | some file =>
    if streams.transcriptOn then
      if let .error _ ← ask (·.write file (Utf8.encode text)) then
        note (.warning "transcript write failed, transcript closed")
        change fun streams => { streams with transcript := none, transcriptOn := false }
  | none => pure ()

/-- Opens a stream into memory. -/
def openTable (table : Option Word) (width : Option Int) : StreamWork m Unit := do
  if maxTables ≤ (← get).streams.tables.length then
    throw { kind := .badStream, detail := s!"MORE THAN {maxTables} MEMORY STREAMS" }
  match table with
  | none => throw { kind := .badOperands, detail := "STREAM 3 WITHOUT A TABLE" }
  | some table =>
    let table := table.toNat
    edit (Edit.writeWord table 0)
    let width := (width.map Int.natAbs).filter (0 < ·)
    change fun streams => { streams with tables := { table, width, record := table } :: streams.tables }

/-- Closes the innermost stream into memory.  Says whether there was one. -/
def closeTable : StreamWork m Bool := do
  match (← get).streams.tables with
  | [] => return false
  | stream :: outer =>
    change fun streams => { streams with tables := outer }
    let (outcome, _) ← edit (stream.run MemoryStream.close)
    MonadExcept.ofExcept outcome
    return true

/-- Opens the record of commands, unless it is open, and turns it on. -/
def openCommands : StreamWork m Unit := do
  if (← get).streams.commands.isNone then
    let file ← ask (·.openForWrite .commandLog)
    change fun streams => { streams with commands := file }
  change fun streams => { streams with commandsOn := streams.commands.isSome }
  if !(← get).streams.commandsOn then
    note (.warning "command record could not be opened")

/-- Shows in the header whether a transcript is being made. -/
def showTranscriptFlag : StreamWork m Unit := do
  let on := (← get).streams.transcriptOn
  edit <| Edit.change fun memory =>
    let flags := memory.headerWord .flags2
    memory.setHeaderWord .flags2 (if on then flags ||| 1 else flags &&& 0xfffe)

/-- Selects an output stream by its number, or deselects it by the negated number.
A mistake of the story that does no harm comes back as a warning.  The lowest
number is none of a stream either, but no word is its absolute value. -/
def select (number : Int) (table : Option Word) (width : Option Int) :
    StreamWork m (Option String) := do
  match number with
  | 0 => return none
  | 1 => change fun streams => { streams with screen := true }
  | -1 => change fun streams => { streams with screen := false }
  | 2 =>
    let on ← openTranscript
    change fun streams => { streams with transcriptOn := on }
    showTranscriptFlag
  | -2 =>
    change fun streams => { streams with transcriptOn := false }
    showTranscriptFlag
  | 3 => openTable table width
  | -3 => if !(← closeTable) then return some "closing memory stream when none is open"
  | 4 => openCommands
  | -4 => change fun streams => { streams with commandsOn := false }
  | -32768 => throw { kind := .arithmeticOverflow, detail := "ABSOLUTE VALUE OF -32768" }
  | number => return some s!"output stream {number} does not exist"
  return none

/-- Prints codes: into the innermost table, or else to the screen and the
transcript, whichever is on. -/
def print (unicode : UnicodeTable) (codes : List Word) : StreamWork m Unit := do
  match (← get).streams.tables with
  | stream :: outer =>
    let (outcome, stream) ← edit (stream.run (MemoryStream.print codes))
    change fun streams => { streams with tables := stream :: outer }
    MonadExcept.ofExcept outcome
  | [] =>
    let text := unicode.decode codes
    if (← get).streams.screen then ask (·.print text)
    writeTranscript text

/-- Writes a line that the player typed to the transcript and to the record of
commands, whichever is on. -/
def recordInput (text : String) : StreamWork m Unit := do
  if (← get).streams.isRedirected then return
  writeTranscript text
  writeTranscript "\n"
  let streams := (← get).streams
  match streams.commands with
  | some file =>
    if streams.commandsOn then
      if let .error _ ← ask (·.write file (Utf8.encode (text ++ "\n"))) then
        note (.warning "command record write failed, record closed")
        change fun streams => { streams with commands := none, commandsOn := false }
  | none => pure ()

/-- Selects an input stream: 0 the keyboard, 1 a record of commands.  Comes back
with a warning for any other. -/
def selectInput (number : Word) : StreamWork m (Option String) := do
  if number = 0 then
    change fun streams => { streams with replay := none }
    return none
  else if number = 1 then
    match ← ask (·.openForRead .commandLog) with
    | some file => change fun streams => { streams with replay := some file }
    | none => note (.warning "command file could not be opened")
    return none
  else
    return some s!"input stream {number} does not exist"

/-- The line in some bytes, without the line ends after it.  None if there are no
bytes or they are no text. -/
def lineOf? (bytes : List UInt8) : Option String :=
  if bytes.isEmpty then none
  else (Utf8.strict? bytes).map fun text =>
    String.ofList (text.toList.reverse.dropWhile fun c => c = '\r' || c = '\n').reverse

/-- The next command of the record that is being replayed.  At its end, or if it
cannot be read, replaying stops. -/
def replayLine : StreamWork m (Option String) := do
  match (← get).streams.replay with
  | none => return none
  | some file =>
    let line? := match ← ask (·.readLineBytes file) with
      | .ok bytes => lineOf? bytes
      | .error _ => none
    if line?.isNone then change fun streams => { streams with replay := none }
    return line?

end Streams

end StoryMachine
