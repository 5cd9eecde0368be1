import Std.Time
import StoryMachine.Terminal.Playing
import StoryMachine.Text.Lines

/-!
# The command line

A console on the standard streams and the files of the system, and the program
around it.  Lines come whole from standard input, so nothing stands in the line
editor before they do, and a wait with a time limit waits without one; a key is
the first character of a line.
-/

namespace StoryMachine.CommandLine

open Terminal

/-- What the console keeps between its steps. -/
structure Desktop where
  prompt : String := ""
  buffer : String := ""
  stopped : Bool := false
  /-- What is left of the files that are being read. -/
  readers : Array (List UInt8) := #[]
  /-- The files that are being written. -/
  writers : Array IO.FS.Handle := #[]

/-- A failure of the system in the words of a console. -/
def systemFault : IO.Error → SystemFault
  | .noFileOrDirectory .. => .notFound
  | error => .other (toString error)

/-- Does something with the system that may fail. -/
def attempt (step : IO α) : IO (Except SystemFault α) := do
  try return .ok (← step)
  catch error => return .error (systemFault error)

/-- A line of standard input without its end; none if there is no more input. -/
def nextLine? : IO (Option String) := do
  let line ← (← IO.getStdin).getLine
  if line.isEmpty then return none
  else return some (String.ofList (line.toList.filter (· ≠ '\n')))

/-- The name of a level in the log. -/
def levelName : Level → String
  | .error => "ERROR"
  | .warn => "WARNING"
  | .debug => "DEBUG"

/-- Shows a notice on standard error, if its level is wanted. -/
def showNotice (levels : List Level) (notice : Notice) : IO Unit :=
  if levels.contains notice.level then
    IO.eprintln s!"\x1b[2m[ {levelName notice.level} - {notice.text} ]\x1b[0m"
  else pure ()

/-- The time as transcripts give it. -/
def longTime : IO String := do
  let now ← Std.Time.PlainDateTime.now
  let day := now.format "d"
  return now.format "EEE MMM" ++ (if day.length < 2 then "  " else " ") ++ day
    ++ now.format " HH:mm:ss yyyy"

/-- Four bytes of chance as a number. -/
def entropy : IO UInt32 := do
  return (← IO.getRandomBytes 4).toList.foldl (fun n b => 256 * n + b.toUInt32) 0

/-- What is left of an opened file: `split` gives what is read and what stays. -/
def readPart (desktop : IO.Ref Desktop) (split : List UInt8 → List UInt8 × List UInt8)
    (file : Reader) : IO (Except SystemFault (List UInt8)) := do
  let (part, rest) := split ((← desktop.get).readers.getD file.id [])
  desktop.modify fun d => { d with readers := d.readers.setIfInBounds file.id rest }
  return .ok part

/-- Does something with a file that is being written. -/
def withWriter (desktop : IO.Ref Desktop) (file : Writer) (step : IO.FS.Handle → IO Unit) :
    IO (Except SystemFault Unit) := do
  match (← desktop.get).writers[file.id]? with
  | some handle => attempt (step handle)
  | none => return .error .notFound

/-- The console on the standard streams. -/
def console (desktop : IO.Ref Desktop) (levels : List Level) : Console IO where
  openEditor := return .ok ()
  reportInterrupts := pure ()
  openTerminal := return .ok ()
  size := return .error (.other "size unknown")
  prepare := return .ok ()
  restore := return .ok ()
  awaitKey _ := attempt do
    match ← nextLine? with
    | none => return .interrupted
    | some line =>
      let key := (line.toList.head?.map Key.char).getD .enter
      return key.event?.getD (.code 13)
  write pieces := attempt do
    let out ← IO.getStdout
    out.putStr (String.join (pieces.map Piece.render))
    out.flush
  setPrompt text := do
    desktop.modify fun d => { d with prompt := text }
    return .ok ()
  setBuffer text := do
    desktop.modify fun d => { d with buffer := text }
    return .ok ()
  buffer := return (← desktop.get).buffer
  awaitLine _ := attempt do
    let out ← IO.getStdout
    out.putStr (← desktop.get).prompt
    out.flush
    match ← nextLine? with
    | none => return .closed
    | some line => return .entered line
  addHistory _ := pure ()
  cancelLine := return .ok ()
  stop := desktop.modify fun d => { d with stopped := true }
  isStopped := return (← desktop.get).stopped
  openFile name := attempt do
    let bytes ← IO.FS.readBinFile name
    desktop.modifyGet fun d =>
      (⟨d.readers.size⟩, { d with readers := d.readers.push bytes.toList })
  readAll := readPart desktop fun bytes => (bytes, [])
  readLineBytes := readPart desktop splitLine
  fileExists name := do
    match ← attempt (IO.FS.Handle.mk name .read) with
    | .ok _ => return true
    | .error _ => return false
  createFile name := attempt do
    let handle ← IO.FS.Handle.mk name .write
    desktop.modifyGet fun d => (⟨d.writers.size⟩, { d with writers := d.writers.push handle })
  writeFile file bytes := withWriter desktop file fun handle => do
    handle.write ⟨bytes.toArray⟩
    handle.flush
  flushFile file := withWriter desktop file (·.flush)
  note := showNotice levels
  trace _ := pure ()
  complain := showNotice levels
  entropy
  longTime
  shortTime := return (← Std.Time.PlainDateTime.now).format "yyyy-MM-dd HH:mm"

/-- What is shown when arguments are not taken. -/
def argumentMessage : ArgumentError → String
  | .unknownWord => "error: unexpected argument"
  | .missingStory => "error: no story file given"
  | .badNumber => "error: invalid number"
  | .missingValue => "error: a value is required"
  | .repeated => "error: an argument is given twice"
  | .needlessValue => "error: a value is given where none is taken"
  | .help => "Play a Z-code story in the terminal\n\nUsage: zcode [OPTIONS] <STORY> [SAVE]"
  | .version => "zcode 0.1.0"

end StoryMachine.CommandLine

open StoryMachine in
/-- Plays the story that the arguments name. -/
def main (words : List String) : IO UInt32 := do
  match Terminal.Arguments.parse words with
  | .error error =>
    if error = .help ∨ error = .version then
      IO.println (CommandLine.argumentMessage error)
      return 0
    else
      IO.eprintln (CommandLine.argumentMessage error)
      return 2
  | .ok arguments =>
    let desktop ← IO.mkRef {}
    if let .error fault ← Terminal.play (CommandLine.console desktop arguments.levels) arguments then
      IO.eprintln fault.message
    return 0
