import StoryMachine.Terminal.Console
import StoryMachine.Terminal.Path
import StoryMachine.Text.Blank

/-!
# A session at a terminal

The host that shows a story on a plain terminal: one scrolling window, no more.
Text for other windows is dropped, and a status line is drawn as a reversed line
where it comes.

**Pending text.**  Text after the last line end is held back, because it may turn
out to be the prompt of the next line read.  Everything else that reaches the
screen, and every change of style, colour or window, writes it first, so pending
text is always in the current style.  The line editor cannot show styled prompts;
if a style is set, the text is written and the prompt is empty.

**Failures.**  If the terminal fails while output is written, the session goes on.
If it fails while it waits for the player, there is nothing to wait for any more:
the session asks to stop and takes an empty line or the new line key.
-/

namespace StoryMachine.Terminal

/-- The state of the screen and what is needed to name files. -/
structure Session where
  /-- The name under which files are suggested, without extension. -/
  storyName : String
  saveDirectory : String
  lines : UInt8 := 24
  columns : UInt8 := 80
  window : Word := 0
  /-- The styles that are on: 1 reverse, 2 bold, 4 italic, 8 fixed width. -/
  styleBits : Word := 0
  foreground : Option Colour := none
  background : Option Colour := none
  /-- The text after the last line end. -/
  pending : String := ""
  deriving DecidableEq

/-- The style in which text is written now. -/
def Session.style (session : Session) : Style where
  bold := session.styleBits &&& 2 ≠ 0
  italic := session.styleBits &&& 4 ≠ 0
  reverse := session.styleBits &&& 1 ≠ 0
  foreground := session.foreground
  background := session.background

/-- Work of a session that may fail. -/
abbrev Sitting (m : Type → Type) := ExceptT SystemFault (StateT Session m)

namespace Session

variable {m : Type → Type} [Monad m]

/-- Does something at the console that may fail. -/
def perform (step : m (Except SystemFault α)) : Sitting m α :=
  ExceptT.mk (StateT.lift step)

/-- Does something at the console that cannot fail. -/
def quietly (step : m α) : Sitting m α :=
  ExceptT.mk do return .ok (← StateT.lift step)

variable (console : Console m)

/-- Writes the pending text. -/
def flush : Sitting m Unit := do
  let session ← get
  if session.pending.isEmpty then return
  set { session with pending := "" }
  perform (console.write [⟨session.style, session.pending⟩])

/-- Does something, and complains if it fails. -/
def complaining (work : Sitting m Unit) : StateT Session m Unit := do
  if let .error fault ← work.run then
    StateT.lift (console.complain ⟨.error, fault.message⟩)

/-- Shows a message of the program itself. -/
def report (message : String) : Sitting m Unit := do
  flush console
  perform (console.write [{ text := "\n" }, { style := { bold := true }, text := message },
    { text := "\n" }])

/-- Splits text behind its last line end. -/
def splitLines (text : String) : String × String :=
  let reversed := text.toList.reverse
  let tail := reversed.takeWhile (· ≠ '\n')
  (String.ofList (reversed.drop tail.length).reverse, String.ofList tail.reverse)

/-- Adds to the pending text. -/
def hold (text : String) : StateT Session m Unit :=
  modify fun session => { session with pending := session.pending ++ text }

/-- Prints text in the one window there is. -/
def print (text : String) : StateT Session m Unit := do
  if (← get).window ≠ 0 then return
  let (lines, tail) := splitLines text
  if !lines.isEmpty then
    hold lines
    complaining console (flush console)
  hold tail

/-- The pending text as a prompt, if it can be one. -/
def takePrompt : Sitting m String := do
  let session ← get
  if session.style = {} then
    set { session with pending := "" }
    return session.pending
  else
    flush console
    return ""

/-- A time limit; zero is none. -/
def limit? (timeout : Word) : Option Word :=
  if timeout = 0 then none else some timeout

/-- The line that is taken when there is none. -/
def noLine : LineInput := .done "" 13

/-- Reads a line.  If time runs out, the prompt is pending text again. -/
def awaitLine (initial : String) (timeout : Word) : Sitting m LineInput := do
  let prompt ← takePrompt console
  perform (console.setPrompt prompt)
  perform (console.setBuffer initial)
  match ← perform (console.awaitLine (limit? timeout)) with
  | .timedOut =>
    let typed ← quietly console.buffer
    perform console.cancelLine
    modify fun session => { session with pending := prompt }
    return .timedOut typed
  | .entered text =>
    if !text.isEmpty then quietly (console.addHistory text)
    return .done text 13
  | .interrupted =>
    perform console.cancelLine
    quietly console.stop
    return noLine
  | .closed =>
    quietly console.stop
    return noLine

/-- Reads a line, whatever happens. -/
def readLine (initial : String) (timeout : Word) : StateT Session m LineInput := do
  match ← (awaitLine console initial timeout).run with
  | .ok input => return input
  | .error fault =>
    StateT.lift (console.complain ⟨.error, fault.message⟩)
    StateT.lift console.stop
    return noLine

/-- Reads a key. -/
def awaitKey (timeout : Word) : Sitting m CharInput := do
  flush console
  perform console.openTerminal
  perform console.prepare
  let outcome ← quietly (console.awaitKey (limit? timeout))
  perform console.restore
  match ← MonadExcept.ofExcept outcome with
  | .code code => return .key code
  | .timedOut => return .timedOut
  | .interrupted =>
    quietly console.stop
    return .key 13

/-- Reads a key, whatever happens. -/
def readChar (timeout : Word) : StateT Session m CharInput := do
  match ← (awaitKey console timeout).run with
  | .ok input => return input
  | .error fault =>
    StateT.lift (console.complain ⟨.error, fault.message⟩)
    StateT.lift console.stop
    return .key 13

/-- Changes how text is shown, once the pending text is written. -/
def restyle (f : Session → Session) : StateT Session m Unit := do
  complaining console (flush console)
  modify f

/-- Turns styles on; none turns all off. -/
def withStyle (bits : Word) (session : Session) : Session :=
  { session with styleBits := if bits = 0 then 0 else session.styleBits ||| bits }

/-- Selects colours by their numbers. -/
def withColours (foreground background : Word) (session : Session) : Session :=
  { session with
    foreground := Colour.select foreground session.foreground
    background := Colour.select background session.background }

/-- The right side of a status line. -/
def rightText : StatusRight → String
  | .score score moves => s!"Score: {score}  Moves: {moves}"
  | .time hours minutes => s!"Time: {hours}:{Numeral.decimal 2 minutes.toNat}"

/-- Text with blanks behind it, up to `width` characters. -/
def padded (width : Nat) (text : String) : String :=
  text ++ String.ofList (List.replicate (width - text.length) ' ')

/-- A status line over a number of columns, or more if its right side needs them. -/
def statusText (columns : Nat) (status : StatusLine) : String :=
  let right := rightText status.right
  let width := max columns (right.length + 2)
  " " ++ padded (width - right.length - 2) status.location ++ right ++ " "

/-- Shows a status line. -/
def showStatus (status : StatusLine) : StateT Session m Unit := do
  let line := statusText (← get).columns.toNat status
  complaining console do
    flush console
    perform (console.write [{ style := { reverse := true }, text := line }, { text := "\n" }])

/-- Asks the player something; none if there is no answer. -/
def ask (prompt : String) : Sitting m (Option String) := do
  flush console
  perform (console.setPrompt prompt)
  match ← perform (console.awaitLine none) with
  | .entered text => return some (trimBlank text)
  | _ => return none

/-- The extension of files by what they are for. -/
def extension : Purpose → String
  | .saveGame => "qzl"
  | .transcript => "txt"
  | .commandLog => "rec"
  | .auxiliary => "aux"

/-- Asks for a file name, and suggests one. -/
def fileName (purpose : Purpose) : Sitting m (Option String) := do
  let session ← get
  let suggested := Path.join session.saveDirectory (session.storyName ++ "." ++ extension purpose)
  match ← ask console ("Enter a file name [" ++ suggested ++ "]: ") with
  | some name =>
    return some (if name.isEmpty then suggested else Path.join session.saveDirectory name)
  | none => return none

/-- Opens a file that the player names. -/
def openNamed (purpose : Purpose) : Sitting m (Option Reader) := do
  match ← fileName console purpose with
  | some path => return some (← perform (console.openFile path))
  | none => return none

/-- Whether the player allows an existing file to be replaced. -/
def mayReplace (path : String) : Sitting m Bool := do
  if ← quietly (console.fileExists path) then
    match ← ask console "Overwrite existing file? " with
    | some answer => return answer.startsWith "y" || answer.startsWith "Y"
    | none => return false
  else return true

/-- Makes a file that the player names. -/
def createNamed (purpose : Purpose) : Sitting m (Option Writer) := do
  match ← fileName console purpose with
  | some path =>
    if ← mayReplace console path then return some (← perform (console.createFile path))
    else return none
  | none => return none

/-- A file if it could be opened; complains if there was a failure. -/
def orNothing (work : Sitting m (Option α)) : StateT Session m (Option α) := do
  match ← work.run with
  | .ok file => return file
  | .error fault =>
    StateT.lift (console.complain (.warning fault.message))
    return none

/-- What the session tells a machine about the screen. -/
def info (session : Session) : HostInfo :=
  { lines := session.lines, columns := session.columns, splitWindow := false, colours := true }

/-- Lets a file fail with a text. -/
def inWords (step : m (Except SystemFault α)) : StateT Session m (Except String α) := do
  return (← StateT.lift step).mapError SystemFault.message

/-- The host of a session. -/
def host : Host (StateT Session m) :=
  { Host.plain (print console) (fun initial _ timeout _ => readLine console initial timeout)
      (readChar console) with
    info := do return (← get).info
    setStyle := fun bits => restyle console (withStyle bits)
    setColour := fun foreground background _ => restyle console (withColours foreground background)
    setWindow := fun window => restyle console fun session => { session with window }
    showStatus := showStatus console
    openForRead := fun purpose => orNothing console (openNamed console purpose)
    readAll := fun file => inWords (console.readAll file)
    readLineBytes := fun file => inWords (console.readLineBytes file)
    openForWrite := fun purpose => orNothing console (createNamed console purpose)
    write := fun file bytes => inWords (console.writeFile file bytes)
    flush := fun file => inWords (console.flushFile file)
    note := fun notice => StateT.lift (console.note notice)
    trace := fun instruction => StateT.lift (console.trace instruction)
    entropy := StateT.lift console.entropy
    longTime := StateT.lift console.longTime
    shortTime := StateT.lift console.shortTime }

/-- The size of the terminal, at most 255 each way; 24 lines of 80 columns if it
cannot be had. -/
def screenSize : m (UInt8 × UInt8) := do
  match ← console.openTerminal with
  | .error _ => return (24, 80)
  | .ok () =>
    match ← console.size with
    | .error _ => return (24, 80)
    | .ok (lines, columns) => return ((min lines 255).toUInt8, (min columns 255).toUInt8)

/-- Begins a session. -/
def begin (storyName saveDirectory : String) : m (Except SystemFault Session) := do
  match ← console.openEditor with
  | .error fault => return .error fault
  | .ok () =>
    console.reportInterrupts
    let (lines, columns) ← screenSize console
    return .ok { storyName, saveDirectory, lines, columns }

end Session

end StoryMachine.Terminal
