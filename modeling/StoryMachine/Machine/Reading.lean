import StoryMachine.Machine.Printing
import StoryMachine.Text.Quoted
import StoryMachine.TextBuffer

/-!
# Reading lines and keys

A read may have a time limit and a routine to run when the time is over.  Then the
read waits in the frame of that routine: when the routine returns zero the read
goes on with what had been typed, and when it returns anything else the read is
over and its result is zero.
-/

namespace StoryMachine.Play

variable {m : Type → Type} [Monad m]

/-- Puts the place of the mouse into the header extension. -/
def recordMouse : Play m Unit := do
  let (x, y) ← ask (·.getMouse)
  edit do
    Header.setExtensionWord .mouseX x
    Header.setExtensionWord .mouseY y

/-- Cuts the text of a buffer into lexemes and fills a parse buffer with them. -/
def tokenise (text parse dictionary : Nat) (skipUnknown : Bool) : Play m Unit := do
  let codes ← look (TextBuffer.readText · text)
  let machine ← get
  let found ← MonadExcept.ofExcept <|
    machine.dictionaries.tokenise machine.memory.bytes machine.codec dictionary
      machine.memory.dynamicCeiling codes
  if let some keys := found.indexedKeys then
    note (.remark s!"indexed dictionary at {Numeral.marked 4 dictionary}: {keys} entries")
  modify fun machine => { machine with dictionaries := found.dictionaries }
  edit (TextBuffer.writeLexemes parse found.lexemes (TextBuffer.textOffset machine.memory.version)
    skipUnknown)

/-- Whether a code means that the mouse was clicked. -/
def isMouseClick (code : Word) : Bool :=
  code == 253 || code == 254

/-- Stores a line that was read. -/
def finishLine (pending : LineRead) (text : String) (terminator : Word) : Play m Unit := do
  let room ← look (TextBuffer.capacity · pending.text)
  let codes := TextBuffer.inputCodes (← get).codec.unicode text room
  onStreams (Streams.recordInput text)
  edit (TextBuffer.writeText pending.text codes)
  if pending.parse ≠ 0 then
    let dictionary ← view (·.headerWord .dictionary)
    tokenise pending.text pending.parse dictionary.toNat false
  if isMouseClick terminator then recordMouse
  storeTo pending.store terminator

/-- The time limit of a read; one without a routine has none. -/
def timeLimit (routine time : Word) : Word :=
  if routine = 0 then 0 else time

/-- What is in the input line before the player types: what was typed before a time
out, or from version 5 on the text in the buffer. -/
def initialText (pending : LineRead) : Play m String := do
  if 5 ≤ (← view (·.version)) ∧ pending.typed.isEmpty then
    return (← get).codec.unicode.decode (← look (TextBuffer.readText · pending.text))
  else return pending.typed

/-- Reads a line, from a record of commands or else from the player. -/
def lineRead (pending : LineRead) : Play m Unit := do
  showStatus
  let room ← look (TextBuffer.capacity · pending.text)
  let initial ← initialText pending
  let terminators ← edit TextBuffer.terminators
  let input ← match ← onStreams Streams.replayLine with
    | some line => do
      ask (·.print line)
      ask (·.print "\n")
      pure (.done line 13)
    | none => ask (·.readLine initial room (timeLimit pending.routine pending.time) terminators)
  match input with
  | .done text terminator => finishLine pending text terminator
  | .timedOut typed =>
    if pending.routine = 0 then finishLine pending typed 0
    else
      note (.remark s!"line read timed out with {Quoted.quote typed}")
      interrupt pending.routine (.line { pending with typed })

/-- Reads a key. -/
def charRead (pending : CharRead) : Play m Unit := do
  match ← ask (·.readChar (timeLimit pending.routine pending.time)) with
  | .key code =>
    if isMouseClick code then recordMouse
    storeTo pending.store code
  | .timedOut =>
    if pending.routine = 0 then storeTo pending.store 0
    else interrupt pending.routine (.char pending)

/-- Goes on with a read after its routine has returned a value. -/
def resumeRead (value : Word) : PendingRead → Play m Unit
  | .line pending => do
    if value = 0 then lineRead pending
    else
      note (.remark "line read abandoned by interrupt routine")
      edit (TextBuffer.writeText pending.text [])
      storeTo pending.store 0
  | .char pending =>
    if value = 0 then charRead pending else storeTo pending.store 0

end StoryMachine.Play
