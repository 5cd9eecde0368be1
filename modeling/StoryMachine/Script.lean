import StoryMachine.Host
import StoryMachine.Text.Lines

/-!
# A host that follows a script

To see what a story does, or to prove something about it, one needs a host whose
answers are known.  A `Script` holds the lines and keys that a player will give,
the files there are and which of them fail, and keeps an entry of every call, so
that a run against it is a function of its script.

Text printed in several pieces with nothing between them is one entry.
-/

namespace StoryMachine

/-- The calls of a host that leave an entry. -/
inductive Call where
  | readLine | readChar | openForRead | openForWrite
  | setStyle | setColour | setTrueColour | setFont | setBuffering | showStatus
  | splitWindow | setWindow | eraseWindow | eraseLine | setCursor | checkUnicode
  | soundEffect | drawPicture | pictureData | erasePicture
  | setMargins | moveWindow | windowSize | windowStyle | windowProperty | setWindowProperty
  | scrollWindow | mouseWindow
  deriving DecidableEq

/-- An argument in an entry. -/
inductive Argument where
  | number (n : Int)
  | flag (on : Bool)
  | text (text : String)
  | codes (codes : List Word)
  | purpose (purpose : Purpose)
  | right (right : StatusRight)
  deriving DecidableEq

/-- Something that a script has seen. -/
inductive Entry where
  | printed (text : String)
  | noted (notice : Notice)
  | traced (listing : String)
  | called (call : Call) (arguments : List Argument)
  deriving DecidableEq

/-- The entries so far. -/
structure Record where
  /-- The levels of the notices that are kept. -/
  levels : List Level := [.error, .warn]
  /-- Whether executed instructions are kept. -/
  traces : Bool := false
  /-- The entries, the newest first. -/
  entries : List Entry := []
  deriving DecidableEq

namespace Record

/-- Adds an entry. -/
def add (record : Record) (entry : Entry) : Record :=
  { record with entries := entry :: record.entries }

/-- Adds printed text to the newest entry, or as a new one. -/
def print (record : Record) (text : String) : Record :=
  if text.isEmpty then record
  else match record.entries with
    | .printed before :: older => { record with entries := .printed (before ++ text) :: older }
    | _ => record.add (.printed text)

/-- Adds a notice, if its level is kept. -/
def note (record : Record) (notice : Notice) : Record :=
  if record.levels.contains notice.level then record.add (.noted notice) else record

/-- Adds an instruction, if they are kept. -/
def trace (record : Record) (instruction : Instruction) : Record :=
  if record.traces then record.add (.traced instruction.listing) else record

/-- The entries in the order in which they came, and a record without them. -/
def take (record : Record) : List Entry × Record :=
  (record.entries.reverse, { record with entries := [] })

end Record

/-- What is left of a file that is being read, or that it cannot be read. -/
inductive ReadState where
  | rest (bytes : List UInt8)
  | broken
  deriving DecidableEq

/-- What a scripted host is going to answer, and what it has seen. -/
structure Script where
  info : HostInfo := {}
  lines : List LineInput := []
  keys : List CharInput := []
  mouse : Word × Word := (0, 0)
  cursor : Word × Word := (1, 1)
  font : Word := 1
  /-- Height and width of the pictures there are, by number. -/
  pictures : List (Nat × Word × Word) := []
  files : List (Purpose × Array UInt8) := []
  /-- The files that open but cannot be read. -/
  unreadable : List Purpose := []
  /-- The files that cannot be opened for writing. -/
  readOnly : List Purpose := []
  /-- The files that cannot be flushed. -/
  unflushable : List Purpose := []
  /-- How many bytes a file can hold, where that is limited. -/
  limits : List (Purpose × Nat) := []
  readers : Array ReadState := #[]
  record : Record := {}

/-- What a scripted host does. -/
abbrev Scripted := StateM Script

namespace Script

/-- Puts a file in place of the one there is. -/
def setFile (script : Script) (purpose : Purpose) (bytes : Array UInt8) : Script :=
  { script with files := (purpose, bytes) :: script.files.filter (·.1 ≠ purpose) }

/-- A file. -/
def file? (script : Script) (purpose : Purpose) : Option (Array UInt8) :=
  script.files.lookup purpose

/-- The purposes, in the order of the handles that are given out for writing. -/
def purposes : List Purpose := [.saveGame, .transcript, .commandLog, .auxiliary]

/-- Changes the record. -/
def onRecord (f : Record → Record) : Scripted Unit :=
  modify fun script => { script with record := f script.record }

/-- Adds an entry of a call. -/
def called (call : Call) (arguments : List Argument) : Scripted Unit :=
  onRecord (·.add (.called call arguments))

/-- A word in an entry. -/
def arg (w : Word) : Argument := .number w.toNat

/-- Adds an entry of a call that takes words. -/
def calledWith (call : Call) (arguments : List Word) : Scripted Unit :=
  called call (arguments.map arg)

/-- The next line of the script; an empty one when there is none left. -/
def readLine (initial : String) (maxLength : Nat) (timeout : Word) (terminators : List Word) :
    Scripted LineInput := do
  called .readLine
    [.text initial, .number maxLength, arg timeout, .codes terminators]
  let script ← get
  match script.lines with
  | line :: rest =>
    set { script with lines := rest }
    return line
  | [] => return .done "" 13

/-- The next key of the script; the new line when there is none left. -/
def readChar (timeout : Word) : Scripted CharInput := do
  calledWith .readChar [timeout]
  let script ← get
  match script.keys with
  | key :: rest =>
    set { script with keys := rest }
    return key
  | [] => return .key 13

/-- Selects a font: 1 and 4 can be had, 0 asks for the current one. -/
def setFont (font : Word) : Scripted Word := do
  calledWith .setFont [font]
  let script ← get
  if font = 0 then return script.font
  else if font = 1 ∨ font = 4 then
    set { script with font }
    return script.font
  else return 0

/-- Opens a file, if there is one. -/
def openForRead (purpose : Purpose) : Scripted (Option Reader) := do
  called .openForRead [.purpose purpose]
  let script ← get
  let state? := if script.unreadable.contains purpose then some .broken
    else (script.file? purpose).map fun bytes => .rest bytes.toList
  match state? with
  | some state =>
    set { script with readers := script.readers.push state }
    return some ⟨script.readers.size⟩
  | none => return none

/-- Reads part of an opened file: `split` gives what is read and what is left. -/
def readPart (split : List UInt8 → List UInt8 × List UInt8) (file : Reader) :
    Scripted (Except String (List UInt8)) := do
  let script ← get
  match script.readers[file.id]? with
  | some (.rest bytes) =>
    let (part, left) := split bytes
    set { script with readers := script.readers.setIfInBounds file.id (.rest left) }
    return .ok part
  | _ => return .error "bad sector"

/-- Opens an empty file in place of the one there is. -/
def openForWrite (purpose : Purpose) : Scripted (Option Writer) := do
  called .openForWrite [.purpose purpose]
  let script ← get
  if script.readOnly.contains purpose then return none
  else
    set (script.setFile purpose #[])
    return some ⟨purposes.idxOf purpose⟩

/-- The purpose of a file that is being written. -/
def purposeOf (file : Writer) : Purpose :=
  purposes.getD file.id .auxiliary

/-- Writes to a file.  If not everything fits, what fits is written. -/
def write (file : Writer) (bytes : List UInt8) : Scripted (Except String Unit) := do
  let script ← get
  let purpose := purposeOf file
  let all := (script.file? purpose).getD #[] ++ bytes.toArray
  let room := (script.limits.lookup purpose).getD all.size
  set (script.setFile purpose (all.extract 0 room))
  return if all.size ≤ room then .ok () else .error "disk full"

/-- Flushes a file. -/
def flush (file : Writer) : Scripted (Except String Unit) := do
  return if (← get).unflushable.contains (purposeOf file) then .error "flush failed" else .ok ()

/-- The scripted host of a player without screen and files. -/
def plainHost : Host Scripted :=
  { Host.plain (fun text => onRecord (·.print text)) readLine readChar with
    note := fun notice => onRecord (·.note notice)
    trace := fun instruction => onRecord (·.trace instruction)
    longTime := pure (String.ofList (List.replicate 24 '#'))
    shortTime := pure (String.ofList (List.replicate 16 '#')) }

/-- The scripted host. -/
def host : Host Scripted :=
  { plainHost with
    info := do return (← get).info
    setStyle := fun a => calledWith .setStyle [a]
    setColour := fun a b c => calledWith .setColour [a, b, c]
    setTrueColour := fun a b c => calledWith .setTrueColour [a, b, c]
    setFont
    setBuffering := fun on => called .setBuffering [.flag on]
    showStatus := fun status => called .showStatus [.text status.location, .right status.right]
    splitWindow := fun a => calledWith .splitWindow [a]
    setWindow := fun a => calledWith .setWindow [a]
    eraseWindow := fun a => called .eraseWindow [.number a]
    eraseLine := fun a => calledWith .eraseLine [a]
    setCursor := fun a b c => called .setCursor [.number a, arg b, arg c]
    getCursor := do return (← get).cursor
    getMouse := do return (← get).mouse
    soundEffect := fun a b c => calledWith .soundEffect [a, b, c]
    checkUnicode := fun c => do
      called .checkUnicode [.number c.toNat]
      return if c.toNat < 0x80 then 3 else if c.toNat < 0x2000 then 1 else 0
    drawPicture := fun a b c => calledWith .drawPicture [a, b, c]
    pictureData := fun a => do
      calledWith .pictureData [a]
      return (← get).pictures.lookup a.toNat
    erasePicture := fun a b c => calledWith .erasePicture [a, b, c]
    setMargins := fun a b c => calledWith .setMargins [a, b, c]
    moveWindow := fun a b c => calledWith .moveWindow [a, b, c]
    windowSize := fun a b c => calledWith .windowSize [a, b, c]
    windowStyle := fun a b c => calledWith .windowStyle [a, b, c]
    windowProperty := fun a b => do
      calledWith .windowProperty [a, b]
      return 256 * a + b
    setWindowProperty := fun a b c => calledWith .setWindowProperty [a, b, c]
    scrollWindow := fun a b => called .scrollWindow [arg a, .number b]
    mouseWindow := fun a => calledWith .mouseWindow [a]
    openForRead
    readAll := readPart fun bytes => (bytes, [])
    readLineBytes := readPart splitLine
    openForWrite
    write
    flush }

end Script

end StoryMachine
