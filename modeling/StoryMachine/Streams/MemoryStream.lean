import StoryMachine.Edit

/-!
# Text captured in memory

A memory stream writes printed codes into a table of the story: a length word and
then that many bytes.  If the story asked for a width, the table becomes a row of
such records, one for each line of text, broken at blanks where there are any,
and a record of length zero ends it.

What was written before a fault stays written, and the stream remembers it.
-/

namespace StoryMachine

/-- A stream into a table of memory. -/
structure MemoryStream where
  table : Nat
  /-- Characters to a line, if lines are to be broken. -/
  width : Option Nat
  /-- The address of the length word of the record that is being written. -/
  record : Nat
  /-- The length of that record so far. -/
  length : Nat := 0
  /-- Codes that wait for the end of their line. -/
  line : List Word := []
  deriving DecidableEq

/-- A stream at work on memory. -/
structure Recording where
  stream : MemoryStream
  draft : Draft

/-- Work of a memory stream. -/
abbrev Capture := ExceptT Fault (StateM Recording)

namespace MemoryStream

/-- Work on memory alone. -/
def onMemory (edit : Edit α) : Capture α :=
  ExceptT.mk fun recording =>
    let (outcome, draft) := StateT.run (ExceptT.run edit) recording.draft
    (outcome, { recording with draft })

/-- Changes the stream. -/
def change (f : MemoryStream → MemoryStream) : Capture Unit :=
  modify fun recording => { recording with stream := f recording.stream }

/-- The byte for a code; a code that needs more than one is a question mark. -/
def byteOf (code : Word) : UInt8 :=
  if 255 < code then 63 else code.toUInt8

/-- Writes one code at the end of the record. -/
def writeCode (code : Word) : Capture Unit := do
  let stream := (← get).stream
  onMemory (Edit.writeByte (stream.record + 2 + stream.length) (byteOf code))
  change fun stream => { stream with length := stream.length + 1 }
  onMemory (Edit.writeWord stream.record (stream.length + 1).toUInt16)

/-- Writes codes at the end of the record. -/
def writeCodes : List Word → Capture Unit
  | [] => pure ()
  | code :: rest => do
    writeCode code
    writeCodes rest

/-- Starts a new record after the current one. -/
def nextRecord : Capture Unit := do
  change fun stream => { stream with record := stream.record + 2 + stream.length, length := 0 }
  onMemory (Edit.writeWord (← get).stream.record 0)

/-- Writes a line as the record and starts a new one. -/
def emitLine (line : List Word) : Capture Unit := do
  writeCodes line
  nextRecord

/-- The place of the last blank in a line. -/
def lastBlank? (line : List Word) : Option Nat :=
  (line.reverse.findIdx? (· = 32)).map fun i => line.length - 1 - i

/-- Where a line that is too long is broken: at its last blank, unless that is its
first character, or else at the width. -/
def breakPlace (width : Nat) (line : List Word) : Nat :=
  match lastBlank? line with
  | some place => if 0 < place then place else width
  | none => width

/-- A line without the blank at its beginning, if it has one. -/
def dropBlank : List Word → List Word
  | code :: rest => if code = 32 then rest else code :: rest
  | [] => []

/-- Takes one code of text that is broken into lines. -/
def takeCode (width : Nat) (code : Word) : Capture Unit := do
  if code = 13 then
    let line := (← get).stream.line
    change fun stream => { stream with line := [] }
    emitLine line
  else
    let line := (← get).stream.line ++ [code]
    if width < line.length then
      let place := breakPlace width line
      change fun stream => { stream with line := line.drop place }
      emitLine (line.take place)
      change fun stream => { stream with line := dropBlank stream.line }
    else
      change fun stream => { stream with line }

/-- Takes codes of text that is broken into lines. -/
def takeCodes (width : Nat) : List Word → Capture Unit
  | [] => pure ()
  | code :: rest => do
    takeCode width code
    takeCodes width rest

/-- Prints codes. -/
def print (codes : List Word) : Capture Unit := do
  match (← get).stream.width with
  | none => writeCodes codes
  | some width => takeCodes width codes

/-- Writes what waits, and the record that ends a table of lines. -/
def close : Capture Unit := do
  let stream := (← get).stream
  if stream.width.isSome then
    if !stream.line.isEmpty then
      change fun stream => { stream with line := [] }
      emitLine stream.line
    onMemory (Edit.writeWord (← get).stream.record 0)
  onMemory (Edit.note (.remark s!"closed memory stream at {Numeral.marked 4 stream.table}"))

/-- Does the work of a stream: its outcome, and the stream afterwards. -/
def run (stream : MemoryStream) (work : Capture α) : Edit (Except Fault α × MemoryStream) :=
  ExceptT.mk fun draft =>
    let (outcome, recording) := StateT.run (ExceptT.run work) { stream, draft }
    (.ok (outcome, recording.stream), recording.draft)

end MemoryStream

end StoryMachine
