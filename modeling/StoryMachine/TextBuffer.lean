import StoryMachine.Dictionary
import StoryMachine.Header

/-!
# Text and parse buffers

A text buffer begins with the number of bytes it has room for.  In versions 3 and
4 the text follows and ends with a zero; later a count comes before it.  A parse
buffer begins with the number of records it has room for and the number it
holds; a record is the address of a dictionary entry, the length of a lexeme and
its place in the text buffer.
-/

namespace StoryMachine.TextBuffer

/-- Codes of keys that may end a line besides the new line: the function keys, and
the menu and mouse codes. -/
def isFunctionKey (code : UInt8) : Bool :=
  (129 ≤ code && code ≤ 154) || (252 ≤ code && code ≤ 254)

/-- All codes of keys that may end a line besides the new line. -/
def functionKeys : List UInt8 :=
  ((List.range 256).map Nat.toUInt8).filter isFunctionKey

/-- The terminating keys that the table at an address lists, up to its zero; 255
means every function key.  The count is of the bytes left to look at. -/
def listedKeys : (left address : Nat) → Edit (List UInt8)
  | 0, address => Edit.look fun memory => .error (memory.outOfBounds address)
  | left + 1, address => do
    let code ← Edit.look (·.readByte address)
    if code = 0 then return []
    else if code = 255 then
      return functionKeys ++ (← listedKeys left (address + 1))
    else if isFunctionKey code then
      return code :: (← listedKeys left (address + 1))
    else
      Edit.note (.warning s!"{code} is not a terminating character")
      listedKeys left (address + 1)

/-- The codes that end a line read, in ascending order: the new line, and what the
story lists from version 5 on. -/
def terminators : Edit (List Word) := do
  let address := (← Edit.view (·.headerWord .terminatorTable)).toNat
  if (← Edit.view (·.version)) < 5 ∨ address = 0 then return [13]
  let keys ← listedKeys ((← Edit.view (·.size)) - address) address
  return ((List.range 256).map Nat.toUInt8).filter (fun code => code = 13 || keys.contains code)
    |>.map (·.toUInt16)

/-- How many characters the buffer at an address has room for. -/
def capacity (memory : Memory) (address : Nat) : Except Fault Nat := do
  let size := (← memory.readByte address).toNat
  return if memory.version ≤ 4 then size - 1 else size

/-- The place of the first character in a text buffer. -/
def textOffset (version : Nat) : Nat :=
  if version ≤ 4 then 1 else 2

/-- The codes from an address on up to a zero, at most `left` of them. -/
def readUntilZero (memory : Memory) : (left address : Nat) → Except Fault (List Word)
  | 0, _ => .ok []
  | left + 1, address => do
    let code ← memory.readByte address
    if code = 0 then return []
    else return code.toUInt16 :: (← readUntilZero memory left (address + 1))

/-- The text in the buffer at an address. -/
def readText (memory : Memory) (address : Nat) : Except Fault (List Word) := do
  let room ← capacity memory address
  if memory.version ≤ 4 then readUntilZero memory room (address + 1)
  else
    let length := min (← memory.readByte (address + 1)).toNat room
    let bytes ← (List.range length).mapM fun i => memory.readByte (address + 2 + i)
    return bytes.map (·.toUInt16)

/-- Writes text into the buffer at an address. -/
def writeText (address : Nat) (codes : List Word) : Edit Unit := do
  let version ← Edit.view (·.version)
  Edit.writeBytes (address + textOffset version) (codes.map (·.toUInt8))
  if version ≤ 4 then Edit.writeByte (address + 1 + codes.length) 0
  else Edit.writeByte (address + 1) codes.length.toUInt8

/-- Codes that a story can receive as text. -/
def isTextCode (code : Word) : Bool :=
  (32 ≤ code && code ≤ 126) || (155 ≤ code && code ≤ 251)

/-- The codes of a typed line: in lower case, without control characters and
whatever else a story cannot receive, at most `room` of them. -/
def inputCodes (unicode : UnicodeTable) (text : String) (room : Nat) : List Word :=
  ((text.toList.filter fun c => !isControl c).map
      fun c => (unicode.ofChar? (lowerCase c)).getD questionMark)
    |>.filter isTextCode |>.take room

/-- Writes the records of lexemes from an address on.  With `skipUnknown` the
record of a lexeme that is in no dictionary is left alone. -/
def writeRecords (offset : Nat) (skipUnknown : Bool) : (address : Nat) → List Lexeme → Edit Unit
  | _, [] => pure ()
  | address, lexeme :: rest => do
    if !(skipUnknown && lexeme.address == 0) then
      Edit.writeWord address lexeme.address
      Edit.writeByte (address + 2) lexeme.length
      Edit.writeByte (address + 3) (lexeme.start.toNat + offset).toUInt8
    writeRecords offset skipUnknown (address + 4) rest

/-- Fills the parse buffer at an address.  Places count from the start of the text
buffer and have to fit in a byte: the first lexeme beyond, and all after it, are
dropped, as are those for which there is no room. -/
def writeLexemes (address : Nat) (lexemes : List Lexeme) (offset : Nat) (skipUnknown : Bool) :
    Edit Unit := do
  let room := (← Edit.look (·.readByte address)).toNat
  let fitting := lexemes.takeWhile fun lexeme => lexeme.start.toNat + offset ≤ 255
  let kept := fitting.take room
  if kept.length < lexemes.length then
    Edit.note (.remark s!"parse buffer holds {kept.length} of {lexemes.length} words")
  Edit.writeByte (address + 1) kept.length.toUInt8
  writeRecords offset skipUnknown (address + 2) kept

end StoryMachine.TextBuffer
