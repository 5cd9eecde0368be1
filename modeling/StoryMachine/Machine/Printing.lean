import StoryMachine.Machine.Flow

/-!
# Printing

All text of a story goes through the streams.  The two table printers walk over
memory: `printTable` by rows of equal length, `printForm` by records that each
begin with their length.  A memory stream that is open may write into the table
that is being printed; the walk still ends, because it never goes back.
-/

namespace StoryMachine.Play

variable {m : Type → Type} [Monad m]

/-- Prints codes. -/
def printCodes (codes : List Word) : Play m Unit := do
  onStreams (Streams.print (← get).codec.unicode codes)

/-- Prints a text. -/
def printText (text : String) : Play m Unit := do
  printCodes ((← get).codec.unicode.encode text)

/-- Prints the packed text at an address. -/
def printAt (address : Nat) : Play m Unit := do
  let machine ← get
  let (codes, _) ← MonadExcept.ofExcept (machine.codec.decode machine.memory.bytes address)
  printCodes codes

/-- The short name of an object. -/
def objectName (object : Word) : Play m String := do
  let machine ← get
  if ← look (machine.objects.nameIsEmpty · object) then return ""
  let address ← look (machine.objects.name · object)
  let (codes, _) ← MonadExcept.ofExcept (machine.codec.decode machine.memory.bytes address)
  return machine.codec.unicode.decode codes

/-- The status line: the name of the object in the first global, and the score or
the time in the next two. -/
def statusLine : Play m StatusLine := do
  let machine ← get
  let place ← look (·.readWord (globalAddress machine 16))
  let location ← if place = 0 then pure "" else objectName place
  let first ← look (·.readWord (globalAddress machine 17))
  let second ← look (·.readWord (globalAddress machine 18))
  let flags ← view (·.headerByte .flags1)
  let right : StatusRight :=
    if flags &&& 0x02 ≠ 0 then .time first second else .score first.signed second
  return { location, right }

/-- Shows the status line of a version 3 story. -/
def showStatus : Play m Unit := do
  if (← view (·.version)) ≤ 3 then
    let status ← statusLine
    ask (·.showStatus status)

/-- Prints the bytes from an address on as codes. -/
def printBytes (address length : Nat) : Play m Unit := do
  let bytes ← look (·.slice address length)
  printCodes (bytes.map (·.toUInt16))

/-- Prints `rows` further rows of a table, with a new line before each. -/
def printRows (width skip : Nat) : (rows address : Nat) → Play m Unit
  | 0, _ => pure ()
  | rows + 1, address => do
    printCodes [13]
    printBytes address width
    printRows width skip rows (address + width + skip)

/-- Prints a table: rows of `width` bytes with `skip` bytes between them. -/
def printTable (text width height skip : Word) : Play m Unit := do
  if height ≠ 0 then
    printBytes text.toNat width.toNat
    printRows width.toNat skip.toNat (height.toNat - 1) (text.toNat + width.toNat + skip.toNat)

/-- Prints records from an address on, each a length word and that many bytes, up
to one of length zero.  The count is of the bytes left to look at. -/
def printRecords : (left address : Nat) → Play m Unit
  | 0, address => look fun memory => .error (memory.outOfBounds address)
  | left + 1, address => do
    let length := (← look (·.readWord address)).toNat
    if length ≠ 0 then
      printBytes (address + 2) length
      printCodes [13]
      printRecords left (address + 2 + length)

/-- Prints a table of records. -/
def printForm (table : Word) : Play m Unit := do
  printRecords ((← view (·.size)) - table.toNat) table.toNat

end StoryMachine.Play
