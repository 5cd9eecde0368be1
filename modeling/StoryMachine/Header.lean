import StoryMachine.Edit
import StoryMachine.HostInfo

/-!
# The story header

The first 64 bytes of memory tell the machine where the story keeps its tables,
and tell the story what the machine and its host can do.  All header fields lie
in dynamic memory (`HeaderField.address_lt`), so reading and writing them cannot
fail.

From version 5 on a story may add an extension table.  A table that reaches
outside the story is not used, and each attempt leaves a notice; writes to
fields that are missing, or that begin in static memory, are dropped.

`setUp` fills in everything the story may ask about.  It is done at the start,
after a restart and after a restore.
-/

namespace StoryMachine

/-- The fields of the header. -/
inductive HeaderField where
  | version | flags1 | release | highMemory | initialPC | dictionary | objectTable | globalTable
  | staticMemory | flags2 | serial | abbreviationsTable | fileLength | checksum
  | interpreterNumber | interpreterVersion | screenLines | screenColumns | screenWidth
  | screenHeight | fontWidth | fontHeight | routinesOffset | stringsOffset | defaultBackground
  | defaultForeground | terminatorTable | outputStream3Width | revision | alphabetTable
  | extensionTable
  deriving DecidableEq

namespace HeaderField

/-- Where a field begins. -/
def address : HeaderField → Nat
  | version => 0x00
  | flags1 => 0x01
  | release => 0x02
  | highMemory => 0x04
  | initialPC => 0x06
  | dictionary => 0x08
  | objectTable => 0x0a
  | globalTable => 0x0c
  | staticMemory => 0x0e
  | flags2 => 0x10
  | serial => 0x12
  | abbreviationsTable => 0x18
  | fileLength => 0x1a
  | checksum => 0x1c
  | interpreterNumber => 0x1e
  | interpreterVersion => 0x1f
  | screenLines => 0x20
  | screenColumns => 0x21
  | screenWidth => 0x22
  | screenHeight => 0x24
  | fontWidth => 0x26
  | fontHeight => 0x27
  | routinesOffset => 0x28
  | stringsOffset => 0x2a
  | defaultBackground => 0x2c
  | defaultForeground => 0x2d
  | terminatorTable => 0x2e
  | outputStream3Width => 0x30
  | revision => 0x32
  | alphabetTable => 0x34
  | extensionTable => 0x36

/-- Every field, even read as a word, lies within the header. -/
theorem address_lt (field : HeaderField) : field.address + 1 < 64 := by
  cases field <;> decide

end HeaderField

/-- The fields of the header extension, by their place in its table. -/
inductive ExtensionField where
  | mouseX | mouseY | unicodeTable | flags3 | trueForeground | trueBackground
  deriving DecidableEq

/-- The place of a field in the extension table, counted in words. -/
def ExtensionField.index : ExtensionField → Nat
  | mouseX => 1
  | mouseY => 2
  | unicodeTable => 3
  | flags3 => 4
  | trueForeground => 5
  | trueBackground => 6

/-- What the header says about an extension table. -/
inductive Extension where
  | absent
  /-- Not even its length lies in the story. -/
  | outside (address : Nat)
  /-- It claims more words than are allowed or there are. -/
  | oversized (address words : Nat)
  | table (address words : Nat)
  deriving DecidableEq

/-- The notice about a table that cannot be used. -/
def Extension.notice : Extension → Option Notice
  | .outside address =>
    some (.warning s!"header extension table {Numeral.marked 4 address} is outside the story")
  | .oversized address words =>
    some (.warning s!"header extension table {Numeral.marked 4 address} claims {words} words")
  | _ => none

namespace Memory

variable (memory : Memory)

/-- The byte of a header field. -/
def headerByte (field : HeaderField) : UInt8 :=
  memory.byteAt field.address

/-- The word of a header field. -/
def headerWord (field : HeaderField) : Word :=
  memory.wordAt field.address

/-- Puts a byte into a header field. -/
def setHeaderByte (field : HeaderField) (value : UInt8) : Memory :=
  memory.set field.address value (by
    have := field.address_lt
    have := memory.header_le_ceiling
    omega)

/-- Puts a word into a header field. -/
def setHeaderWord (field : HeaderField) (value : Word) : Memory :=
  memory.setWord field.address value (by
    have := field.address_lt
    have := memory.header_le_ceiling
    omega)

/-- The six bytes of the serial code. -/
def serial : List UInt8 :=
  (memory.bytes.extract 0x12 0x18).toList

/-- The extension table, if the story has one. -/
def extension : Extension :=
  let address := (memory.headerWord .extensionTable).toNat
  if memory.version < 5 ∨ address = 0 then .absent
  else if memory.size < address + 2 then .outside address
  else
    let words := (memory.wordAt address).toNat
    if 32 < words ∨ memory.size < address + 2 + 2 * words then .oversized address words
    else .table address words

/-- The address of an extension field, if the table has it. -/
def extensionAddress? (field : ExtensionField) : Option Nat :=
  match memory.extension with
  | .table address words =>
    if field.index ≤ words then some (address + 2 * field.index) else none
  | _ => none

/-- The word of an extension field, zero if there is no such field. -/
def extensionWord (field : ExtensionField) : Word :=
  match memory.extensionAddress? field with
  | some address => memory.wordAt address
  | none => 0

end Memory

namespace Header

/-- Writes an extension field.  The write is dropped if there is no such field or
if it begins in static memory. -/
def setExtensionWord (field : ExtensionField) (value : Word) : Edit Unit := do
  Edit.noteIf (← Edit.view (·.extension.notice))
  match ← Edit.view (·.extensionAddress? field) with
  | some address =>
    if address < (← Edit.view (·.dynamicCeiling)) then Edit.writeWord address value
  | none => pure ()

/-- A flag's bit, or nothing. -/
def flag (on : Bool) (bit : UInt8) : UInt8 :=
  if on then bit else 0

/-- A mask that clears a flag's bit unless the flag may stay. -/
def mask (stays : Bool) (bit : Word) : Word :=
  if stays then 0xffff else ~~~bit

/-- The first flags, as a host of the given abilities makes them.  In version 3
they tell what is missing of the status line and what there is of windows; later
only one bit of the story's own stays. -/
def flags1 (version : Nat) (info : HostInfo) (old : UInt8) : UInt8 :=
  if version ≤ 3 then
    (old &&& 0x8f) ||| flag (!info.statusLine) 0x10 ||| flag info.splitWindow 0x20
  else
    (old &&& 0x40) ||| flag info.colours 0x01 ||| flag (version == 6 && info.pictures) 0x02
      ||| flag info.bold 0x04 ||| flag info.italic 0x08 ||| flag info.fixed 0x10
      ||| flag (6 ≤ version && info.sound) 0x20 ||| flag info.timedInput 0x80

/-- The second flags: from version 5 on, what the story asks for and the host
does not have is taken away. -/
def flags2 (version : Nat) (info : HostInfo) (old : Word) : Word :=
  if version ≤ 4 then old
  else
    old &&& mask info.pictures 0x0008 &&& mask info.undo 0x0010 &&& mask info.mouse 0x0020
      &&& mask info.colours 0x0040 &&& mask info.sound 0x0080 &&& mask info.menus 0x0100

/-- The fifteen bit colour of a colour number; white for any other number. -/
def trueColour (colour : UInt8) : Word :=
  match colour.toNat with
  | 2 => 0x0000
  | 3 => 0x001d
  | 4 => 0x0340
  | 5 => 0x03bd
  | 6 => 0x59a0
  | 7 => 0x7c1f
  | 8 => 0x77a0
  | 10 => 0x5ad6
  | 11 => 0x4631
  | 12 => 0x2d6b
  | _ => 0x7fff

/-- The screen size in units, the size of a unit and the default colours.
Version 6 counts in the host's units and swaps the two bytes of the font size. -/
def setScreen (info : HostInfo) (memory : Memory) : Memory :=
  let six := memory.version = 6
  let fontWidth := if six then info.fontWidth else 1
  let fontHeight := if six then info.fontHeight else 1
  let memory := memory.setHeaderWord .screenWidth (info.columns.toUInt16 * fontWidth.toUInt16)
  let memory := memory.setHeaderWord .screenHeight (info.lines.toUInt16 * fontHeight.toUInt16)
  let memory := memory.setHeaderByte (if six then .fontHeight else .fontWidth) fontWidth
  let memory := memory.setHeaderByte (if six then .fontWidth else .fontHeight) fontHeight
  let memory := memory.setHeaderByte .defaultBackground info.background
  memory.setHeaderByte .defaultForeground info.foreground

/-- Tells the story what the machine and its host can do. -/
def setUp (info : HostInfo) (options : Options) : Edit Unit := do
  let version ← Edit.view (·.version)
  Edit.change fun memory =>
    let memory := memory.setHeaderByte .flags1 (flags1 version info (memory.headerByte .flags1))
    let memory := memory.setHeaderWord .flags2 (flags2 version info (memory.headerWord .flags2))
    let memory := memory.setHeaderByte .interpreterNumber options.interpreterNumber
    memory.setHeaderByte .interpreterVersion options.interpreterVersion
  if 4 ≤ version then
    Edit.change fun memory =>
      (memory.setHeaderByte .screenLines info.lines).setHeaderByte .screenColumns info.columns
  if 5 ≤ version then
    Edit.change (setScreen info)
    setExtensionWord .trueForeground (trueColour info.foreground)
    setExtensionWord .trueBackground (trueColour info.background)
  Edit.change fun memory => memory.setHeaderWord .revision 0x0101

end Header

end StoryMachine
