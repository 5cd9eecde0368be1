import StoryMachine.Machine.Tables
import StoryMachine.Proofs.CheckedMemory
import StoryMachine.TextBuffer

/-!
# Tables and buffers with checked addresses

The tables that instructions search, copy and use as stacks, the header with its
extension, and the buffers that a line is read into.  Here an entry is found by the table's address
and its place in it, so each access is a sum, and often a product.

Each piece of work `Follows` the machine's own.  Two kinds of facts bound the sums:
tables begin below 2^16, because a word names them, and a row that is written ends where
dynamic memory does.
-/

namespace StoryMachine

open Checked CheckedEdit

/-! ## Tables -/

namespace CheckedTable

/-- The entry at an address: a word or a byte. -/
def entryAt (memory : Memory) (isWord : Bool) (address : Nat) : Checked Word :=
  if isWord then memory.readWordAt address
  else do
    let b ← inRange (memory.readByte address)
    return b.toUInt16

/-- The address of the first of `count` entries from place `i` on that has a value. -/
def find? (memory : Memory) (value : Word) (isWord : Bool) (step table : Nat) :
    (count i : Nat) → Checked (Option Nat)
  | 0, _ => pure none
  | count + 1, i => do
    let offset ← product i step
    let address ← sum table offset
    let entry ← entryAt memory isWord address
    if entry = value then return some address
    else find? memory value isWord step table count (i + 1)

/-- Copies bytes one at a time, from place `i` on. -/
def copyForward (source destination : Nat) : (count i : Nat) → CheckedWork Draft Unit
  | 0, _ => pure ()
  | count + 1, i => do
    let origin ← sum source i
    let b ← look fun memory => inRange (memory.readByte origin)
    let target ← sum destination i
    writeByte target b
    copyForward source destination count (i + 1)

/-- Copies a table. -/
def copy (first second size : Word) : CheckedWork Draft Unit := do
  let length := size.signed.natAbs
  if second = 0 then writeBytes first.toNat 0 (List.replicate length 0)
  else if size.signed < 0 ∨ second ≤ first then
    copyForward first.toNat second.toNat length 0
  else
    let bytes ← look (·.sliceAt first.toNat length)
    writeBytes second.toNat 0 bytes

/-- Pushes a value onto a stack in memory. -/
def pushOnto (stack : Nat) (value : Word) : CheckedWork Draft Bool := do
  let free ← look (·.readWordAt stack)
  if free = 0 then return false
  else
    let offset ← product 2 free.toNat
    let top ← sum stack offset
    writeWord top value
    let left ← difference free.toNat 1
    writeWord stack left.toUInt16
    return true

/-- Pulls a value from a stack in memory. -/
def pullFrom (stack : Nat) : CheckedWork Draft Word := do
  let word ← look (·.readWordAt stack)
  let free := word + 1
  let offset ← product 2 free.toNat
  let top ← sum stack offset
  let value ← look (·.readWordAt top)
  writeWord stack free
  return value

/-- Frees slots of a stack in memory. -/
def free (stack : Nat) (count : Word) : CheckedWork Draft Unit := do
  let free ← look (·.readWordAt stack)
  writeWord stack (free + count)

variable {memory : Memory} {address : Nat}

/-- An entry of a table is read with its addresses in their range. -/
theorem entryAt_eq (isWord : Bool) (h : address + 2 < 2 ^ 64) :
    entryAt memory isWord address = inRange (Table.entryAt memory isWord address) := by
  cases isWord with
  | true => exact Memory.readWordAt_eq h
  | false => exact bind_congr_inRange fun b _ => rfl

/-- No entry of a table is further from its beginning than a word times seven bits. -/
theorem find?_eq (value : Word) (isWord : Bool) {step table count i : Nat} (hstep : step < 0x80)
    (htable : table < 0x10000) (hcount : i + count ≤ 0x10000) :
    find? memory value isWord step table count i
      = inRange (Table.find? memory value isWord step count (table + i * step)) := by
  induction count generalizing i with
  | zero => rfl
  | succ count ih =>
      have hoffset : i * step ≤ 0x10000 * 0x80 := Nat.mul_le_mul (by omega) (Nat.le_of_lt hstep)
      rw [find?, Table.find?, product_of_lt (by omega), pure_bind, sum_of_lt (by omega), pure_bind,
        entryAt_eq isWord (by omega)]
      refine bind_congr_inRange fun entry _ => ?_
      split
      · rfl
      · rw [ih (by omega), Nat.add_assoc, ← Nat.succ_mul]

/-- A copy is made byte by byte with its places in their range. -/
theorem follows_copyForward {source destination i : Nat} (hsource : source + i < 2 ^ 63)
    (hdestination : destination + i < 2 ^ 63) (count : Nat) :
    Follows Draft.upkeep (copyForward source destination count i)
      (Table.copyForward count (source + i) (destination + i)) := by
  induction count generalizing i with
  | zero => exact .pure trivial
  | succ count ih =>
      rw [copyForward, sum_of_lt (by omega), pure_bind]
      refine (follows_readByte _).bind fun b hread => ?_
      rw [sum_of_lt (by omega), pure_bind]
      refine (follows_writeByte _ _).bind fun _ hwritten => ?_
      exact ih (by omega) (by omega)

/-- A table is copied with its places in their range, in either direction. -/
theorem follows_copy (first second size : Word) :
    Follows Draft.upkeep (copy first second size) (Table.copy first second size) := by
  have hfirst := first.toNat_lt
  have hsecond := second.toNat_lt
  have hsigned := size.toInt16.le_toInt
  have hsigned' := size.toInt16.toInt_lt
  have hlength : size.signed.natAbs ≤ 0x8000 := by
    unfold Word.signed
    omega
  refine .ite (fun _ => follows_writeBytes (by omega) _) fun _ => .ite (fun _ => ?_) fun _ => ?_
  · exact follows_copyForward (by omega) (by omega) _
  · refine .bind (P := fun _ => True) (follows_look (fun _ _ => Memory.sliceAt_eq (by omega))
      fun _ _ _ _ => trivial) fun bytes _ => ?_
    exact follows_writeBytes (by omega) bytes

/-- A value is pushed onto a stack in memory with its address in its range. -/
theorem follows_pushOnto {stack : Nat} (hstack : stack < 0x10000) (value : Word) :
    Follows Draft.upkeep (pushOnto stack value) (Table.pushOnto stack value) := by
  refine (follows_readWord (by omega)).bind fun free _ =>
    .ite (fun _ => .pure trivial) fun hfree => ?_
  have hlt := free.toNat_lt
  have hpos : 1 ≤ free.toNat := Nat.pos_of_ne_zero fun hzero => hfree (UInt16.toNat.inj hzero)
  have hpos' : 1 ≤ free := UInt16.le_iff_toNat_le.mpr hpos
  have hleft : (free.toNat - 1).toUInt16 = free - 1 := by
    apply UInt16.toNat.inj
    rw [UInt16.toNat_sub_of_le _ _ (hpos')]
    exact Nat.mod_eq_of_lt (by omega)
  rw [product_of_lt (by omega), pure_bind, sum_of_lt (by omega), pure_bind]
  refine (follows_writeWord (by omega) value).bind fun _ _ => ?_
  rw [difference_of_le hpos, pure_bind, hleft]
  exact (follows_writeWord (by omega) _).bind fun _ _ => .pure trivial

/-- A value is pulled from a stack in memory with its address in its range. -/
theorem follows_pullFrom {stack : Nat} (hstack : stack < 0x10000) :
    Follows Draft.upkeep (pullFrom stack) (Table.pullFrom stack) := by
  refine (follows_readWord (by omega)).bind fun word _ => ?_
  have hlt := (word + 1).toNat_lt
  dsimp only
  rw [product_of_lt (by omega), pure_bind, sum_of_lt (by omega), pure_bind]
  exact (follows_readWord (by omega)).bind fun value _ =>
    (follows_writeWord (by omega) _).bind fun _ _ => .pure trivial

/-- The number of free slots wraps around. -/
theorem follows_free {stack : Nat} (hstack : stack < 0x10000) (count : Word) :
    Follows Draft.upkeep (free stack count)
      (do
        let free ← Edit.look (·.readWord stack)
        Edit.writeWord stack (free + count)) :=
  (follows_readWord (by omega)).bind fun _ _ =>
    (follows_writeWord (by omega) _).imp fun _ _ => trivial

end CheckedTable

/-! ## The header -/

/-- The extension table, whose end is put together in 64 bits. -/
def Memory.extensionAt (memory : Memory) : Checked Extension :=
  let address := (memory.headerWord .extensionTable).toNat
  if memory.version < 5 ∨ address = 0 then pure .absent
  else do
    let first ← sum address 2
    if memory.size < first then return .outside address
    else
      let words ← memory.readWordAt address
      let length ← product 2 words.toNat
      let stop ← sum first length
      if 32 < words.toNat ∨ memory.size < stop then return .oversized address words.toNat
      else return .table address words.toNat

/-- The header extension is found with its addresses in their range. -/
theorem Memory.extensionAt_eq (memory : Memory) :
    memory.extensionAt = pure memory.extension := by
  have haddress := (memory.headerWord .extensionTable).toNat_lt
  dsimp only [extensionAt, extension]
  split
  · rfl
  · rw [sum_of_lt (by omega), pure_bind]
    split
    · rfl
    · rename_i hsize
      have hword : memory.readWord (memory.headerWord .extensionTable).toNat
          = .ok (memory.wordAt (memory.headerWord .extensionTable).toNat) := if_pos (by omega)
      rw [readWordAt_eq (by omega), hword, inRange_ok, pure_bind]
      have hwords := (memory.wordAt (memory.headerWord .extensionTable).toNat).toNat_lt
      rw [product_of_lt (by omega), pure_bind, sum_of_lt (by omega), pure_bind]
      split <;> rfl

/-- The address of an extension field, if the table has it. -/
def Memory.extensionAddressAt? (memory : Memory) (field : ExtensionField) :
    Checked (Option Nat) := do
  match ← memory.extensionAt with
  | .table address words =>
    if field.index ≤ words then
      let offset ← product 2 field.index
      let place ← sum address offset
      return some place
    else return none
  | _ => return none

/-- An extension table begins below 2^16. -/
theorem Memory.lt_of_extension {memory : Memory} {address words : Nat}
    (h : memory.extension = .table address words) : address < 0x10000 := by
  have haddress := (memory.headerWord .extensionTable).toNat_lt
  dsimp only [extension] at h
  split at h
  · exact nomatch h
  split at h
  · exact nomatch h
  split at h
  · exact nomatch h
  · obtain ⟨rfl, -⟩ := Extension.table.inj h
    exact haddress

/-- A field of the extension has its address in its range. -/
theorem Memory.extensionAddressAt?_eq (memory : Memory) (field : ExtensionField) :
    memory.extensionAddressAt? field = pure (memory.extensionAddress? field) := by
  have hindex : field.index ≤ 6 := by cases field <;> decide
  rw [extensionAddressAt?, extensionAt_eq, pure_bind, extensionAddress?]
  cases htable : memory.extension with
  | absent | outside | oversized => rfl
  | table address words =>
      have haddress := lt_of_extension htable
      dsimp only
      split
      · rw [product_of_lt (by omega), pure_bind, sum_of_lt (by omega), pure_bind]
      · rfl

/-- Where an extension field lies, a word has an address. -/
theorem Memory.extensionAddress?_lt {memory : Memory} {field : ExtensionField} {place : Nat}
    (h : memory.extensionAddress? field = some place) : place < 0x10100 := by
  have hindex : field.index ≤ 6 := by cases field <;> decide
  unfold extensionAddress? at h
  cases htable : memory.extension with
  | absent | outside | oversized =>
      rw [htable] at h
      exact nomatch h
  | table address words =>
      have haddress := lt_of_extension htable
      rw [htable] at h
      dsimp only at h
      split at h
      · obtain rfl := Option.some.inj h
        omega
      · exact nomatch h

namespace CheckedHeader

/-- Writes an extension field. -/
def setExtensionWord (field : ExtensionField) (value : Word) : CheckedWork Draft Unit := do
  let notice ← look fun memory => do
    let extension ← memory.extensionAt
    return extension.notice
  CheckedWork.whole (Edit.noteIf notice)
  match ← look (·.extensionAddressAt? field) with
  | some place =>
    let ceiling ← look fun memory => pure memory.dynamicCeiling
    if place < ceiling then writeWord place value
  | none => pure ()

/-- The screen size in units, each a product in sixteen bits, and what belongs to it. -/
def setScreen (info : HostInfo) : CheckedWork Draft Unit := do
  let _ ← look fun memory => do
    let _ ← fitting 16
      (info.columns.toNat * (if memory.version = 6 then info.fontWidth else 1).toNat)
    fitting 16 (info.lines.toNat * (if memory.version = 6 then info.fontHeight else 1).toNat)
  CheckedWork.whole (Edit.change (Header.setScreen info))

/-- Tells the story what the machine and its host can do. -/
def setUp (info : HostInfo) (options : Options) : CheckedWork Draft Unit := do
  let version ← look fun memory => pure memory.version
  CheckedWork.whole <| Edit.change fun memory =>
    let memory := memory.setHeaderByte .flags1
      (Header.flags1 version info (memory.headerByte .flags1))
    let memory := memory.setHeaderWord .flags2
      (Header.flags2 version info (memory.headerWord .flags2))
    let memory := memory.setHeaderByte .interpreterNumber options.interpreterNumber
    memory.setHeaderByte .interpreterVersion options.interpreterVersion
  if 4 ≤ version then
    CheckedWork.whole <| Edit.change fun memory =>
      (memory.setHeaderByte .screenLines info.lines).setHeaderByte .screenColumns info.columns
  if 5 ≤ version then
    setScreen info
    setExtensionWord .trueForeground (Header.trueColour info.foreground)
    setExtensionWord .trueBackground (Header.trueColour info.background)
  CheckedWork.whole (Edit.change fun memory => memory.setHeaderWord .revision 0x0101)

/-- A field of the extension is written with its address in its range. -/
theorem follows_setExtensionWord (field : ExtensionField) (value : Word) :
    Follows Draft.upkeep (setExtensionWord field value) (Header.setExtensionWord field value) := by
  refine .bind (P := fun _ => True) (follows_view (fun memory _ => ?_) fun _ _ => trivial)
    fun notice _ => (follows_whole (Edit.keepsStory_noteIf notice)).bind fun _ _ => ?_
  · rw [memory.extensionAt_eq, pure_bind]
  refine .bind (follows_view (fun memory _ => memory.extensionAddressAt?_eq field)
    (P := fun place? => ∀ place, place? = some place → place < 0x10100)
    fun memory _ place hplace => Memory.extensionAddress?_lt hplace) fun place? hplace => ?_
  cases place? with
  | none => exact .pure trivial
  | some place =>
      have hlt := hplace place rfl
      refine .bind (P := fun _ => True) (follows_view (fun _ _ => rfl) fun _ _ => trivial)
        fun ceiling _ => .ite (fun _ => ?_) fun _ => .pure trivial
      exact (follows_writeWord (by omega) value).imp fun _ _ => trivial

/-- Two bytes have a product of sixteen bits. -/
theorem follows_setScreen (info : HostInfo) :
    Follows Draft.upkeep (setScreen info) (Edit.change (Header.setScreen info)) := by
  have hproduct (a b : UInt8) : a.toNat * b.toNat < 2 ^ 16 :=
    Nat.lt_of_le_of_lt
      (Nat.mul_le_mul (Nat.le_of_lt_succ a.toNat_lt) (Nat.le_of_lt_succ b.toNat_lt)) (by decide)
  refine Follows.check (fun draft _ => ?_) (follows_whole (Edit.keepsStory_change fun _ => rfl))
  dsimp only
  rw [fitting_of_lt (hproduct _ _), pure_bind, fitting_of_lt (hproduct _ _)]
  exact ⟨_, rfl⟩

/-- The header is set up with its addresses in their range. -/
theorem follows_setUp (info : HostInfo) (options : Options) :
    Follows Draft.upkeep (setUp info options) (Header.setUp info options) := by
  refine .bind (P := fun _ => True) (follows_view (fun _ _ => rfl) fun _ _ => trivial)
    fun version _ => ?_
  have hrevision : Follows Draft.upkeep
      (CheckedWork.whole (Edit.change fun memory => memory.setHeaderWord .revision 0x0101))
      (Edit.change fun memory => memory.setHeaderWord .revision 0x0101) :=
    follows_whole (Edit.keepsStory_change fun _ => rfl)
  have hscreen : Follows Draft.upkeep (do
      if 5 ≤ version then
        setScreen info
        setExtensionWord .trueForeground (Header.trueColour info.foreground)
        setExtensionWord .trueBackground (Header.trueColour info.background)
      CheckedWork.whole (Edit.change fun memory => memory.setHeaderWord .revision 0x0101)) (do
      if 5 ≤ version then
        Edit.change (Header.setScreen info)
        Header.setExtensionWord .trueForeground (Header.trueColour info.foreground)
        Header.setExtensionWord .trueBackground (Header.trueColour info.background)
      Edit.change fun memory => memory.setHeaderWord .revision 0x0101) :=
    .ite (fun _ => (follows_setScreen info).bind fun _ _ => (follows_setExtensionWord _ _).bind
      fun _ _ => (follows_setExtensionWord _ _).bind fun _ _ => hrevision) fun _ => hrevision
  refine .bind (follows_whole (Edit.keepsStory_change ?_)) fun _ _ => ?_
  · exact fun _ => rfl
  · refine .ite (fun _ => .bind (follows_whole (Edit.keepsStory_change ?_)) fun _ _ => hscreen)
      fun _ => hscreen
    exact fun _ => rfl

end CheckedHeader

/-! ## Buffers -/

namespace CheckedBuffer

/-- The terminating keys that the table at an address lists, up to its zero. -/
def listedKeys : (left address : Nat) → CheckedWork Draft (List UInt8)
  | 0, address => look fun memory => throw (memory.outOfBounds address)
  | left + 1, address => do
    let code ← look fun memory => inRange (memory.readByte address)
    if code = 0 then return []
    else if code = 255 then
      let next ← sum address 1
      return TextBuffer.functionKeys ++ (← listedKeys left next)
    else if TextBuffer.isFunctionKey code then
      let next ← sum address 1
      return code :: (← listedKeys left next)
    else
      CheckedWork.whole (Edit.note (.warning s!"{code} is not a terminating character"))
      let next ← sum address 1
      listedKeys left next

/-- The codes that end a line read. -/
def terminators : CheckedWork Draft (List Word) := do
  let word ← look fun memory => pure (memory.headerWord .terminatorTable)
  let address := word.toNat
  let version ← look fun memory => pure memory.version
  if version < 5 ∨ address = 0 then return [13]
  let size ← look fun memory => pure memory.size
  let keys ← listedKeys (size - address) address
  return ((List.range 256).map Nat.toUInt8).filter (fun code => code = 13 || keys.contains code)
    |>.map (·.toUInt16)

/-- The codes behind a text buffer's first byte up to a zero, from place `i` on. -/
def readUntilZero (memory : Memory) (address : Nat) : (left i : Nat) → Checked (List Word)
  | 0, _ => pure []
  | left + 1, i => do
    let first ← sum address 1
    let place ← sum first i
    let code ← inRange (memory.readByte place)
    if code = 0 then return []
    else return code.toUInt16 :: (← readUntilZero memory address left (i + 1))

/-- The text in the buffer at an address. -/
def readText (memory : Memory) (address : Nat) : Checked (List Word) := do
  let room ← inRange (TextBuffer.capacity memory address)
  if memory.version ≤ 4 then readUntilZero memory address room 0
  else do
    let place ← sum address 1
    let count ← inRange (memory.readByte place)
    let bytes ← (List.range (min count.toNat room)).mapM fun i => do
      let first ← sum address 2
      let place ← sum first i
      inRange (memory.readByte place)
    return bytes.map (·.toUInt16)

/-- Writes text into the buffer at an address. -/
def writeText (address : Nat) (codes : List Word) : CheckedWork Draft Unit := do
  let version ← look fun memory => pure memory.version
  let base ← sum address (TextBuffer.textOffset version)
  writeBytes base 0 (codes.map (·.toUInt8))
  let first ← sum address 1
  if version ≤ 4 then
    let stop ← sum first codes.length
    writeByte stop 0
  else writeByte first codes.length.toUInt8

/-- Writes the records of lexemes into a parse buffer, from record `i` on. -/
def writeRecords (offset : Nat) (skipUnknown : Bool) (parse : Nat) :
    (i : Nat) → List Lexeme → CheckedWork Draft Unit
  | _, [] => pure ()
  | i, lexeme :: rest => do
    if !(skipUnknown && lexeme.address == 0) then
      let first ← sum parse 2
      let far ← product 4 i
      let address ← sum first far
      writeWord address lexeme.address
      let second ← sum address 2
      writeByte second lexeme.length
      let third ← sum address 3
      let start ← sum lexeme.start.toNat offset
      writeByte third start.toUInt8
    writeRecords offset skipUnknown parse (i + 1) rest

/-- Fills the parse buffer at an address. -/
def writeLexemes (address : Nat) (lexemes : List Lexeme) (offset : Nat) (skipUnknown : Bool) :
    CheckedWork Draft Unit := do
  let size ← look fun memory => inRange (memory.readByte address)
  let room := size.toNat
  let _ ← look fun _ => lexemes.mapM fun lexeme => sum lexeme.start.toNat offset
  let fitting := lexemes.takeWhile fun lexeme => lexeme.start.toNat + offset ≤ 255
  let kept := fitting.take room
  if kept.length < lexemes.length then
    CheckedWork.whole <| Edit.note <|
      .remark s!"parse buffer holds {kept.length} of {lexemes.length} words"
  let count ← sum address 1
  writeByte count kept.length.toUInt8
  writeRecords offset skipUnknown address 0 kept

/-- A table of keys is read to the end of memory at most. -/
theorem follows_listedKeys (left address : Nat) :
    Follows Draft.upkeep (listedKeys left address) (TextBuffer.listedKeys left address) := by
  induction left generalizing address with
  | zero => exact follows_look (fun _ _ => rfl) fun _ _ _ _ => trivial
  | succ left ih =>
      refine (follows_readByte address).bind fun code hread => ?_
      rw [sum_of_lt (by omega)]
      simp only [pure_bind]
      refine .ite (fun _ => .pure trivial) fun _ => .ite (fun _ => ?_) fun _ => .ite (fun _ => ?_)
        fun _ => ?_
      · exact (ih (address + 1)).bind fun _ _ => .pure trivial
      · exact (ih (address + 1)).bind fun _ _ => .pure trivial
      · exact (follows_whole (Edit.keepsStory_note _)).bind fun _ _ => ih (address + 1)

/-- The terminating keys are read with their addresses in their range. -/
theorem follows_terminators : Follows Draft.upkeep terminators TextBuffer.terminators := by
  refine .bind (P := fun _ => True) (follows_view (fun _ _ => rfl) fun _ _ => trivial)
    fun word _ => .bind (P := fun _ => True) (follows_view (fun _ _ => rfl) fun _ _ => trivial)
    fun version _ => .ite (fun _ => .pure trivial) fun _ => ?_
  exact .bind (P := fun _ => True) (follows_view (fun _ _ => rfl) fun _ _ => trivial) fun size _ =>
    (follows_listedKeys _ _).bind fun keys _ => .pure trivial

variable {memory : Memory} {address : Nat}

/-- A byte says how much room a text buffer has. -/
theorem capacity_le {room : Nat} (h : TextBuffer.capacity memory address = .ok room) :
    room ≤ 255 := by
  obtain ⟨size, -, h⟩ := bind_eq_ok.mp h
  have hsize := size.toNat_lt
  obtain rfl := Except.ok.inj h
  split <;> omega

/-- Text that ends with a zero is read with its places in their range. -/
theorem readUntilZero_eq {left i : Nat} (haddress : address < 2 ^ 62) (hleft : i + left ≤ 255) :
    readUntilZero memory address left i
      = inRange (TextBuffer.readUntilZero memory left (address + 1 + i)) := by
  induction left generalizing i with
  | zero => rfl
  | succ left ih =>
      rw [readUntilZero, sum_of_lt (by omega), pure_bind, sum_of_lt (by omega), pure_bind]
      refine bind_congr_inRange fun code _ => ?_
      split
      · rfl
      · rw [ih (by omega)]
        exact bind_congr_inRange fun _ _ => rfl

/-- A text buffer is no longer than a byte can say. -/
theorem readText_eq (haddress : address < 2 ^ 62) :
    readText memory address = inRange (TextBuffer.readText memory address) := by
  refine bind_congr_inRange fun room hroom => ?_
  have hroom := capacity_le hroom
  split
  · exact readUntilZero_eq haddress (by omega)
  · rw [sum_of_lt (by omega), pure_bind]
    refine bind_congr_inRange fun count _ => ?_
    have hbytes : ((List.range (min count.toNat room)).mapM fun i => (do
        let first ← sum address 2
        let place ← sum first i
        inRange (memory.readByte place) : Checked UInt8))
          = inRange ((List.range (min count.toNat room)).mapM fun i =>
            memory.readByte (address + 2 + i)) := by
      refine mapM_inRange fun i hi => ?_
      have hlt := List.mem_range.mp hi
      rw [sum_of_lt (by omega), pure_bind, sum_of_lt (by omega), pure_bind]
    rw [hbytes]
    exact bind_congr_inRange fun bytes _ => rfl

/-- Text stands one or two bytes behind the beginning of its buffer. -/
theorem textOffset_le (version : Nat) : TextBuffer.textOffset version ≤ 2 := by
  unfold TextBuffer.textOffset
  split <;> decide

/-- Text is put into a buffer with its places in their range. -/
theorem follows_writeText {codes : List Word} (haddress : address < 2 ^ 62)
    (hcodes : codes.length ≤ 255) :
    Follows Draft.upkeep (writeText address codes) (TextBuffer.writeText address codes) := by
  refine .bind (P := fun _ => True) (follows_view (fun _ _ => rfl) fun _ _ => trivial)
    fun version _ => ?_
  have hoffset := textOffset_le version
  rw [sum_of_lt (by omega), pure_bind]
  refine (follows_writeBytes (by omega) _).bind fun _ _ => ?_
  rw [sum_of_lt (by omega), pure_bind]
  refine .ite (fun _ => ?_) fun _ => (follows_writeByte _ _).imp fun _ _ => trivial
  rw [sum_of_lt (by omega), pure_bind]
  exact (follows_writeByte _ _).imp fun _ _ => trivial

/-- Records are put into a parse buffer with their places in their range. -/
theorem follows_writeRecords {offset i : Nat} (hoffset : offset ≤ 2) (skipUnknown : Bool)
    (haddress : address < 2 ^ 62) {lexemes : List Lexeme} (hcount : i + lexemes.length ≤ 255) :
    Follows Draft.upkeep (writeRecords offset skipUnknown address i lexemes)
      (TextBuffer.writeRecords offset skipUnknown (address + 2 + 4 * i) lexemes) := by
  induction lexemes generalizing i with
  | nil => exact .pure trivial
  | cons lexeme rest ih =>
      rw [List.length_cons] at hcount
      have hrest : Follows Draft.upkeep (writeRecords offset skipUnknown address (i + 1) rest)
          (TextBuffer.writeRecords offset skipUnknown (address + 2 + 4 * i + 4) rest) :=
        ih (by omega)
      have hstart := lexeme.start.toNat_lt
      rw [writeRecords]
      refine .ite (fun _ => ?_) fun _ => hrest
      rw [sum_of_lt (by omega), pure_bind, product_of_lt (by omega), pure_bind,
        sum_of_lt (by omega), pure_bind]
      refine (follows_writeWord (by omega) _).bind fun _ _ => ?_
      rw [sum_of_lt (by omega), pure_bind]
      refine (follows_writeByte _ _).bind fun _ _ => ?_
      rw [sum_of_lt (by omega), pure_bind, sum_of_lt (by omega), pure_bind]
      exact (follows_writeByte _ _).bind fun _ _ => hrest

/-- A parse buffer has no more records than a byte can say. -/
theorem follows_writeLexemes (haddress : address < 2 ^ 62) (lexemes : List Lexeme) {offset : Nat}
    (hoffset : offset ≤ 2) (skipUnknown : Bool) :
    Follows Draft.upkeep (writeLexemes address lexemes offset skipUnknown)
      (TextBuffer.writeLexemes address lexemes offset skipUnknown) := by
  have hstarts : (lexemes.mapM fun lexeme => sum lexeme.start.toNat offset : Checked (List Nat))
      = pure (lexemes.map fun lexeme => lexeme.start.toNat + offset) := by
    refine mapM_pure_of_mem fun lexeme _ => ?_
    have hstart := lexeme.start.toNat_lt
    exact sum_of_lt (by omega)
  refine (follows_readByte address).bind fun size _ => .check (fun _ _ => ⟨_, hstarts⟩) ?_
  have hsize := size.toNat_lt
  have hwrite {kept : List Lexeme} (hkept : kept.length ≤ size.toNat) (count : UInt8) :
      Follows Draft.upkeep (do
        let place ← sum address 1
        writeByte place count
        writeRecords offset skipUnknown address 0 kept) (do
        Edit.writeByte (address + 1) count
        TextBuffer.writeRecords offset skipUnknown (address + 2) kept) := by
    rw [sum_of_lt (by omega), pure_bind]
    exact (follows_writeByte _ _).bind fun _ _ =>
      follows_writeRecords hoffset skipUnknown haddress (by omega)
  have hkept (fitting : List Lexeme) : (fitting.take size.toNat).length ≤ size.toNat :=
    List.length_take_le _ _
  exact .ite (fun _ => (follows_whole (Edit.keepsStory_note _)).bind fun _ _ => hwrite (hkept _) _)
    fun _ => hwrite (hkept _) _

end CheckedBuffer

end StoryMachine
