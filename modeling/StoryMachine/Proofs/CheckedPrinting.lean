import StoryMachine.Machine.Printing
import StoryMachine.Proofs.CheckedPlay

/-!
# Printing with checked addresses

A text is printed where it begins, a table row by row and a form record by record.  The rows
and the records begin at addresses that are sums and products, and here these are checked.
None of them is out of range: the rows of a table are placed by numbers of 16 bits, and the
records of a form begin in memory, because the one before has been read to its end.

All text goes through the streams, so what is printed may cost a stream two bytes.  The status
line is put together without them.
-/

namespace StoryMachine.CheckedPlay

open Checked

variable {W : Type} {b cost : Nat}

/-! ## The status line -/

/-- The short name of an object. -/
def objectName (object : Word) : CheckedPlay W String := do
  let machine ← get
  if ← look (CheckedObjects.nameIsEmpty machine.objects · object) then return ""
  let address ← look (CheckedObjects.name machine.objects · object)
  let (codes, _) ← CheckedHosted.compute
    (CheckedText.decode machine.codec machine.memory.bytes address)
  CheckedHosted.compute (CheckedCodes.decode machine.codec.unicode codes)

/-- The value of a global variable. -/
def readGlobal (machine : Machine) (number : UInt8) : CheckedPlay W Word := do
  let address ← globalAddress machine number
  look (·.readWordAt address)

/-- The status line: the name of an object, and the score or the time. -/
def statusLine : CheckedPlay W StatusLine := do
  let machine ← get
  let place ← readGlobal machine 16
  let location ← if place = 0 then pure "" else objectName place
  let first ← readGlobal machine 17
  let second ← readGlobal machine 18
  let flags ← look fun memory => pure (memory.headerByte .flags1)
  let right : StatusRight :=
    if flags &&& 0x02 ≠ 0 then .time first second else .score first.signed second
  return { location, right }

/-- Shows the status line of a version 3 story. -/
def showStatus : CheckedPlay W Unit := do
  if (← look fun memory => pure memory.version) ≤ 3 then
    let status ← statusLine
    ask (·.showStatus status)

/-- The bytes of memory are no more than have addresses. -/
theorem size_lt {memory : Memory} (h : memory.Addressable) : memory.bytes.size < 2 ^ 63 := by
  have hsize : memory.bytes.size + 0x8000 ≤ 2 ^ 63 := h
  omega

/-- The name of an object is read with its address in its range. -/
theorem accompanies_objectName (object : Word) :
    Accompanies (Machine.upkeep b cost) (objectName object : CheckedPlay W String)
      (Play.objectName object) := by
  refine Accompanies.get.bind fun machine hroomy => ?_
  refine (accompanies_read fun memory _ =>
    CheckedObjects.nameIsEmpty_eq hroomy.objects object).bind fun nameless _ => ?_
  refine .ite (fun _ => .pure trivial) fun _ => ?_
  refine .bind (accompanies_look (fun memory _ => CheckedObjects.name_eq hroomy.objects object)
    fun memory address _ hname => CheckedObjects.lt_of_name hname) fun address haddress => ?_
  refine .bind (.compute (P := fun _ => True) (CheckedText.decode_eq (size_lt hroomy.memory)
    hroomy.abbreviations (by omega)) fun _ _ => trivial) fun (codes, _) _ => ?_
  have hdecode : CheckedCodes.decode machine.codec.unicode codes = inRange (.ok _) :=
    CheckedCodes.decode_eq machine.codec.unicode codes
  exact .compute hdecode fun _ _ => trivial

/-- A global variable is read with its address in its range. -/
theorem accompanies_readGlobal {machine : Machine} (hroomy : machine.Roomy b) {number : UInt8}
    (hnumber : 16 ≤ number.toNat) :
    Accompanies (Machine.upkeep b cost) (readGlobal machine number : CheckedPlay W Word)
      (Play.look (·.readWord (Play.globalAddress machine number))) := by
  have hlt := globalAddress_lt hroomy.globals number
  rw [readGlobal, globalAddress_eq hroomy.globals hnumber, pure_bind]
  exact accompanies_read fun _ _ => Memory.readWordAt_eq (by omega)

/-- The line of the status is read with addresses in their range. -/
theorem accompanies_statusLine :
    Accompanies (Machine.upkeep b cost) (statusLine : CheckedPlay W StatusLine)
      Play.statusLine := by
  refine Accompanies.get.bind fun machine hroomy => ?_
  refine (accompanies_readGlobal hroomy (by decide)).bind fun place _ => ?_
  refine .ite (fun _ => .bind (P := fun _ => True) (.pure trivial) fun location _ => ?_) fun _ =>
    (accompanies_objectName place).bind fun location _ => ?_
  all_goals
    refine (accompanies_readGlobal hroomy (by decide)).bind fun first _ => ?_
    refine (accompanies_readGlobal hroomy (by decide)).bind fun second _ => ?_
    exact (accompanies_view fun _ _ => rfl).bind fun flags _ => .pure trivial

/-- The status is shown with addresses in their range. -/
theorem accompanies_showStatus :
    Accompanies (Machine.upkeep b cost) (showStatus : CheckedPlay W Unit) Play.showStatus := by
  refine (accompanies_view fun _ _ => rfl).bind fun version _ => ?_
  refine .ite (fun _ => ?_) fun _ => .pure trivial
  exact accompanies_statusLine.bind fun status _ => accompanies_ask _

/-! ## Text -/

/-- Prints codes. -/
def printCodes (codes : List Word) : CheckedPlay W Unit := do
  let machine ← get
  onStreams (CheckedStreams.print machine.codec.unicode codes)

/-- Prints a text. -/
def printText (text : String) : CheckedPlay W Unit := do
  let machine ← get
  let codes ← CheckedHosted.compute (CheckedCodes.encode machine.codec.unicode text)
  printCodes codes

/-- Prints the packed text at an address. -/
def printAt (address : Nat) : CheckedPlay W Unit := do
  let machine ← get
  let (codes, _) ← CheckedHosted.compute
    (CheckedText.decode machine.codec machine.memory.bytes address)
  printCodes codes

/-- Prints the bytes from an address on as codes. -/
def printBytes (address length : Nat) : CheckedPlay W Unit := do
  let bytes ← look (·.sliceAt address length)
  printCodes (bytes.map (·.toUInt16))

/-- Prints `rows` rows of a table from one row on, each but the first after a new line. -/
def printRows (text width skip : Nat) : (rows row : Nat) → CheckedPlay W Unit
  | 0, _ => pure ()
  | rows + 1, row => do
    if 0 < row then printCodes [13]
    let pitch ← sum width skip
    let far ← product row pitch
    let start ← sum text far
    printBytes start width
    printRows text width skip rows (row + 1)

/-- Prints a table: rows of `width` bytes with `skip` bytes between them. -/
def printTable (text width height skip : Word) : CheckedPlay W Unit :=
  printRows text.toNat width.toNat skip.toNat height.toNat 0

/-- Prints records from an address on, each a length word and that many bytes, up to one of
length zero. -/
def printRecords : (left address : Nat) → CheckedPlay W Unit
  | 0, address => do
    let _ ← sum address 2
    look fun memory => throw (memory.outOfBounds address)
  | left + 1, address => do
    let length := (← look (·.readWordAt address)).toNat
    if length ≠ 0 then
      let first ← sum address 2
      printBytes first length
      printCodes [13]
      let step ← sum 2 length
      let next ← sum address step
      printRecords left next

/-- Prints a table of records. -/
def printForm (table : Word) : CheckedPlay W Unit := do
  let size ← look fun memory => pure memory.size
  printRecords (size - table.toNat) table.toNat

section

variable (hlow : 0x10000 ≤ b) (hhigh : b < 2 ^ 63)
include hlow hhigh

/-- Codes are printed with the streams into memory in their range. -/
theorem accompanies_printCodes (codes : List Word) :
    Accompanies (Machine.upkeep b 2) (printCodes codes : CheckedPlay W Unit)
      (Play.printCodes codes) :=
  Accompanies.get.bind fun machine _ =>
    accompanies_onStreams (CheckedStreams.accompanies_print hlow hhigh machine.codec.unicode codes)

/-- Text is printed with its codes in their range. -/
theorem accompanies_printText (text : String) :
    Accompanies (Machine.upkeep b 2) (printText text : CheckedPlay W Unit)
      (Play.printText text) := by
  refine Accompanies.get.bind fun machine hroomy => ?_
  refine .computed (CheckedCodes.encode_eq hroomy.extras text) ?_
  exact accompanies_printCodes hlow hhigh _

/-- Packed text is printed with its addresses in their range. -/
theorem accompanies_printAt {address : Nat} (haddress : address < 2 ^ 63) :
    Accompanies (Machine.upkeep b 2) (printAt address : CheckedPlay W Unit)
      (Play.printAt address) := by
  refine Accompanies.get.bind fun machine hroomy => ?_
  refine .bind (.compute (P := fun _ => True) (CheckedText.decode_eq (size_lt hroomy.memory)
    hroomy.abbreviations haddress) fun _ _ => trivial) fun (codes, _) _ => ?_
  exact accompanies_printCodes hlow hhigh codes

/-- Bytes that are printed lie in memory. -/
theorem accompanies_printBytes {address length : Nat} (h : address + length < 2 ^ 64) :
    Accompanies (Machine.upkeep b 2) (printBytes address length : CheckedPlay W Unit)
      (Play.printBytes address length) fun _ => address + length < 2 ^ 63 := by
  refine .bind (accompanies_look (fun memory _ => Memory.sliceAt_eq h)
    fun memory bytes hroom hslice => ?_) fun bytes hstop =>
      (accompanies_printCodes hlow hhigh _).imp fun _ _ => hstop
  have hsize := size_lt hroom
  unfold Memory.slice at hslice
  split at hslice
  case isTrue hle => exact Nat.lt_of_le_of_lt hle hsize
  case isFalse => exact nomatch hslice

/-- A row after the first begins where the rows before it end. -/
theorem accompanies_printRows {text width skip row : Nat} (htext : text < 0x10000)
    (hwidth : width < 0x10000) (hskip : skip < 0x10000) (hrow : 0 < row) {rows : Nat}
    (hrows : row + rows ≤ 0x10000) :
    Accompanies (Machine.upkeep b 2) (printRows text width skip rows row : CheckedPlay W Unit)
      (Play.printRows width skip rows (text + row * (width + skip))) := by
  induction rows generalizing row with
  | zero => exact .pure trivial
  | succ rows ih =>
      have hfar : row * (width + skip) ≤ 0x10000 * 0x20000 := Nat.mul_le_mul (by omega) (by omega)
      have hnext : text + row * (width + skip) + width + skip
          = text + (row + 1) * (width + skip) := by
        rw [Nat.succ_mul]
        omega
      rw [printRows, if_pos hrow, Play.printRows, sum_of_lt (by omega), pure_bind,
        product_of_lt (by omega), pure_bind, sum_of_lt (by omega), pure_bind, hnext]
      refine (accompanies_printCodes hlow hhigh _).bind fun _ _ => ?_
      refine (accompanies_printBytes hlow hhigh (by omega)).bind fun _ _ => ?_
      exact ih (Nat.succ_pos row) (by omega)

/-- A table is printed with its rows in their range. -/
theorem accompanies_printTable (text width height skip : Word) :
    Accompanies (Machine.upkeep b 2) (printTable text width height skip : CheckedPlay W Unit)
      (Play.printTable text width height skip) := by
  have htext := text.toNat_lt
  have hwidth := width.toNat_lt
  have hheight := height.toNat_lt
  have hskip := skip.toNat_lt
  by_cases hzero : height = 0
  · rw [hzero]
    exact .pure trivial
  · have hrows : height.toNat = height.toNat - 1 + 1 := by
      have hpos : height.toNat ≠ 0 := fun h => hzero (UInt16.toNat_inj.mp h)
      omega
    have hfirst : text.toNat + width.toNat + skip.toNat
        = text.toNat + 1 * (width.toNat + skip.toNat) := by omega
    rw [printTable, hrows, printRows, if_neg (Nat.lt_irrefl 0), Play.printTable, if_pos hzero,
      sum_of_lt (by omega), pure_bind, hfirst]
    dsimp only
    rw [product_of_lt (by omega), pure_bind, sum_of_lt (by omega), pure_bind, Nat.zero_mul,
      Nat.add_zero]
    refine (accompanies_printBytes hlow hhigh (by omega)).bind fun _ _ => ?_
    exact accompanies_printRows hlow hhigh htext hwidth hskip Nat.one_pos (by omega)

/-- Records are printed with their addresses in their range. -/
theorem accompanies_printRecords (left : Nat) {address : Nat} (haddress : address < 2 ^ 63) :
    Accompanies (Machine.upkeep b 2) (printRecords left address : CheckedPlay W Unit)
      (Play.printRecords left address) := by
  induction left generalizing address with
  | zero =>
      rw [printRecords, sum_of_lt (by omega), pure_bind]
      exact accompanies_read fun _ _ => rfl
  | succ left ih =>
      refine .bind (accompanies_look (fun memory _ => Memory.readWordAt_eq (by omega))
        fun memory word hroom hread => Nat.lt_trans (Memory.lt_of_readWord hread) (size_lt hroom))
        fun word hplace => .ite (fun _ => ?_) fun _ => .pure trivial
      have hword := word.toNat_lt
      rw [sum_of_lt (by omega), pure_bind]
      refine (accompanies_printBytes hlow hhigh (by omega)).bind fun _ hstop => ?_
      refine (accompanies_printCodes hlow hhigh _).bind fun _ _ => ?_
      rw [sum_of_lt (by omega), pure_bind, sum_of_lt (by omega), pure_bind, ← Nat.add_assoc]
      exact ih hstop

/-- A form is printed with its addresses in their range. -/
theorem accompanies_printForm (table : Word) :
    Accompanies (Machine.upkeep b 2) (printForm table : CheckedPlay W Unit)
      (Play.printForm table) := by
  have htable := table.toNat_lt
  refine (accompanies_view fun _ _ => rfl).bind fun size _ => ?_
  exact accompanies_printRecords hlow hhigh _ (by omega)

end

end StoryMachine.CheckedPlay
