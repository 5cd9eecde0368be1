import StoryMachine.Machine.Dispatch
import StoryMachine.Proofs.CheckedInput
import StoryMachine.Proofs.CheckedOperations
import StoryMachine.Proofs.CheckedSaving

/-!
# Instructions with checked arithmetic

Here every instruction is carried out once more, opcode by opcode, by a program that checks the
sums, products and differences it computes and the positions it looks at, and that has no
outcome where one of them is out of range.  It is put together from the checked work on memory,
on the call stack and on the streams.

**It never lacks an outcome but in one case**, and has the outcome of the machine
(`accompanies_perform`): an instruction that selects the lowest of all output streams, whose
absolute value sixteen bits do not hold.
-/

namespace StoryMachine.CheckedPlay

open Checked

variable {W : Type} {b cost : Nat}

/-! ## What the instructions are made of -/

/-- Adds to the variable that an operand names. -/
def addToNamed (number amount : Word) : CheckedPlay W Word := do
  let value := (← readNamed number.toUInt8) + amount
  writeNamed number.toUInt8 value
  return value

/-- A link of an object, zero for object zero. -/
def linkOf (object : Word) (opcode : Opcode) (link : Link) : CheckedPlay W Word := do
  if ← isObject object opcode then
    let machine ← get
    look (CheckedObjects.link machine.objects · object link)
  else return 0

/-- Whether an object is a child of another. -/
def isInside (object parent : Word) : CheckedPlay W Bool := do
  if ← isObject object .jin then
    let machine ← get
    return (← look (CheckedObjects.link machine.objects · object .parent)) == parent
  else return false

/-- Whether an object has an attribute. -/
def hasAttribute (object number : Word) : CheckedPlay W Bool := do
  if ← isObject object .testAttr then
    let machine ← get
    look (CheckedObjects.testAttribute machine.objects · object number)
  else return false

/-- The address of the data of a property. -/
def propertyAddress (object number : Word) : CheckedPlay W Word := do
  if ← isObject object .getPropAddr then
    let machine ← get
    look (CheckedObjects.propertyAddress machine.objects · object number)
  else return 0

/-- The value of a property, with a warning if it is longer than a word. -/
def propertyValue (object number : Word) : CheckedPlay W Word := do
  if ← isObject object .getProp then
    let machine ← get
    let (value, length) ← look (CheckedObjects.getProperty machine.objects · object number)
    if 2 < length then
      warn s!"get_prop on {length} byte property {number} of object {object}"
    return value
  else return 0

/-- The property after a given one, with a warning if there is no such one. -/
def propertyAfter (object number : Word) : CheckedPlay W Word := do
  if ← isObject object .getNextProp then
    let machine ← get
    match ← look (CheckedObjects.nextProperty machine.objects · object number) with
    | some next => return next
    | none =>
      warn s!"object {object} has no property {number}"
      return 0
  else return 0

/-- Starts or stops the transcript if the story has changed its flag. -/
def syncTranscript : CheckedPlay W Unit := do
  let on := (← look fun memory => pure (memory.headerWord .flags2)) &&& 1 != 0
  let machine ← get
  if on != machine.streams.transcriptOn then
    let warning ← onStreams (CheckedStreams.select (if on then 2 else -2) none none)
    warnIf warning

/-- Warns about a write into the header, except to the second flags. -/
def checkWrite (address : Nat) : CheckedPlay W Unit := do
  if address < 0x40 ∧ address ≠ 0x10 ∧ address ≠ 0x11 then
    warn s!"write to header byte {Numeral.marked 2 address}"

/-- Writes a word for the story. -/
def storeWord (address : Nat) (value : Word) : CheckedPlay W Unit := do
  checkWrite address
  edit (CheckedEdit.writeWord address value)
  if address = 0x10 then syncTranscript

/-- Writes a byte for the story. -/
def storeByte (address : Nat) (value : UInt8) : CheckedPlay W Unit := do
  checkWrite address
  edit (CheckedEdit.writeByte address value)
  if address = 0x11 then syncTranscript

/-- A random number up to a positive range; zero or less seeds the generator. -/
def nextRandom (range : Word) : CheckedPlay W Word := do
  if 0 < range.signed then
    let machine ← get
    let (value, random) ← CheckedRandom.below range machine.random
    change fun machine => { machine with random }
    return value
  else
    let seed ←
      if range = 0 then ask (·.entropy)
      else do
        let size ← fitting 31 range.signed.natAbs
        pure (UInt32.ofNat size)
    let random ← CheckedRandom.ofSeed seed
    change fun machine => { machine with random }
    return 0

/-- Searches a table for a value. -/
def scanTable (value table count form : Word) : CheckedPlay W Word := do
  let step := (form &&& 0x7f).toNat
  if step = 0 then
    warn "scan_table with zero field length"
    return 0
  else
    let found ← look fun memory =>
      CheckedTable.find? memory value (form &&& 0x80 != 0) step table.toNat count.toNat 0
    return match found with
      | some address => address.toUInt16
      | none => 0

/-- Packs part of a text as a dictionary key. -/
def encodeText (text length start destination : Word) : CheckedPlay W Unit := do
  let place ← sum text.toNat start.toNat
  let bytes ← look (·.sliceAt place length.toNat)
  let machine ← get
  let key ← CheckedHosted.compute (CheckedText.encodeKey machine.codec (bytes.map (·.toUInt16)))
  edit (CheckedEdit.writeBytes destination.toNat 0 key)

/-- Writes two words one after the other. -/
def writePair (address : Word) (first second : Word) : CheckedPlay W Unit :=
  edit do
    CheckedEdit.writeWord address.toNat first
    let next ← sum address.toNat 2
    CheckedEdit.writeWord next second

/-- Enters the routine that the first operand names, with the others. -/
def callWith (operands : List Word) (target : Option UInt8) : CheckedPlay W Unit := do
  if operands.isEmpty then throw { kind := .badOperands, detail := "CALL WITHOUT A ROUTINE" }
  else
    let arguments ← cut operands 1 operands.length
    call (Play.operandAt operands 0) arguments target

/-- Takes a word from the stack, in version 6 from a stack in memory if one is named. -/
def pull (instruction : Instruction) (operands : List Word) : CheckedPlay W Unit := do
  if (← look fun memory => pure memory.version) = 6 then
    let value ← match operands with
      | [] => onStack CheckedStack.pop
      | stack :: _ => edit (CheckedTable.pullFrom stack.toNat)
    store instruction value
  else
    let value ← onStack CheckedStack.pop
    writeNamed (Play.operandAt operands 0).toUInt8 value

/-- Drops words from the stack, or from a stack in memory if one is named. -/
def popStack (operands : List Word) : CheckedPlay W Unit :=
  match operands with
  | count :: stack :: _ => edit (CheckedTable.free stack.toNat count)
  | _ => onStack (CheckedStack.popMany (Play.operandAt operands 0).toNat)

/-- Selects an output stream; only version 6 gives a width. -/
def selectOutput (operands : List Word) : CheckedPlay W Unit := do
  let version ← look fun memory => pure memory.version
  let width := if version = 6 then operands[2]?.map Word.signed else none
  let warning ← onStreams
    (CheckedStreams.select (Play.operandAt operands 0).signed operands[1]? width)
  warnIf warning

/-- The code that prints a Unicode character. -/
def unicodeCode (machine : Machine) (number : Word) : Checked Word :=
  match charOf? number.toNat with
  | some c => do
    let code ← CheckedCodes.ofChar? machine.codec.unicode c
    return code.getD questionMark
  | none => pure questionMark

/-- What the host can do with a Unicode character. -/
def unicodeSupport (number : Word) : CheckedPlay W Word :=
  match charOf? number.toNat with
  | some c => ask (·.checkUnicode c)
  | none => pure 0

/-- The address of a packed text. -/
def stringAddress (packed : Word) : CheckedPlay W Nat :=
  look fun memory => memory.story.unpackAt packed memory.story.stringOffset

section

/-- Adding to a variable wraps as words do. -/
theorem accompanies_addToNamed (number amount : Word) :
    Accompanies (Machine.upkeep b cost) (addToNamed number amount : CheckedPlay W Word)
      (Play.addToNamed number amount) :=
  (accompanies_readNamed _).bind fun _ _ => (accompanies_writeNamed _ _).bind fun _ _ =>
    .pure trivial

/-- A link is followed with its address in its range. -/
theorem accompanies_linkOf (object : Word) (opcode : Opcode) (link : Link) :
    Accompanies (Machine.upkeep b cost) (linkOf object opcode link : CheckedPlay W Word)
      (Play.linkOf object opcode link) := by
  refine (accompanies_isObject object opcode).bind fun _ _ =>
    .ite (fun _ => ?_) fun _ => .pure trivial
  exact Accompanies.get.bind fun machine hroomy =>
    accompanies_read fun memory _ => CheckedObjects.link_eq hroomy.objects object link

/-- A parent is compared with its address in its range. -/
theorem accompanies_isInside (object parent : Word) :
    Accompanies (Machine.upkeep b cost) (isInside object parent : CheckedPlay W Bool)
      (Play.isInside object parent) := by
  refine (accompanies_isObject object _).bind fun _ _ => .ite (fun _ => ?_) fun _ => .pure trivial
  exact Accompanies.get.bind fun machine hroomy => (accompanies_read fun memory _ =>
    CheckedObjects.link_eq hroomy.objects object .parent).bind fun _ _ => .pure trivial

/-- An attribute is tested with its address and mask in their range. -/
theorem accompanies_hasAttribute (object number : Word) :
    Accompanies (Machine.upkeep b cost) (hasAttribute object number : CheckedPlay W Bool)
      (Play.hasAttribute object number) := by
  refine (accompanies_isObject object _).bind fun _ _ => .ite (fun _ => ?_) fun _ => .pure trivial
  exact Accompanies.get.bind fun machine hroomy =>
    accompanies_read fun memory _ => CheckedObjects.testAttribute_eq hroomy.objects object number

/-- The address of a property is found with addresses in their range. -/
theorem accompanies_propertyAddress (object number : Word) :
    Accompanies (Machine.upkeep b cost) (propertyAddress object number : CheckedPlay W Word)
      (Play.propertyAddress object number) := by
  refine (accompanies_isObject object _).bind fun _ _ => .ite (fun _ => ?_) fun _ => .pure trivial
  exact Accompanies.get.bind fun machine hroomy => accompanies_read fun memory hroom =>
    CheckedObjects.propertyAddress_eq hroom hroomy.objects object number

/-- The value of a property is found with addresses in their range. -/
theorem accompanies_propertyValue (object number : Word) :
    Accompanies (Machine.upkeep b cost) (propertyValue object number : CheckedPlay W Word)
      (Play.propertyValue object number) := by
  refine (accompanies_isObject object _).bind fun _ _ => .ite (fun _ => ?_) fun _ => .pure trivial
  refine Accompanies.get.bind fun machine hroomy => ?_
  refine (accompanies_read fun memory hroom =>
    CheckedObjects.getProperty_eq hroom hroomy.objects object number).bind
      fun (value, length) _ => ?_
  exact .ite (fun _ => (accompanies_warn _).bind fun _ _ => .pure trivial) fun _ => .pure trivial

/-- The next property is found with addresses in their range. -/
theorem accompanies_propertyAfter (object number : Word) :
    Accompanies (Machine.upkeep b cost) (propertyAfter object number : CheckedPlay W Word)
      (Play.propertyAfter object number) := by
  refine (accompanies_isObject object _).bind fun _ _ => .ite (fun _ => ?_) fun _ => .pure trivial
  refine Accompanies.get.bind fun machine hroomy => ?_
  refine (accompanies_read fun memory hroom =>
    CheckedObjects.nextProperty_eq hroom hroomy.objects object number).bind fun next _ => ?_
  cases next with
  | some next => exact .pure trivial
  | none => exact (accompanies_warn _).bind fun _ _ => .pure trivial

/-- A check of an address computes nothing. -/
theorem accompanies_checkWrite (address : Nat) :
    Accompanies (Machine.upkeep b cost) (checkWrite address : CheckedPlay W Unit)
      (Play.checkWrite address) :=
  .ite (fun _ => accompanies_warn _) fun _ => .pure trivial

/-- A generator is no matter of the machine's room. -/
theorem accompanies_setRandom (random : Random) (value : Word) :
    Accompanies (Machine.upkeep b cost)
      (do
        change fun machine => { machine with random }
        return value : CheckedPlay W Word)
      (do
        modify fun machine => { machine with random }
        return value) := by
  refine .bind (accompanies_change fun machine hroomy => ?_) fun _ _ => .pure trivial
  exact { hroomy with }

/-- A word with a sign has sixteen bits. -/
theorem signed_bounds (word : Word) : -0x8000 ≤ word.signed ∧ word.signed < 0x8000 :=
  ⟨word.toInt16.le_toInt, word.toInt16.toInt_lt⟩

/-- A range that is positive is not zero, and a seed is the size of a number of 16 bits. -/
theorem accompanies_nextRandom (range : Word) :
    Accompanies (Machine.upkeep b cost) (nextRandom range : CheckedPlay W Word)
      (Play.nextRandom range) := by
  have hseed (seed : UInt32) : Accompanies (Machine.upkeep b cost)
      (do
        let random ← CheckedRandom.ofSeed seed
        change fun machine => { machine with random }
        return 0 : CheckedPlay W Word)
      (do
        modify fun machine => { machine with random := .ofSeed seed }
        return 0) := by
    rw [CheckedRandom.ofSeed_eq, pure_bind]
    exact accompanies_setRandom _ 0
  refine .ite (fun hpos => ?_) fun _ => .ite (fun _ => ?_) fun _ => ?_
  · have hrange : range ≠ 0 := by
      rintro rfl
      exact absurd hpos (by decide)
    refine Accompanies.get.bind fun machine _ => ?_
    rw [CheckedRandom.below_eq hrange, pure_bind]
    exact accompanies_setRandom _ _
  · exact (accompanies_ask _).bind fun seed _ => hseed seed
  · have hsize := signed_bounds range
    rw [fitting_of_lt (by omega), pure_bind]
    exact .bind (P := fun _ => True) (.pure trivial) fun seed _ => hseed seed

/-- A table is searched with its addresses in their range. -/
theorem accompanies_scanTable (value table count form : Word) :
    Accompanies (Machine.upkeep b cost) (scanTable value table count form : CheckedPlay W Word)
      (Play.scanTable value table count form) := by
  have hstep : (form &&& 0x7f).toNat < 0x80 := by
    rw [UInt16.toNat_and]
    exact Nat.lt_succ_of_le Nat.and_le_right
  have htable := table.toNat_lt
  have hcount := count.toNat_lt
  refine .ite (fun _ => (accompanies_warn _).bind fun _ _ => .pure trivial) fun _ => ?_
  refine (accompanies_read fun memory _ => ?_).bind fun found _ => .pure trivial
  have hfind := @CheckedTable.find?_eq memory value (form &&& 0x80 != 0) _ _ count.toNat 0 hstep
    htable (by omega)
  rw [hfind, Nat.zero_mul, Nat.add_zero]

/-- Text is packed from a slice whose end is in its range. -/
theorem accompanies_encodeText (text length start destination : Word) :
    Accompanies (Machine.upkeep b cost)
      (encodeText text length start destination : CheckedPlay W Unit)
      (Play.encodeText text length start destination) := by
  have htext := text.toNat_lt
  have hlength := length.toNat_lt
  have hstart := start.toNat_lt
  have hdestination := destination.toNat_lt
  unfold encodeText
  rw [sum_of_lt (by omega), pure_bind]
  refine (accompanies_read fun memory _ => Memory.sliceAt_eq (by omega)).bind fun bytes _ => ?_
  refine Accompanies.get.bind fun machine _ => ?_
  refine .computed (CheckedText.encodeKey_eq _ _) ?_
  exact accompanies_edit (CheckedEdit.follows_writeBytes (by omega) _)

/-- Two words are written with the second address in its range. -/
theorem accompanies_writePair (address first second : Word) :
    Accompanies (Machine.upkeep b cost) (writePair address first second : CheckedPlay W Unit)
      (Play.writePair address first second) := by
  have haddress := address.toNat_lt
  refine accompanies_edit (.bind (CheckedEdit.follows_writeWord (by omega) first) fun _ _ => ?_)
  rw [sum_of_lt (by omega), pure_bind]
  exact (CheckedEdit.follows_writeWord (by omega) second).imp fun _ _ => trivial

/-- The operands after the first one. -/
theorem cut_rest {m : Type → Type} [Monad m] [Breaks m] {operands : List Word} (h : operands ≠ []) :
    (cut operands 1 operands.length : m (List Word)) = pure (operands.drop 1) := by
  rw [cut_of_le (List.length_pos_iff.mpr h) (Nat.le_refl _),
    List.take_of_length_le (Nat.le_of_eq List.length_drop)]

/-- A call enters its routine with the frames counted. -/
theorem accompanies_callWith (operands : List Word) (target : Option UInt8) :
    Accompanies (Machine.upkeep b cost) (callWith operands target : CheckedPlay W Unit)
      (Play.callWith operands target) := by
  cases operands with
  | nil => exact .throw _
  | cons routine arguments =>
      unfold callWith
      rw [if_neg nofun, cut_rest (List.cons_ne_nil routine arguments), pure_bind]
      exact accompanies_call routine arguments target

/-- A word is pulled with the stacks in their range. -/
theorem accompanies_pull (instruction : Instruction) (operands : List Word) :
    Accompanies (Machine.upkeep b cost) (pull instruction operands : CheckedPlay W Unit)
      (Play.pull instruction operands) := by
  have hpop : Accompanies (Machine.upkeep b cost) (onStack CheckedStack.pop : CheckedPlay W Word)
      (Play.onStack CallStack.pop) := accompanies_onStack CheckedStack.follows_pop
  refine (accompanies_view fun _ _ => rfl).bind fun version _ => .ite (fun _ => ?_) fun _ => ?_
  · cases operands with
    | nil => exact hpop.bind fun value _ => accompanies_store instruction value
    | cons stack rest =>
        exact (accompanies_edit (CheckedTable.follows_pullFrom stack.toNat_lt)).bind fun value _ =>
          accompanies_store instruction value
  · exact hpop.bind fun value _ => accompanies_writeNamed _ value

/-- Words are dropped with the stacks in their range. -/
theorem accompanies_popStack (operands : List Word) :
    Accompanies (Machine.upkeep b cost) (popStack operands : CheckedPlay W Unit)
      (Play.popStack operands) := by
  unfold popStack Play.popStack
  rcases operands with _ | ⟨count, _ | ⟨stack, rest⟩⟩ <;> dsimp only
  · exact accompanies_onStack (CheckedStack.follows_popMany _)
  · exact accompanies_onStack (CheckedStack.follows_popMany _)
  · exact accompanies_edit (CheckedTable.follows_free stack.toNat_lt count)

/-- A character is given the code of its place in the range of codes. -/
theorem unicodeCode_eq {machine : Machine} (hextras : machine.codec.unicode.extras.size ≤ 97)
    (number : Word) : unicodeCode machine number = pure (Play.unicodeCode machine number) := by
  unfold unicodeCode Play.unicodeCode
  cases charOf? number.toNat with
  | none => rfl
  | some c =>
      dsimp only
      rw [CheckedCodes.ofChar?_eq hextras, pure_bind]
      rfl

/-- Asking about a character computes nothing. -/
theorem accompanies_unicodeSupport (number : Word) :
    Accompanies (Machine.upkeep b cost) (unicodeSupport number : CheckedPlay W Word)
      (Play.unicodeSupport number) := by
  unfold unicodeSupport Play.unicodeSupport
  cases charOf? number.toNat with
  | some c => exact accompanies_ask _
  | none => exact .pure trivial

/-- Packed texts lie below 2^20. -/
theorem accompanies_stringAddress (packed : Word) :
    Accompanies (Machine.upkeep b cost) (stringAddress packed : CheckedPlay W Nat)
      (Play.view (·.story.stringAddress packed)) fun address => address < 0x100000 :=
  .look (fun host machine w => Machine.play_view machine host w _)
    (fun _ _ => Story.unpackAt_eq _ packed (Story.stringOffset_lt _))
    fun _ _ _ haddress => Except.ok.inj haddress ▸
      Story.unpack_lt _ packed (Story.stringOffset_lt _)

section

variable (hlow : 0x10000 ≤ b) (hhigh : b < 2 ^ 63)
include hlow hhigh

/-- Streams that follow the flag are selected by two or minus two. -/
theorem accompanies_syncTranscript :
    Accompanies (Machine.upkeep b 2) (syncTranscript : CheckedPlay W Unit) Play.syncTranscript := by
  refine (accompanies_view fun _ _ => rfl).bind fun flags _ => ?_
  refine Accompanies.get.bind fun machine _ => .ite (fun _ => ?_) fun _ => .pure trivial
  refine (accompanies_onStreams (CheckedStreams.accompanies_select hlow hhigh ?_ none none)).bind
    fun warning _ => accompanies_warnIf warning
  split <;> decide

/-- A word is stored with both its addresses in their range. -/
theorem accompanies_storeWord {address : Nat} (haddress : address < 0x10000) (value : Word) :
    Accompanies (Machine.upkeep b 2) (storeWord address value : CheckedPlay W Unit)
      (Play.storeWord address value) := by
  refine (accompanies_checkWrite address).bind fun _ _ => ?_
  refine (accompanies_edit (CheckedEdit.follows_writeWord (by omega) value)).bind fun _ _ => ?_
  exact .ite (fun _ => accompanies_syncTranscript hlow hhigh) fun _ => .pure trivial

/-- A byte is stored at its address. -/
theorem accompanies_storeByte (address : Nat) (value : UInt8) :
    Accompanies (Machine.upkeep b 2) (storeByte address value : CheckedPlay W Unit)
      (Play.storeByte address value) := by
  refine (accompanies_checkWrite address).bind fun _ _ => ?_
  refine (accompanies_edit (CheckedEdit.follows_writeByte address value)).bind fun _ _ => ?_
  exact .ite (fun _ => accompanies_syncTranscript hlow hhigh) fun _ => .pure trivial

/-- An output stream other than the lowest is selected by a number that has an absolute value. -/
theorem accompanies_selectOutput {operands : List Word} (h : Play.operandAt operands 0 ≠ 0x8000) :
    Accompanies (Machine.upkeep b 2) (selectOutput operands : CheckedPlay W Unit)
      (Play.selectOutput operands) := by
  have hnumber : (Play.operandAt operands 0).signed.natAbs < 2 ^ 15 := by
    have hlowest := Play.signed_ne_lowest h
    have hbounds := signed_bounds (Play.operandAt operands 0)
    omega
  refine (accompanies_view fun _ _ => rfl).bind fun version _ => ?_
  exact (accompanies_onStreams (CheckedStreams.accompanies_select hlow hhigh hnumber _ _)).bind
    fun warning _ => accompanies_warnIf warning

end

end

/-! ## The instructions -/

/-- Does what an instruction asks for, given the values of its operands. -/
def perform (instruction : Instruction) (operands : List Word) : CheckedPlay W Unit := do
  let a := Play.operandAt operands 0
  let b := Play.operandAt operands 1
  let c := Play.operandAt operands 2
  let d := Play.operandAt operands 3
  let objects := (← get).objects
  match instruction.opcode with
  -- tests and arithmetic
  | .je => do
    let others ← cut operands 1 operands.length
    branch instruction (others.contains a)
  | .jl => branch instruction (a.less b)
  | .jg => branch instruction (a.greater b)
  | .jz => branch instruction (a == 0)
  | .test => branch instruction (a &&& b == b)
  | .or => store instruction (a ||| b)
  | .and => store instruction (a &&& b)
  | .not => store instruction (~~~a)
  | .add => store instruction (a + b)
  | .sub => store instruction (a - b)
  | .mul => store instruction (a * b)
  | .div => store instruction (← CheckedHosted.compute (inRange (a.divide b)))
  | .mod => store instruction (← CheckedHosted.compute (inRange (a.modulo b)))
  | .logShift => store instruction (← CheckedShift.logical a b)
  | .artShift => store instruction (← CheckedShift.arithmetic a b)
  | .random => store instruction (← nextRandom a)
  -- variables and the stack
  | .store => writeNamed a.toUInt8 b
  | .load => store instruction (← readNamed a.toUInt8)
  | .inc => let _ ← addToNamed a 1
  | .dec => let _ ← addToNamed a 0xffff
  | .incChk => branch instruction ((← addToNamed a 1).greater b)
  | .decChk => branch instruction ((← addToNamed a 0xffff).less b)
  | .push => onStack (CheckedStack.push a)
  | .pull => pull instruction operands
  | .pop => let _ ← onStack CheckedStack.pop
  | .popStack => popStack operands
  | .pushStack => branch instruction (← edit (CheckedTable.pushOnto b.toNat a))
  -- calls and jumps
  | .call1s | .call2s | .callVs | .callVs2 => callWith operands instruction.store
  | .call1n | .call2n | .callVn | .callVn2 => callWith operands none
  | .ret => ret a
  | .rtrue => ret 1
  | .rfalse => ret 0
  | .retPopped => ret (← onStack CheckedStack.pop)
  | .catchFrame => store instruction (← get).stack.depth.toUInt16
  | .throwFrame => do
    onStack (CheckedStack.unwind b.toNat)
    ret a
  | .jump => setPc (← placeAt instruction.next a.signed)
  | .checkArgCount => branch instruction (a.toNat ≤ (← onStack CheckedStack.argumentCount))
  | .nop => pure ()
  | .piracy => branch instruction true
  | .verify =>
    branch instruction (← look fun memory => do
      let total ← memory.story.checksumAt
      return total == memory.headerWord .checksum)
  | .quit => change fun machine => { machine with halted := some .quit }
  -- objects
  | .jin => branch instruction (← isInside a b)
  | .testAttr => branch instruction (← hasAttribute a b)
  | .setAttr => if ← isObject a .setAttr then edit (CheckedObjects.setAttribute objects a b true)
  | .clearAttr =>
    if ← isObject a .clearAttr then edit (CheckedObjects.setAttribute objects a b false)
  | .insertObj =>
    if ← isObject a .insertObj then
      if ← isObject b .insertObj then edit (CheckedObjects.insert objects a b)
  | .removeObj => if ← isObject a .removeObj then edit (CheckedObjects.remove objects a)
  | .getSibling => do
    let value ← linkOf a .getSibling .sibling
    store instruction value
    branch instruction (value != 0)
  | .getChild => do
    let value ← linkOf a .getChild .child
    store instruction value
    branch instruction (value != 0)
  | .getParent => store instruction (← linkOf a .getParent .parent)
  | .getProp => store instruction (← propertyValue a b)
  | .getPropAddr => store instruction (← propertyAddress a b)
  | .getNextProp => store instruction (← propertyAfter a b)
  | .getPropLen => store instruction (← look (CheckedObjects.propertyLength objects · a.toNat))
  | .putProp =>
    if ← isObject a .putProp then
      if !(← edit (CheckedObjects.putProperty objects a b c)) then
        warn s!"put_prop on missing property {b} of object {a}"
  -- memory
  | .loadw => store instruction (← look (·.readWordAt (a + b * 2).toNat))
  | .loadb =>
    store instruction (← look fun memory => inRange (memory.readByte (a + b).toNat)).toUInt16
  | .storew => storeWord (a + b * 2).toNat c
  | .storeb => storeByte (a + b).toNat c.toUInt8
  | .scanTable => do
    let found ← scanTable a b c (if operands.length ≤ 3 then 0x82 else d)
    store instruction found
    branch instruction (found != 0)
  | .copyTable => edit (CheckedTable.copy a b c)
  -- text
  | .print => if let some address := instruction.text then printAt address
  | .printRet => do
    if let some address := instruction.text then printAt address
    printCodes [13]
    ret 1
  | .printAddr => printAt a.toNat
  | .printPaddr => printAt (← stringAddress a)
  | .printObj =>
    if ← isObject a .printObj then
      if !(← look (CheckedObjects.nameIsEmpty objects · a)) then
        printAt (← look (CheckedObjects.name objects · a))
  | .printChar => printCodes [a]
  | .printNum => printText (toString a.signed)
  | .printUnicode => printCodes [← CheckedHosted.compute (unicodeCode (← get) a)]
  | .newLine => printCodes [13]
  | .printTable => printTable a b (if operands.length ≤ 2 then 1 else c) d
  | .printForm => printForm a
  | .encodeText => encodeText a b c d
  | .tokenise => do
    let dictionary ←
      if c = 0 then look fun memory => pure (memory.headerWord .dictionary) else pure c
    tokenise a.toNat b.toNat dictionary.toNat (d != 0)
  -- input
  | .read =>
    lineRead { text := a.toNat, parse := b.toNat, time := c, routine := d,
               store := instruction.store, typed := "" }
  | .readChar => do
    if !operands.isEmpty && a != 1 then warn s!"read_char from device {a}"
    charRead { time := b, routine := c, store := instruction.store }
  | .inputStream => warnIf (← onStreams (CheckedHosted.whole (Streams.selectInput a)))
  | .readMouse => do
    let (x, y) ← ask (·.getMouse)
    writePair a y x
    edit do
      let third ← sum a.toNat 4
      CheckedEdit.writeWord third 0
      let fourth ← sum a.toNat 6
      CheckedEdit.writeWord fourth 0
  | .makeMenu => branch instruction false
  -- saving
  | .save =>
    if 2 ≤ operands.length then store instruction (← saveAuxiliary a b) else saveGame instruction
  | .restore =>
    if 2 ≤ operands.length then store instruction (← restoreAuxiliary a b)
    else restoreGame instruction
  | .restart => restart
  | .saveUndo => saveUndo instruction
  | .restoreUndo => restoreUndo instruction
  -- the screen
  | .showStatus => showStatus
  | .outputStream => selectOutput operands
  | .bufferMode => ask (·.setBuffering (a != 0))
  | .bufferScreen => store instruction 0
  | .setTextStyle => ask (·.setStyle a)
  | .setColour => ask (·.setColour a b c)
  | .setTrueColour => ask (·.setTrueColour a b c)
  | .setFont => store instruction (← ask (·.setFont a))
  | .setCursor => ask (·.setCursor a.signed b c)
  | .getCursor => do
    let (line, column) ← ask (·.getCursor)
    writePair a line column
  | .eraseWindow => ask (·.eraseWindow a.signed)
  | .eraseLine => ask (·.eraseLine a)
  | .splitWindow => ask (·.splitWindow a)
  | .setWindow => ask (·.setWindow a)
  | .setMargins => ask (·.setMargins a b c)
  | .moveWindow => ask (·.moveWindow a b c)
  | .windowSize => ask (·.windowSize a b c)
  | .windowStyle => ask (·.windowStyle a b c)
  | .getWindProp => store instruction (← ask (·.windowProperty a b))
  | .putWindProp => ask (·.setWindowProperty a b c)
  | .scrollWindow => ask (·.scrollWindow a b.signed)
  | .mouseWindow => ask (·.mouseWindow a)
  | .checkUnicode => store instruction (← unicodeSupport a)
  -- pictures and sounds
  | .drawPicture => ask (·.drawPicture a b c)
  | .erasePicture => ask (·.erasePicture a b c)
  | .pictureData => do
    match ← ask (·.pictureData a) with
    | some (height, width) =>
      writePair b height width
      branch instruction true
    | none => branch instruction false
  | .pictureTable => pure ()
  | .soundEffect => ask (·.soundEffect a b c)

section

/-- The frame that is looked at for its arguments is the current one. -/
theorem accompanies_argumentCount {next : Nat → CheckedPlay W Unit}
    {next' : Nat → Play (StateM W) Unit}
    (h : ∀ count, Accompanies (Machine.upkeep b cost) (next count) (next' count)) :
    Accompanies (Machine.upkeep b cost) (onStack CheckedStack.argumentCount >>= next)
      (do next' (← get).stack.current.arguments) := by
  intro host machine w hroomy
  have hon : (onStack CheckedStack.argumentCount : CheckedPlay W Nat).on host machine w
      = some ((.ok machine.stack.current.arguments, machine), w) := by
    show (CheckedStack.argumentCount.on machine.stack).map _ = _
    rw [CheckedStack.argumentCount, CheckedStack.on_top_bind]
    rfl
  rw [CheckedHosted.on_bind, hon]
  exact h machine.stack.current.arguments host machine w hroomy

variable (hlow : 0x10000 ≤ b) (hhigh : b < 2 ^ 63)
include hlow hhigh

/-- **Every instruction does what the machine does**, and stays in range, unless it selects the
lowest output stream. -/
theorem accompanies_perform {instruction : Instruction} (hfits : instruction.Fits)
    {operands : List Word} (hpair : instruction.opcode = .je → operands ≠ [])
    (hlowest : ¬Play.SelectsLowest instruction operands) :
    Accompanies (Machine.upkeep b 2) (perform instruction operands : CheckedPlay W Unit)
      (Play.perform instruction operands) := by
  refine Accompanies.get.bind fun machine hroomy => ?_
  have hobjects := hroomy.objects
  unfold Play.SelectsLowest at hlowest
  dsimp only
  cases hopcode : instruction.opcode with
  | je =>
      dsimp only
      rw [cut_rest (hpair hopcode), pure_bind]
      exact accompanies_branch hfits _
  | jl | jg | jz | test | piracy | makeMenu => exact accompanies_branch hfits _
  | or | and | not | add | sub | mul | bufferScreen => exact accompanies_store _ _
  | div | mod =>
      exact (Accompanies.compute (P := fun _ => True) rfl fun _ _ => trivial).bind fun _ _ =>
        accompanies_store _ _
  | logShift =>
      dsimp only
      rw [CheckedShift.logical_eq, pure_bind]
      exact accompanies_store _ _
  | artShift =>
      dsimp only
      rw [CheckedShift.arithmetic_eq, pure_bind]
      exact accompanies_store _ _
  | random => exact (accompanies_nextRandom _).bind fun _ _ => accompanies_store _ _
  | store => exact accompanies_writeNamed _ _
  | load => exact (accompanies_readNamed _).bind fun _ _ => accompanies_store _ _
  | inc | dec => exact (accompanies_addToNamed _ _).bind fun _ _ => .pure trivial
  | incChk | decChk => exact (accompanies_addToNamed _ _).bind fun _ _ => accompanies_branch hfits _
  | push => exact accompanies_onStack (CheckedStack.follows_push _)
  | pull => exact accompanies_pull _ _
  | pop => exact (accompanies_onStack CheckedStack.follows_pop).bind fun _ _ => .pure trivial
  | popStack => exact accompanies_popStack _
  | pushStack =>
      exact (accompanies_edit (CheckedTable.follows_pushOnto (UInt16.toNat_lt _) _)).bind
        fun _ _ => accompanies_branch hfits _
  | call1s | call2s | callVs | callVs2 | call1n | call2n | callVn | callVn2 =>
      exact accompanies_callWith _ _
  | ret | rtrue | rfalse => exact accompanies_ret _
  | retPopped =>
      exact (accompanies_onStack CheckedStack.follows_pop).bind fun _ _ => accompanies_ret _
  | catchFrame => exact Accompanies.get.bind fun _ _ => accompanies_store _ _
  | throwFrame =>
      exact (accompanies_onStack (CheckedStack.follows_unwind _)).bind fun _ _ => accompanies_ret _
  | jump =>
      have hbounds := signed_bounds (Play.operandAt operands 0)
      dsimp only
      rw [placeAt_eq hfits.next hbounds.1 hbounds.2, pure_bind]
      exact accompanies_setPc _
  | checkArgCount => exact accompanies_argumentCount fun _ => accompanies_branch hfits _
  | nop | pictureTable => exact .pure trivial
  | verify =>
      refine (accompanies_view fun memory _ => ?_).bind fun _ _ => accompanies_branch hfits _
      rw [Story.checksumAt_eq, pure_bind]
  | quit => exact accompanies_change fun _ hroomy => { hroomy with }
  | jin => exact (accompanies_isInside _ _).bind fun _ _ => accompanies_branch hfits _
  | testAttr => exact (accompanies_hasAttribute _ _).bind fun _ _ => accompanies_branch hfits _
  | setAttr | clearAttr =>
      exact (accompanies_isObject _ _).bind fun _ _ => .ite (fun _ => accompanies_edit
        (CheckedObjects.follows_setAttribute hobjects _ _ _)) fun _ => .pure trivial
  | insertObj =>
      refine (accompanies_isObject _ _).bind fun _ _ => .ite (fun _ => ?_) fun _ => .pure trivial
      exact (accompanies_isObject _ _).bind fun _ _ => .ite (fun _ => accompanies_edit
        (CheckedObjects.follows_insert hobjects _ _)) fun _ => .pure trivial
  | removeObj =>
      exact (accompanies_isObject _ _).bind fun _ _ => .ite (fun _ => accompanies_edit
        (CheckedObjects.follows_remove hobjects _)) fun _ => .pure trivial
  | getSibling | getChild =>
      exact (accompanies_linkOf _ _ _).bind fun _ _ => (accompanies_store _ _).bind fun _ _ =>
        accompanies_branch hfits _
  | getParent => exact (accompanies_linkOf _ _ _).bind fun _ _ => accompanies_store _ _
  | getProp => exact (accompanies_propertyValue _ _).bind fun _ _ => accompanies_store _ _
  | getPropAddr => exact (accompanies_propertyAddress _ _).bind fun _ _ => accompanies_store _ _
  | getNextProp => exact (accompanies_propertyAfter _ _).bind fun _ _ => accompanies_store _ _
  | getPropLen =>
      exact (accompanies_read fun memory _ => CheckedObjects.propertyLength_eq _).bind
        fun _ _ => accompanies_store _ _
  | putProp =>
      refine (accompanies_isObject _ _).bind fun _ _ => .ite (fun _ => ?_) fun _ => .pure trivial
      exact (accompanies_edit (CheckedObjects.follows_putProperty hobjects _ _ _)).bind fun _ _ =>
        .ite (fun _ => accompanies_warn _) fun _ => .pure trivial
  | loadw =>
      refine (accompanies_read fun memory _ => Memory.readWordAt_eq ?_).bind
        fun _ _ => accompanies_store _ _
      exact Nat.lt_trans (Nat.add_lt_add_right (UInt16.toNat_lt _) 2) (by decide)
  | loadb => exact (accompanies_read fun _ _ => rfl).bind fun _ _ => accompanies_store _ _
  | storew => exact accompanies_storeWord hlow hhigh (UInt16.toNat_lt _) _
  | storeb => exact accompanies_storeByte hlow hhigh _ _
  | scanTable =>
      exact (accompanies_scanTable _ _ _ _).bind fun _ _ => (accompanies_store _ _).bind fun _ _ =>
        accompanies_branch hfits _
  | copyTable => exact accompanies_edit (CheckedTable.follows_copy _ _ _)
  | print =>
      dsimp only
      cases htext : instruction.text with
      | some address => exact accompanies_printAt hlow hhigh (hfits.text address htext)
      | none => exact .pure trivial
  | printRet =>
      have hend : Accompanies (Machine.upkeep b 2)
          (do
            printCodes [13]
            ret 1 : CheckedPlay W Unit)
          (do
            Play.printCodes [13]
            Play.ret 1) :=
        (accompanies_printCodes hlow hhigh _).bind fun _ _ => accompanies_ret 1
      dsimp only
      cases htext : instruction.text with
      | some address =>
          exact (accompanies_printAt hlow hhigh (hfits.text address htext)).bind fun _ _ => hend
      | none => exact hend
  | printAddr =>
      exact accompanies_printAt hlow hhigh (Nat.lt_trans (UInt16.toNat_lt _) (by decide))
  | printPaddr =>
      exact (accompanies_stringAddress _).bind fun address haddress =>
        accompanies_printAt hlow hhigh (Nat.lt_trans haddress (by decide))
  | printObj =>
      refine (accompanies_isObject _ _).bind fun _ _ => .ite (fun _ => ?_) fun _ => .pure trivial
      refine (accompanies_read fun memory _ => CheckedObjects.nameIsEmpty_eq hobjects _).bind
        fun _ _ => .ite (fun _ => ?_) fun _ => .pure trivial
      refine .bind (accompanies_look (fun memory _ => CheckedObjects.name_eq hobjects _)
        fun memory address _ hname => CheckedObjects.lt_of_name hname) fun address haddress => ?_
      exact accompanies_printAt hlow hhigh (Nat.lt_trans haddress (by decide))
  | printChar | newLine => exact accompanies_printCodes hlow hhigh _
  | printNum => exact accompanies_printText hlow hhigh _
  | printUnicode =>
      refine Accompanies.get.bind fun machine hroomy => ?_
      refine .computed (unicodeCode_eq hroomy.extras _) ?_
      exact accompanies_printCodes hlow hhigh _
  | printTable => exact accompanies_printTable hlow hhigh _ _ _ _
  | printForm => exact accompanies_printForm hlow hhigh _
  | encodeText => exact accompanies_encodeText _ _ _ _
  | tokenise =>
      have hcut (dictionary : Word) : Accompanies (Machine.upkeep b 2)
          (tokenise (Play.operandAt operands 0).toNat (Play.operandAt operands 1).toNat
            dictionary.toNat (Play.operandAt operands 3 != 0) : CheckedPlay W Unit)
          (Play.tokenise (Play.operandAt operands 0).toNat (Play.operandAt operands 1).toNat
            dictionary.toNat (Play.operandAt operands 3 != 0)) :=
        accompanies_tokenise (UInt16.toNat_lt _) (UInt16.toNat_lt _) dictionary.toNat_lt _
      refine .ite (fun _ => ?_) fun _ => ?_
      · exact (accompanies_view fun _ _ => rfl).bind fun dictionary _ => hcut dictionary
      · exact .bind (P := fun _ => True) (.pure trivial) fun dictionary _ => hcut dictionary
  | read => exact accompanies_lineRead ⟨UInt16.toNat_lt _, UInt16.toNat_lt _⟩
  | readChar =>
      exact .ite (fun _ => (accompanies_warn _).bind fun _ _ => accompanies_charRead _) fun _ =>
        accompanies_charRead _
  | inputStream =>
      exact (accompanies_onStreams (.maintained (CheckedStreams.maintains_selectInput _))).bind
        fun warning _ => accompanies_warnIf warning
  | readMouse =>
      have haddress := (Play.operandAt operands 0).toNat_lt
      refine (accompanies_ask _).bind fun (x, y) _ => ?_
      refine (accompanies_writePair _ _ _).bind fun _ _ => accompanies_edit ?_
      rw [sum_of_lt (by omega), pure_bind]
      refine (CheckedEdit.follows_writeWord (by omega) _).bind fun _ _ => ?_
      rw [sum_of_lt (by omega), pure_bind]
      exact (CheckedEdit.follows_writeWord (by omega) _).imp fun _ _ => trivial
  | save =>
      exact .ite (fun _ => (accompanies_saveAuxiliary _ _).bind fun _ _ => accompanies_store _ _)
        fun _ => accompanies_saveGame hfits
  | restore =>
      exact .ite (fun _ => (accompanies_restoreAuxiliary _ _).bind fun _ _ => accompanies_store _ _)
        fun _ => accompanies_restoreGame hfits
  | restart => exact accompanies_restart
  | saveUndo => exact accompanies_saveUndo _
  | restoreUndo => exact accompanies_restoreUndo _
  | showStatus => exact accompanies_showStatus
  | outputStream =>
      exact accompanies_selectOutput hlow hhigh fun hnumber => hlowest ⟨hopcode, hnumber⟩
  | bufferMode | setTextStyle | setColour | setTrueColour | setCursor | eraseWindow | eraseLine
  | splitWindow | setWindow | setMargins | moveWindow | windowSize | windowStyle | putWindProp
  | scrollWindow | mouseWindow | drawPicture | erasePicture | soundEffect =>
      exact accompanies_ask _
  | setFont | getWindProp => exact (accompanies_ask _).bind fun _ _ => accompanies_store _ _
  | getCursor => exact (accompanies_ask _).bind fun (line, column) _ => accompanies_writePair _ _ _
  | checkUnicode => exact (accompanies_unicodeSupport _).bind fun _ _ => accompanies_store _ _
  | pictureData =>
      refine (accompanies_ask _).bind fun picture _ => ?_
      cases picture with
      | some size =>
          exact (accompanies_writePair _ _ _).bind fun _ _ => accompanies_branch hfits true
      | none => exact accompanies_branch hfits false

end

end StoryMachine.CheckedPlay
