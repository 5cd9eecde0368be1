import StoryMachine.Machine.Reading
import StoryMachine.Machine.Saving
import StoryMachine.Machine.Tables

/-!
# What the instructions do

`dispatch` takes the values of an instruction's operands from left to right and
does what its opcode asks for.  An operand that is not given reads as zero.  Each
opcode that stores delivers exactly one result, and each that branches makes
exactly one test.
-/

namespace StoryMachine.Play

variable {m : Type → Type} [Monad m]

/-- The value of the operand at a place, zero if it is not given. -/
def operandAt (operands : List Word) (place : Nat) : Word :=
  operands.getD place 0

/-- Adds to the variable that an operand names.  Gives its new value. -/
def addToNamed (number amount : Word) : Play m Word := do
  let value := (← readNamed number.toUInt8) + amount
  writeNamed number.toUInt8 value
  return value

/-- A link of an object, zero for object zero. -/
def linkOf (object : Word) (opcode : Opcode) (link : Link) : Play m Word := do
  if ← isObject object opcode then
    let objects := (← get).objects
    look (objects.link · object link)
  else return 0

/-- Whether an object is a child of another. -/
def isInside (object parent : Word) : Play m Bool := do
  if ← isObject object .jin then
    let objects := (← get).objects
    return (← look (objects.link · object .parent)) == parent
  else return false

/-- Whether an object has an attribute. -/
def hasAttribute (object number : Word) : Play m Bool := do
  if ← isObject object .testAttr then
    let objects := (← get).objects
    look (objects.testAttribute · object number)
  else return false

/-- The address of the data of a property. -/
def propertyAddress (object number : Word) : Play m Word := do
  if ← isObject object .getPropAddr then
    let objects := (← get).objects
    look (objects.propertyAddress · object number)
  else return 0

/-- The value of a property, with a warning if it is longer than a word. -/
def propertyValue (object number : Word) : Play m Word := do
  if ← isObject object .getProp then
    let objects := (← get).objects
    let (value, length) ← look (objects.getProperty · object number)
    if 2 < length then
      warn s!"get_prop on {length} byte property {number} of object {object}"
    return value
  else return 0

/-- The property after a given one, with a warning if there is no such one. -/
def propertyAfter (object number : Word) : Play m Word := do
  if ← isObject object .getNextProp then
    let objects := (← get).objects
    match ← look (objects.nextProperty · object number) with
    | some next => return next
    | none =>
      warn s!"object {object} has no property {number}"
      return 0
  else return 0

/-- Starts or stops the transcript if the story has changed its flag. -/
def syncTranscript : Play m Unit := do
  let on := (← view (·.headerWord .flags2)) &&& 1 != 0
  if on != (← get).streams.transcriptOn then
    warnIf (← onStreams (Streams.select (if on then 2 else -2) none none))

/-- Warns about a write into the header, except to the second flags. -/
def checkWrite (address : Nat) : Play m Unit := do
  if address < 0x40 ∧ address ≠ 0x10 ∧ address ≠ 0x11 then
    warn s!"write to header byte {Numeral.marked 2 address}"

/-- Writes a word for the story. -/
def storeWord (address : Nat) (value : Word) : Play m Unit := do
  checkWrite address
  edit (Edit.writeWord address value)
  if address = 0x10 then syncTranscript

/-- Writes a byte for the story. -/
def storeByte (address : Nat) (value : UInt8) : Play m Unit := do
  checkWrite address
  edit (Edit.writeByte address value)
  if address = 0x11 then syncTranscript

/-- A random number up to a positive range; zero or less seeds the generator. -/
def nextRandom (range : Word) : Play m Word := do
  if 0 < range.signed then
    let (value, random) := (← get).random.below range
    modify fun machine => { machine with random }
    return value
  else
    let seed ← if range = 0 then ask (·.entropy) else pure (UInt32.ofNat range.signed.natAbs)
    modify fun machine => { machine with random := .ofSeed seed }
    return 0

/-- Packs part of a text as a dictionary key. -/
def encodeText (text length start destination : Word) : Play m Unit := do
  let bytes ← look (·.slice (text.toNat + start.toNat) length.toNat)
  let key := (← get).codec.encodeKey (bytes.map (·.toUInt16))
  edit (Edit.writeBytes destination.toNat key)

/-- Writes two words one after the other. -/
def writePair (address : Word) (first second : Word) : Play m Unit :=
  edit do
    Edit.writeWord address.toNat first
    Edit.writeWord (address.toNat + 2) second

/-- Enters the routine that the first operand names, with the others. -/
def callWith (operands : List Word) (target : Option UInt8) : Play m Unit :=
  match operands with
  | routine :: arguments => call routine arguments target
  | [] => throw { kind := .badOperands, detail := "CALL WITHOUT A ROUTINE" }

/-- Takes a word from the stack, in version 6 from a stack in memory if one is
named. -/
def pull (instruction : Instruction) (operands : List Word) : Play m Unit := do
  if (← view (·.version)) = 6 then
    let value ← match operands with
      | [] => onStack CallStack.pop
      | stack :: _ => edit (Table.pullFrom stack.toNat)
    store instruction value
  else
    let value ← onStack CallStack.pop
    writeNamed (operandAt operands 0).toUInt8 value

/-- Drops words from the stack, or from a stack in memory if one is named. -/
def popStack (operands : List Word) : Play m Unit := do
  match operands with
  | count :: stack :: _ =>
    edit do
      let free ← Edit.look (·.readWord stack.toNat)
      Edit.writeWord stack.toNat (free + count)
  | _ => onStack (CallStack.popMany (operandAt operands 0).toNat)

/-- Selects an output stream; only version 6 gives a width. -/
def selectOutput (operands : List Word) : Play m Unit := do
  let version ← view (·.version)
  let width := if version = 6 then operands[2]?.map Word.signed else none
  warnIf (← onStreams (Streams.select (operandAt operands 0).signed operands[1]? width))

/-- The code that prints a Unicode character. -/
def unicodeCode (machine : Machine) (number : Word) : Word :=
  ((charOf? number.toNat).bind machine.codec.unicode.ofChar?).getD questionMark

/-- What the host can do with a Unicode character. -/
def unicodeSupport (number : Word) : Play m Word :=
  match charOf? number.toNat with
  | some c => ask (·.checkUnicode c)
  | none => pure 0

/-- Does what an instruction asks for, given the values of its operands. -/
def perform (instruction : Instruction) (operands : List Word) : Play m Unit := do
  let a := operandAt operands 0
  let b := operandAt operands 1
  let c := operandAt operands 2
  let d := operandAt operands 3
  let objects := (← get).objects
  match instruction.opcode with
  -- tests and arithmetic
  | .je => branch instruction ((operands.drop 1).contains a)
  | .jl => branch instruction (a.less b)
  | .jg => branch instruction (a.greater b)
  | .jz => branch instruction (a == 0)
  | .test => branch instruction (a &&& b == b)
  | .or => store instruction (a ||| b)
  | .and => store instruction (a &&& b)
  | .not => store instruction (~~~a)
  | .add => store instruction (a + b)
  | .sub => store instruction (a - b)
  | .mul => store instruction (a * b)
  | .div => store instruction (← MonadExcept.ofExcept (a.divide b))
  | .mod => store instruction (← MonadExcept.ofExcept (a.modulo b))
  | .logShift => store instruction (a.logicalShift b)
  | .artShift => store instruction (a.arithmeticShift b)
  | .random => store instruction (← nextRandom a)
  -- variables and the stack
  | .store => writeNamed a.toUInt8 b
  | .load => store instruction (← readNamed a.toUInt8)
  | .inc => let _ ← addToNamed a 1
  | .dec => let _ ← addToNamed a 0xffff
  | .incChk => branch instruction ((← addToNamed a 1).greater b)
  | .decChk => branch instruction ((← addToNamed a 0xffff).less b)
  | .push => onStack (CallStack.push a)
  | .pull => pull instruction operands
  | .pop => let _ ← onStack CallStack.pop
  | .popStack => popStack operands
  | .pushStack => branch instruction (← edit (Table.pushOnto b.toNat a))
  -- calls and jumps
  | .call1s | .call2s | .callVs | .callVs2 => callWith operands instruction.store
  | .call1n | .call2n | .callVn | .callVn2 => callWith operands none
  | .ret => ret a
  | .rtrue => ret 1
  | .rfalse => ret 0
  | .retPopped => ret (← onStack CallStack.pop)
  | .catchFrame => store instruction (← get).stack.depth.toUInt16
  | .throwFrame => do
    onStack (CallStack.unwind b.toNat)
    ret a
  | .jump => setPc (wrapAddress (instruction.next + a.signed - 2))
  | .checkArgCount => branch instruction (a.toNat ≤ (← get).stack.current.arguments)
  | .nop => pure ()
  | .piracy => branch instruction true
  | .verify =>
    branch instruction (← view fun memory => memory.story.checksum == memory.headerWord .checksum)
  | .quit => modify fun machine => { machine with halted := some .quit }
  -- objects
  | .jin => branch instruction (← isInside a b)
  | .testAttr => branch instruction (← hasAttribute a b)
  | .setAttr => if ← isObject a .setAttr then edit (objects.setAttribute a b true)
  | .clearAttr => if ← isObject a .clearAttr then edit (objects.setAttribute a b false)
  | .insertObj =>
    if ← isObject a .insertObj then
      if ← isObject b .insertObj then edit (objects.insert a b)
  | .removeObj => if ← isObject a .removeObj then edit (objects.remove a)
  | .getSibling => do
    let value ← linkOf a .getSibling .sibling
    store instruction value
    branch instruction (value != 0)
  | .getChild => do
    let value ← linkOf a .getChild .child
    store instruction value
    branch instruction (value != 0)
  | .getParent => store instruction (← linkOf a .getParent .parent)
  | .getProp => store instruction (← propertyValue a b)
  | .getPropAddr => store instruction (← propertyAddress a b)
  | .getNextProp => store instruction (← propertyAfter a b)
  | .getPropLen => store instruction (← look (objects.propertyLength · a.toNat))
  | .putProp =>
    if ← isObject a .putProp then
      if !(← edit (objects.putProperty a b c)) then
        warn s!"put_prop on missing property {b} of object {a}"
  -- memory
  | .loadw => store instruction (← look (·.readWord (a + b * 2).toNat))
  | .loadb => store instruction (← look (·.readByte (a + b).toNat)).toUInt16
  | .storew => storeWord (a + b * 2).toNat c
  | .storeb => storeByte (a + b).toNat c.toUInt8
  | .scanTable => do
    let found ← scanTable a b c (if operands.length ≤ 3 then 0x82 else d)
    store instruction found
    branch instruction (found != 0)
  | .copyTable => edit (Table.copy a b c)
  -- text
  | .print => if let some address := instruction.text then printAt address
  | .printRet => do
    if let some address := instruction.text then printAt address
    printCodes [13]
    ret 1
  | .printAddr => printAt a.toNat
  | .printPaddr => printAt (← view (·.story.stringAddress a))
  | .printObj =>
    if ← isObject a .printObj then
      if !(← look (objects.nameIsEmpty · a)) then printAt (← look (objects.name · a))
  | .printChar => printCodes [a]
  | .printNum => printText (toString a.signed)
  | .printUnicode => printCodes [unicodeCode (← get) a]
  | .newLine => printCodes [13]
  | .printTable => printTable a b (if operands.length ≤ 2 then 1 else c) d
  | .printForm => printForm a
  | .encodeText => encodeText a b c d
  | .tokenise => do
    let dictionary ← if c = 0 then view (·.headerWord .dictionary) else pure c
    tokenise a.toNat b.toNat dictionary.toNat (d != 0)
  -- input
  | .read =>
    lineRead { text := a.toNat, parse := b.toNat, time := c, routine := d,
               store := instruction.store, typed := "" }
  | .readChar => do
    if !operands.isEmpty && a != 1 then warn s!"read_char from device {a}"
    charRead { time := b, routine := c, store := instruction.store }
  | .inputStream => warnIf (← onStreams (Streams.selectInput a))
  | .readMouse => do
    let (x, y) ← ask (·.getMouse)
    writePair a y x
    edit do
      Edit.writeWord (a.toNat + 4) 0
      Edit.writeWord (a.toNat + 6) 0
  | .makeMenu => branch instruction false
  -- saving
  | .save =>
    if 2 ≤ operands.length then store instruction (← saveAuxiliary a b) else saveGame instruction
  | .restore =>
    if 2 ≤ operands.length then store instruction (← restoreAuxiliary a b)
    else restoreGame instruction
  | .restart => restart
  | .saveUndo => saveUndo instruction
  | .restoreUndo => restoreUndo instruction
  -- the screen
  | .showStatus => showStatus
  | .outputStream => selectOutput operands
  | .bufferMode => ask (·.setBuffering (a != 0))
  | .bufferScreen => store instruction 0
  | .setTextStyle => ask (·.setStyle a)
  | .setColour => ask (·.setColour a b c)
  | .setTrueColour => ask (·.setTrueColour a b c)
  | .setFont => store instruction (← ask (·.setFont a))
  | .setCursor => ask (·.setCursor a.signed b c)
  | .getCursor => do
    let (line, column) ← ask (·.getCursor)
    writePair a line column
  | .eraseWindow => ask (·.eraseWindow a.signed)
  | .eraseLine => ask (·.eraseLine a)
  | .splitWindow => ask (·.splitWindow a)
  | .setWindow => ask (·.setWindow a)
  | .setMargins => ask (·.setMargins a b c)
  | .moveWindow => ask (·.moveWindow a b c)
  | .windowSize => ask (·.windowSize a b c)
  | .windowStyle => ask (·.windowStyle a b c)
  | .getWindProp => store instruction (← ask (·.windowProperty a b))
  | .putWindProp => ask (·.setWindowProperty a b c)
  | .scrollWindow => ask (·.scrollWindow a b.signed)
  | .mouseWindow => ask (·.mouseWindow a)
  | .checkUnicode => store instruction (← unicodeSupport a)
  -- pictures and sounds
  | .drawPicture => ask (·.drawPicture a b c)
  | .erasePicture => ask (·.erasePicture a b c)
  | .pictureData => do
    match ← ask (·.pictureData a) with
    | some (height, width) =>
      writePair b height width
      branch instruction true
    | none => branch instruction false
  | .pictureTable => pure ()
  | .soundEffect => ask (·.soundEffect a b c)

/-- Does what an instruction asks for.  The two operand class needs two of them. -/
def dispatch (instruction : Instruction) : Play m Unit := do
  let operands ← operandValues instruction.operands
  if instruction.count = .op2 ∧ operands.length < 2 then
    throw { kind := .badOperands,
            detail := s!"{instruction.opcode.title} WITH {operands.length} OPERANDS" }
  else perform instruction operands

end StoryMachine.Play
