/-!
# The instruction set

Every opcode of versions 3 to 8.  A number means an opcode only together with
the class of the instruction (how many operands it is meant to have) and the
version of the story, because some numbers changed their meaning.  Three facts
about an opcode shape the bytes that follow its operands: whether a store
variable follows, whether branch data follows, and whether text follows.
-/

namespace StoryMachine

/-- The class of an instruction, which selects its opcode table. -/
inductive OperandCount where
  | op0
  | op1
  | op2
  | var
  | ext
  deriving DecidableEq

/-- The name of a class in fault texts. -/
def OperandCount.name : OperandCount → String
  | op0 => "Op0"
  | op1 => "Op1"
  | op2 => "Op2"
  | var => "Var"
  | ext => "Ext"

/-- What an instruction does. -/
inductive Opcode where
  -- two operands
  | je | jl | jg | decChk | incChk | jin | test | or | and | testAttr | setAttr | clearAttr
  | store | insertObj | loadw | loadb | getProp | getPropAddr | getNextProp | add | sub | mul
  | div | mod | call2s | call2n | setColour | throwFrame
  -- one operand
  | jz | getSibling | getChild | getParent | getPropLen | inc | dec | printAddr | call1s
  | removeObj | printObj | ret | jump | printPaddr | load | not | call1n
  -- no operands
  | rtrue | rfalse | print | printRet | nop | save | restore | restart | retPopped | pop
  | catchFrame | quit | newLine | showStatus | verify | piracy
  -- any number of operands
  | callVs | storew | storeb | putProp | read | printChar | printNum | random | push | pull
  | splitWindow | setWindow | callVs2 | eraseWindow | eraseLine | setCursor | getCursor
  | setTextStyle | bufferMode | outputStream | inputStream | soundEffect | readChar | scanTable
  | callVn | callVn2 | tokenise | encodeText | copyTable | printTable | checkArgCount
  -- the extended table
  | logShift | artShift | setFont | drawPicture | pictureData | erasePicture | setMargins
  | saveUndo | restoreUndo | printUnicode | checkUnicode | setTrueColour | moveWindow
  | windowSize | windowStyle | getWindProp | scrollWindow | popStack | readMouse | mouseWindow
  | pushStack | putWindProp | printForm | makeMenu | pictureTable | bufferScreen
  deriving DecidableEq

namespace Opcode

/-- The opcodes that take two operands. -/
def twoOperand? (version : Nat) : Nat → Option Opcode
  | 1 => some .je
  | 2 => some .jl
  | 3 => some .jg
  | 4 => some .decChk
  | 5 => some .incChk
  | 6 => some .jin
  | 7 => some .test
  | 8 => some .or
  | 9 => some .and
  | 10 => some .testAttr
  | 11 => some .setAttr
  | 12 => some .clearAttr
  | 13 => some .store
  | 14 => some .insertObj
  | 15 => some .loadw
  | 16 => some .loadb
  | 17 => some .getProp
  | 18 => some .getPropAddr
  | 19 => some .getNextProp
  | 20 => some .add
  | 21 => some .sub
  | 22 => some .mul
  | 23 => some .div
  | 24 => some .mod
  | 25 => if 4 ≤ version then some .call2s else none
  | 26 => if 5 ≤ version then some .call2n else none
  | 27 => if 5 ≤ version then some .setColour else none
  | 28 => if 5 ≤ version then some .throwFrame else none
  | _ => none

/-- The opcodes that take one operand. -/
def oneOperand? (version : Nat) : Nat → Option Opcode
  | 0 => some .jz
  | 1 => some .getSibling
  | 2 => some .getChild
  | 3 => some .getParent
  | 4 => some .getPropLen
  | 5 => some .inc
  | 6 => some .dec
  | 7 => some .printAddr
  | 8 => if 4 ≤ version then some .call1s else none
  | 9 => some .removeObj
  | 10 => some .printObj
  | 11 => some .ret
  | 12 => some .jump
  | 13 => some .printPaddr
  | 14 => some .load
  | 15 => if version ≤ 4 then some .not else some .call1n
  | _ => none

/-- The opcodes that take no operands. -/
def noOperand? (version : Nat) : Nat → Option Opcode
  | 0 => some .rtrue
  | 1 => some .rfalse
  | 2 => some .print
  | 3 => some .printRet
  | 4 => some .nop
  | 5 => if version ≤ 4 then some .save else none
  | 6 => if version ≤ 4 then some .restore else none
  | 7 => some .restart
  | 8 => some .retPopped
  | 9 => if version ≤ 4 then some .pop else some .catchFrame
  | 10 => some .quit
  | 11 => some .newLine
  | 12 => some .showStatus
  | 13 => some .verify
  | 15 => if 5 ≤ version then some .piracy else none
  | _ => none

/-- The opcodes that take any number of operands. -/
def anyOperand? (version : Nat) : Nat → Option Opcode
  | 0 => some .callVs
  | 1 => some .storew
  | 2 => some .storeb
  | 3 => some .putProp
  | 4 => some .read
  | 5 => some .printChar
  | 6 => some .printNum
  | 7 => some .random
  | 8 => some .push
  | 9 => some .pull
  | 10 => some .splitWindow
  | 11 => some .setWindow
  | 12 => if 4 ≤ version then some .callVs2 else none
  | 13 => if 4 ≤ version then some .eraseWindow else none
  | 14 => if 4 ≤ version then some .eraseLine else none
  | 15 => if 4 ≤ version then some .setCursor else none
  | 16 => if 4 ≤ version then some .getCursor else none
  | 17 => if 4 ≤ version then some .setTextStyle else none
  | 18 => if 4 ≤ version then some .bufferMode else none
  | 19 => some .outputStream
  | 20 => some .inputStream
  | 21 => some .soundEffect
  | 22 => if 4 ≤ version then some .readChar else none
  | 23 => if 4 ≤ version then some .scanTable else none
  | 24 => if 5 ≤ version then some .not else none
  | 25 => if 5 ≤ version then some .callVn else none
  | 26 => if 5 ≤ version then some .callVn2 else none
  | 27 => if 5 ≤ version then some .tokenise else none
  | 28 => if 5 ≤ version then some .encodeText else none
  | 29 => if 5 ≤ version then some .copyTable else none
  | 30 => if 5 ≤ version then some .printTable else none
  | 31 => if 5 ≤ version then some .checkArgCount else none
  | _ => none

/-- The opcodes of the extended table. -/
def extended? (version : Nat) : Nat → Option Opcode
  | 0 => some .save
  | 1 => some .restore
  | 2 => some .logShift
  | 3 => some .artShift
  | 4 => some .setFont
  | 5 => if version = 6 then some .drawPicture else none
  | 6 => if version = 6 then some .pictureData else none
  | 7 => if version = 6 then some .erasePicture else none
  | 8 => if version = 6 then some .setMargins else none
  | 9 => some .saveUndo
  | 10 => some .restoreUndo
  | 11 => some .printUnicode
  | 12 => some .checkUnicode
  | 13 => some .setTrueColour
  | 16 => if version = 6 then some .moveWindow else none
  | 17 => if version = 6 then some .windowSize else none
  | 18 => if version = 6 then some .windowStyle else none
  | 19 => if version = 6 then some .getWindProp else none
  | 20 => if version = 6 then some .scrollWindow else none
  | 21 => if version = 6 then some .popStack else none
  | 22 => if version = 6 then some .readMouse else none
  | 23 => if version = 6 then some .mouseWindow else none
  | 24 => if version = 6 then some .pushStack else none
  | 25 => if version = 6 then some .putWindProp else none
  | 26 => if version = 6 then some .printForm else none
  | 27 => if version = 6 then some .makeMenu else none
  | 28 => if version = 6 then some .pictureTable else none
  | 29 => if version = 6 then some .bufferScreen else none
  | _ => none

/-- The opcode with a given class and number in a story of a given version. -/
def decode? (count : OperandCount) (number : UInt8) (version : Nat) : Option Opcode :=
  match count with
  | .op2 => twoOperand? version number.toNat
  | .op1 => oneOperand? version number.toNat
  | .op0 => noOperand? version number.toNat
  | .var => anyOperand? version number.toNat
  | .ext => extended? version number.toNat

/-- Whether the byte of a store variable follows the operands. -/
def stores (opcode : Opcode) (version : Nat) : Bool :=
  match opcode with
  | .or | .and | .loadw | .loadb | .getProp | .getPropAddr | .getNextProp | .add | .sub | .mul
  | .div | .mod | .call2s | .getSibling | .getChild | .getParent | .getPropLen | .call1s
  | .load | .not | .catchFrame | .callVs | .random | .callVs2 | .readChar | .scanTable
  | .logShift | .artShift | .setFont | .saveUndo | .restoreUndo | .checkUnicode | .getWindProp
  | .bufferScreen => true
  | .save | .restore => 4 ≤ version
  | .read => 5 ≤ version
  | .pull => version = 6
  | _ => false

/-- Whether branch data follows the operands and the store variable. -/
def branches (opcode : Opcode) (version : Nat) : Bool :=
  match opcode with
  | .je | .jl | .jg | .decChk | .incChk | .jin | .test | .testAttr | .jz | .getSibling
  | .getChild | .verify | .piracy | .scanTable | .checkArgCount | .pictureData | .pushStack
  | .makeMenu => true
  | .save | .restore => version ≤ 3
  | _ => false

/-- Whether text follows the instruction. -/
def hasText : Opcode → Bool
  | .print | .printRet => true
  | _ => false

/-- The name of an opcode in listings. -/
def name : Opcode → String
  | .je => "je"
  | .jl => "jl"
  | .jg => "jg"
  | .decChk => "dec_chk"
  | .incChk => "inc_chk"
  | .jin => "jin"
  | .test => "test"
  | .or => "or"
  | .and => "and"
  | .testAttr => "test_attr"
  | .setAttr => "set_attr"
  | .clearAttr => "clear_attr"
  | .store => "store"
  | .insertObj => "insert_obj"
  | .loadw => "loadw"
  | .loadb => "loadb"
  | .getProp => "get_prop"
  | .getPropAddr => "get_prop_addr"
  | .getNextProp => "get_next_prop"
  | .add => "add"
  | .sub => "sub"
  | .mul => "mul"
  | .div => "div"
  | .mod => "mod"
  | .call2s => "call_2s"
  | .call2n => "call_2n"
  | .setColour => "set_colour"
  | .throwFrame => "throw"
  | .jz => "jz"
  | .getSibling => "get_sibling"
  | .getChild => "get_child"
  | .getParent => "get_parent"
  | .getPropLen => "get_prop_len"
  | .inc => "inc"
  | .dec => "dec"
  | .printAddr => "print_addr"
  | .call1s => "call_1s"
  | .removeObj => "remove_obj"
  | .printObj => "print_obj"
  | .ret => "ret"
  | .jump => "jump"
  | .printPaddr => "print_paddr"
  | .load => "load"
  | .not => "not"
  | .call1n => "call_1n"
  | .rtrue => "rtrue"
  | .rfalse => "rfalse"
  | .print => "print"
  | .printRet => "print_ret"
  | .nop => "nop"
  | .save => "save"
  | .restore => "restore"
  | .restart => "restart"
  | .retPopped => "ret_popped"
  | .pop => "pop"
  | .catchFrame => "catch"
  | .quit => "quit"
  | .newLine => "new_line"
  | .showStatus => "show_status"
  | .verify => "verify"
  | .piracy => "piracy"
  | .callVs => "call_vs"
  | .storew => "storew"
  | .storeb => "storeb"
  | .putProp => "put_prop"
  | .read => "read"
  | .printChar => "print_char"
  | .printNum => "print_num"
  | .random => "random"
  | .push => "push"
  | .pull => "pull"
  | .splitWindow => "split_window"
  | .setWindow => "set_window"
  | .callVs2 => "call_vs2"
  | .eraseWindow => "erase_window"
  | .eraseLine => "erase_line"
  | .setCursor => "set_cursor"
  | .getCursor => "get_cursor"
  | .setTextStyle => "set_text_style"
  | .bufferMode => "buffer_mode"
  | .outputStream => "output_stream"
  | .inputStream => "input_stream"
  | .soundEffect => "sound_effect"
  | .readChar => "read_char"
  | .scanTable => "scan_table"
  | .callVn => "call_vn"
  | .callVn2 => "call_vn2"
  | .tokenise => "tokenise"
  | .encodeText => "encode_text"
  | .copyTable => "copy_table"
  | .printTable => "print_table"
  | .checkArgCount => "check_arg_count"
  | .logShift => "log_shift"
  | .artShift => "art_shift"
  | .setFont => "set_font"
  | .drawPicture => "draw_picture"
  | .pictureData => "picture_data"
  | .erasePicture => "erase_picture"
  | .setMargins => "set_margins"
  | .saveUndo => "save_undo"
  | .restoreUndo => "restore_undo"
  | .printUnicode => "print_unicode"
  | .checkUnicode => "check_unicode"
  | .setTrueColour => "set_true_colour"
  | .moveWindow => "move_window"
  | .windowSize => "window_size"
  | .windowStyle => "window_style"
  | .getWindProp => "get_wind_prop"
  | .scrollWindow => "scroll_window"
  | .popStack => "pop_stack"
  | .readMouse => "read_mouse"
  | .mouseWindow => "mouse_window"
  | .pushStack => "push_stack"
  | .putWindProp => "put_wind_prop"
  | .printForm => "print_form"
  | .makeMenu => "make_menu"
  | .pictureTable => "picture_table"
  | .bufferScreen => "buffer_screen"

/-- The name of an opcode in fault texts and notices. -/
def title (opcode : Opcode) : String :=
  opcode.name.toUpper

end Opcode

end StoryMachine
