import StoryMachine.Proofs.InstructionLayout

/-!
# Decoding and encoding

`Instruction.encode` writes an instruction as the bytes it takes up to its text, and
what is decoded from them is the instruction again (`decode_of_holds`).  They are the
bytes that were there, unless a type stood behind the first omitted one: every other
byte of an instruction is needed to tell it from others.

The bytes fall into three parts: the opening, the type bytes, and the body with the
operands, the store variable and the branch data.  The first and the last are always
written as they stood.
-/

namespace StoryMachine

namespace Memory

/-- The bytes that stand somewhere, looked up one by one. -/
theorem Holds.map_range {memory : Memory} {address : Nat} {bytes : List UInt8}
    (h : memory.Holds address bytes) :
    ((List.range bytes.length).map fun i => memory.byteAt (address + i)) = bytes := by
  refine List.ext_getElem (by simp) fun i _ hi => ?_
  rw [List.getElem_map, List.getElem_range]
  exact (h.byteAt_eq hi).2

end Memory

namespace Instruction

open OperandKind

/-- The bytes after the types. -/
def body (instruction : Instruction) : List UInt8 :=
  instruction.operands.flatMap Operand.encode ++ instruction.store.toList
    ++ branchBytes instruction.branch

/-- An instruction is encoded as its head and its body. -/
theorem encode_eq (instruction : Instruction) :
    instruction.encode = instruction.encodeHead ++ instruction.body := by
  simp only [encode, body, branchBytes, List.append_assoc]

/-! ## Opcode bytes -/

/-- The opcode byte of the long form is made of the number and the two operand types. -/
theorem long_byte (b : UInt8) :
    b < 0x80 → (b &&& 0x1f) ||| (if b &&& 0x40 ≠ 0 then 0x40 else 0)
      ||| (if b &&& 0x20 ≠ 0 then 0x20 else 0) = b := by
  revert b
  exact forall_byte (by decide +kernel)

/-- The opcode byte of the short form with an operand is made of its type and the number. -/
theorem one_byte (kind : OperandKind) (b : UInt8) :
    ¬ b < 0x80 → b < 0xc0 → ofBits? (b >>> 4) = some kind →
      (0x80 : UInt8) ||| (kind.bits <<< 4) ||| (b &&& 0x0f) = b := by
  revert b
  cases kind <;> exact forall_byte (by decide +kernel)

/-- The opcode byte of the short form without an operand is made of the number. -/
theorem none_byte (b : UInt8) :
    ¬ b < 0x80 → b < 0xc0 → ofBits? (b >>> 4) = none → 0xb0 ||| (b &&& 0x0f) = b := by
  revert b
  exact forall_byte (by decide +kernel)

/-- The opcode byte of the variable form with two operands is made of the number. -/
theorem two_byte (b : UInt8) : ¬ b < 0xc0 → b < 0xe0 → 0xc0 ||| (b &&& 0x1f) = b := by
  revert b
  exact forall_byte (by decide +kernel)

/-- The opcode byte of the variable form is made of the number. -/
theorem any_byte (b : UInt8) : ¬ b < 0xe0 → 0xe0 ||| (b &&& 0x1f) = b := by
  revert b
  exact forall_byte (by decide +kernel)

/-- An opening is written as it stood, and the types after it as type bytes. -/
theorem encodeHead_eq {version pc types : Nat} {head : Head} {opening : List UInt8}
    {instruction : Instruction} (hopening : Opening version pc head opening types)
    (hstarts : instruction.Starts pc head)
    (hkinds : instruction.operands.map Operand.kind = head.kinds) :
    instruction.encodeHead = opening ++ kindBytes head.kinds types := by
  unfold encodeHead
  rw [hstarts.form_eq, hstarts.count_eq, hstarts.number_eq, hkinds]
  cases hopening with
  | @long byte hbyte =>
      have hfirst : (if (if byte &&& 0x40 ≠ 0 then var else small) = var then (0x40 : UInt8) else 0)
          = if byte &&& 0x40 ≠ 0 then 0x40 else 0 := by split <;> rfl
      have hsecond : (if (if byte &&& 0x20 ≠ 0 then var else small) = var then (0x20 : UInt8) else 0)
          = if byte &&& 0x20 ≠ 0 then 0x20 else 0 := by split <;> rfl
      simp only [List.getElem?_cons_zero, List.getElem?_cons_succ, Option.some.injEq]
      rw [hfirst, hsecond, long_byte byte hbyte]
      rfl
  | ext => rfl
  | @one byte kind hlow _ hbyte hkind => exact congrArg ([·]) (one_byte kind byte hlow hbyte hkind)
  | @none byte hlow _ hbyte hkind => exact congrArg ([·]) (none_byte byte hlow hbyte hkind)
  | @two byte kinds hlow hbyte =>
      exact congrArg ([·, typeByte kinds]) (two_byte byte hlow hbyte)
  | @any byte kinds hlow =>
      simp only [reduceCtorEq, if_false]
      rw [any_byte byte hlow]
      by_cases htwo : typeBytes (byte &&& 0x1f) = 2
      · rw [if_pos htwo, htwo]
        rfl
      · have hone : typeBytes (byte &&& 0x1f) = 1 := by
          unfold typeBytes at htwo ⊢
          exact if_neg fun h => htwo (if_pos h)
        rw [if_neg htwo, hone]
        rfl

/-! ## The body -/

section Body

variable {memory other : Memory} {pc afterStore afterBranch : Nat} {instruction : Instruction}
  {head : Head}

/-- The body stands after the types, up to the text if there is one. -/
theorem Parts.holds_body (h : Parts memory pc instruction head afterStore afterBranch) :
    memory.Holds head.next instruction.body ∧
      head.next + instruction.body.length = instruction.text.getD instruction.next := by
  obtain ⟨-, hoperands, hresult⟩ := Operand.decodeAll_eq_ok.mp h.operands_eq
  obtain ⟨-, hstore, hafterStore⟩ := readStore_eq_ok_iff.mp h.store_eq
  obtain ⟨hbranch, hafterBranch⟩ := holds_of_readBranch h.branch_eq
  have htext := start_of_readText h.text_eq
  constructor
  · rw [body, Memory.holds_append, Memory.holds_append, List.length_append, ← Nat.add_assoc,
      ← hresult, ← hafterStore]
    exact ⟨⟨hoperands, hstore⟩, hbranch⟩
  · rw [htext, body, List.length_append, List.length_append]
    omega

/-- Where the same head, the same body and the same bytes after it stand, all parts are the
same. -/
theorem Parts.reread (h : Parts memory pc instruction head afterStore afterBranch)
    (hversion : other.version = memory.version) (hsize : other.size = memory.size)
    (hhead : readHead other pc = .ok head) (hbody : other.Holds head.next instruction.body)
    (hrest : ∀ i, head.next + instruction.body.length ≤ i → other.byteAt i = memory.byteAt i) :
    Parts other pc instruction head afterStore afterBranch := by
  obtain ⟨hkinds, -, hresult⟩ := Operand.decodeAll_eq_ok.mp h.operands_eq
  obtain ⟨hstores, -, hafterStore⟩ := readStore_eq_ok_iff.mp h.store_eq
  obtain ⟨-, hafterBranch⟩ := holds_of_readBranch h.branch_eq
  rw [body, Memory.holds_append, Memory.holds_append, List.length_append, ← Nat.add_assoc,
    ← hresult, ← hafterStore] at hbody
  obtain ⟨⟨hoperands, hstore⟩, hbranch⟩ := hbody
  have hend : head.next + instruction.body.length = afterBranch := by
    rw [h.holds_body.2, start_of_readText h.text_eq]
  rw [hend] at hrest
  exact
    { head_eq := hhead
      opcode_eq := hversion ▸ h.opcode_eq
      operands_eq := Operand.decodeAll_eq_ok.mpr ⟨hkinds, hoperands, hresult⟩
      store_eq := readStore_eq_ok_iff.mpr ⟨hversion ▸ hstores, hstore, hafterStore⟩
      branch_eq := readBranch_of_holds (hversion ▸ h.branch_eq) hsize hbranch
      text_eq := (readText_congr hsize hrest).trans h.text_eq }

end Body

/-! ## The round trip -/

/-- What an instruction in memory consists of: an opening, types that are read from bytes after
it unless the opening tells them, and the body. -/
structure Layout (memory : Memory) (pc : Nat) (instruction : Instruction) (head : Head)
    (opening : List UInt8) (types : Nat) : Prop where
  opening_eq : Opening memory.version pc head opening types
  holds_opening : memory.Holds pc opening
  kinds_eq : types ≠ 0 → readKinds memory (pc + opening.length) types = .ok head.kinds
  parts : ∃ afterStore afterBranch, Parts memory pc instruction head afterStore afterBranch
  starts : instruction.Starts pc head
  encode_eq : instruction.encode = opening ++ kindBytes head.kinds types ++ instruction.body

/-- **A decoded instruction has a layout** in memory. -/
theorem layout_of_decode {memory : Memory} {pc : Nat} {instruction : Instruction}
    (h : decode memory pc = .ok instruction) :
    ∃ head opening types, Layout memory pc instruction head opening types := by
  obtain ⟨head, afterStore, afterBranch, hparts, hstarts⟩ := decode_eq_ok_iff.mp h
  obtain ⟨opening, types, hopening, hholds, hkinds⟩ := readHead_eq_ok_iff.mp hparts.head_eq
  have hoperands := (Operand.decodeAll_eq_ok.mp hparts.operands_eq).1
  refine ⟨head, opening, types, hopening, hholds, hkinds, ⟨_, _, hparts⟩, hstarts, ?_⟩
  rw [encode_eq, encodeHead_eq hopening hstarts hoperands]

section Layout

variable {memory other : Memory} {pc types : Nat} {instruction : Instruction} {head : Head}
  {opening : List UInt8}

/-- The encoded head ends where the decoded one does. -/
theorem Layout.length_encode (h : Layout memory pc instruction head opening types) :
    pc + instruction.encode.length = head.next + instruction.body.length := by
  rw [h.encode_eq, h.opening_eq.next_eq, List.length_append, List.length_append, length_kindBytes]
  omega

/-- Memory holds an encoded instruction if it holds opening, types and body. -/
theorem Layout.holds_encode_iff (h : Layout memory pc instruction head opening types) :
    other.Holds pc instruction.encode ↔
      other.Holds pc opening ∧ other.Holds (pc + opening.length) (kindBytes head.kinds types) ∧
        other.Holds head.next instruction.body := by
  rw [h.encode_eq, Memory.holds_append, Memory.holds_append, List.length_append, length_kindBytes,
    ← Nat.add_assoc, ← h.opening_eq.next_eq, and_assoc]

/-- Types are read again from the bytes they are written as. -/
theorem Layout.reread_kinds (h : Layout memory pc instruction head opening types)
    (hother : other.Holds (pc + opening.length) (kindBytes head.kinds types)) (hne : types ≠ 0) :
    readKinds other (pc + opening.length) types = .ok head.kinds := by
  obtain ⟨bytes, hlength, -, hkinds⟩ := readKinds_eq_ok.mp (h.kinds_eq hne)
  refine readKinds_eq_ok.mpr ⟨_, length_kindBytes _ _, hother, ?_⟩
  rw [← hkinds, ← hlength]
  exact leading_kindBytes bytes

end Layout

/-- Any memory in which an instruction is written as it is encoded, with the same bytes after
it, has it at that address. -/
theorem decode_of_holds {memory other : Memory} {pc : Nat} {instruction : Instruction}
    (h : decode memory pc = .ok instruction) (hversion : other.version = memory.version)
    (hsize : other.size = memory.size) (hother : other.Holds pc instruction.encode)
    (hrest : ∀ i, pc + instruction.encode.length ≤ i → other.byteAt i = memory.byteAt i) :
    decode other pc = .ok instruction := by
  obtain ⟨head, opening, types, hlayout⟩ := layout_of_decode h
  obtain ⟨hopening, hkinds, hbody⟩ := hlayout.holds_encode_iff.mp hother
  obtain ⟨afterStore, afterBranch, hparts⟩ := hlayout.parts
  have hhead : readHead other pc = .ok head :=
    readHead_eq_ok_iff.mpr ⟨opening, types, hversion ▸ hlayout.opening_eq, hopening,
      hlayout.reread_kinds hkinds⟩
  rw [hlayout.length_encode] at hrest
  exact decode_eq_ok_iff.mpr ⟨head, afterStore, afterBranch,
    hparts.reread hversion hsize hhead hbody hrest, hlayout.starts⟩

/-- How many type bytes an instruction has. -/
def typeCount (instruction : Instruction) : Nat :=
  match instruction.form with
  | .long | .short => 0
  | .ext => 1
  | .var => if instruction.count = .op2 then 1 else typeBytes instruction.number

/-- Where they stand: after the opcode, which takes two bytes in the extended form. -/
def typePlace (instruction : Instruction) : Nat :=
  if instruction.form = .ext then instruction.address + 2 else instruction.address + 1

/-- The slots of the type bytes of an instruction. -/
def typeSlots (instruction : Instruction) (memory : Memory) : List (Option OperandKind) :=
  ((List.range instruction.typeCount).map fun i =>
    memory.byteAt (instruction.typePlace + i)).flatMap slots

/-- The type bytes of an instruction stand behind its opening. -/
theorem Layout.typeCount_eq {memory : Memory} {pc types : Nat} {instruction : Instruction}
    {head : Head} {opening : List UInt8}
    (h : Layout memory pc instruction head opening types) :
    instruction.typeCount = types ∧ (types ≠ 0 → instruction.typePlace = pc + opening.length) := by
  unfold typeCount typePlace
  rw [h.starts.form_eq, h.starts.count_eq, h.starts.number_eq, h.starts.address_eq]
  cases h.opening_eq with
  | long | one | none => exact ⟨rfl, fun hne => absurd rfl hne⟩
  | ext | two | any => exact ⟨rfl, fun _ => rfl⟩

/-- An instruction is encoded as it stood exactly if its type bytes are tidy. -/
theorem Layout.holds_encode_iff_tidy {memory : Memory} {pc types : Nat}
    {instruction : Instruction} {head : Head} {opening : List UInt8}
    (h : Layout memory pc instruction head opening types) :
    memory.Holds pc instruction.encode ↔ Tidy (instruction.typeSlots memory) := by
  obtain ⟨afterStore, afterBranch, hparts⟩ := h.parts
  have hsplit : memory.Holds pc instruction.encode ↔
      memory.Holds (pc + opening.length) (kindBytes head.kinds types) := by
    rw [h.holds_encode_iff]
    exact ⟨fun hall => hall.2.1, fun hkinds => ⟨h.holds_opening, hkinds, hparts.holds_body.1⟩⟩
  obtain ⟨hcount, hplace⟩ := h.typeCount_eq
  rw [hsplit, typeSlots, hcount]
  by_cases hzero : types = 0
  · subst hzero
    exact iff_of_true trivial fun slot hslot => nomatch hslot
  · obtain ⟨bytes, rfl, hholds, hkinds⟩ := readKinds_eq_ok.mp (h.kinds_eq hzero)
    rw [hplace hzero, hholds.map_range, ← kindBytes_leading_iff, hkinds]
    constructor
    · intro hwritten
      exact hwritten.unique hholds (length_kindBytes _ _)
    · intro heq
      rw [heq]
      exact hholds

/-- **Decoding and encoding are inverse to each other.**  An instruction that was decoded is
encoded as the bytes up to its text; written over the bytes it was decoded from, they are
decoded as the same instruction; and they are those bytes exactly if no type stood behind the
first omitted one. -/
theorem encode_round_trip {memory : Memory} {pc : Nat} {instruction : Instruction}
    (h : decode memory pc = .ok instruction) :
    pc + instruction.encode.length = instruction.text.getD instruction.next ∧
      decode (memory.overwrite pc instruction.encode) pc = .ok instruction ∧
      (memory.Holds pc instruction.encode ↔ Tidy (instruction.typeSlots memory)) := by
  obtain ⟨head, opening, types, hlayout⟩ := layout_of_decode h
  obtain ⟨afterStore, afterBranch, hparts⟩ := hlayout.parts
  obtain ⟨hbody, hend⟩ := hparts.holds_body
  have hfits : pc + instruction.encode.length ≤ memory.size := by
    rw [hlayout.length_encode]
    exact hbody.end_le (readHead_eq_ok hparts.head_eq).1
  refine ⟨hlayout.length_encode.trans hend, ?_, hlayout.holds_encode_iff_tidy⟩
  exact decode_of_holds h Memory.version_overwrite Memory.size_overwrite
    (Memory.holds_overwrite hfits) fun i hi => Memory.byteAt_overwrite_of_le hi

/-- A version 5 story with a call of up to seven arguments.  Its type bytes name two operands,
and more after an omitted one. -/
def untidy : Memory :=
  ((Memory.ofImage ([5] ++ List.replicate 13 0 ++ [0, 64] ++ List.replicate 48 0
    ++ [0xec, 0x4d, 0x55, 5, 0x12, 0x34, 0] : List UInt8).toArray).toOption).get rfl

/-- The call of routine 5 with the argument 0x1234, the result of which is pushed. -/
def untidyCall : Instruction :=
  { address := 64, form := .var, count := .var, number := 12, opcode := .callVs2,
    operands := [.small 5, .large 0x1234], store := some 0, branch := none, text := none,
    result := 70, next := 71 }

/-- The types behind the omitted one are not written again, and nothing else is lost. -/
theorem encode_round_trip_untidy :
    decode untidy 64 = .ok untidyCall ∧
      untidyCall.encode = [0xec, 0x4f, 0xff, 5, 0x12, 0x34, 0] ∧
      ¬ untidy.Holds 64 untidyCall.encode ∧
      decode (untidy.overwrite 64 untidyCall.encode) 64 = .ok untidyCall := by
  have hdecode : decode untidy 64 = .ok untidyCall := by rfl
  obtain ⟨-, hagain, htidy⟩ := encode_round_trip hdecode
  exact ⟨hdecode, by decide, htidy.not.mpr (by decide +kernel), hagain⟩

end Instruction

end StoryMachine
