import StoryMachine.Proofs.Running

/-!
# What a decoded instruction says about memory

An instruction that can be decoded lies in memory from its first byte to its last,
so the address after it is at most the size of memory (`next_le_of_decode`).  Its
store variable is the byte at `result` and its branch data is what `Branch.decode`
reads there, which is how a snapshot, which keeps nothing but that address, can
finish it later (`stores_of_decode`, `branches_of_decode`).
-/

namespace StoryMachine

namespace Memory

/-- A byte is read inside memory, as it stands there. -/
theorem readByte_eq_ok {memory : Memory} {address : Nat} {b : UInt8} :
    memory.readByte address = .ok b ↔ address < memory.size ∧ memory.byteAt address = b := by
  unfold readByte
  split
  case isTrue h => simp [h]
  case isFalse h => simp [h]

/-- A word that is read lies in memory with both its bytes. -/
theorem lt_of_readWord {memory : Memory} {address : Nat} {word : Word}
    (h : memory.readWord address = .ok word) : address + 1 < memory.size := by
  unfold readWord at h
  split at h
  case isTrue hlt => exact hlt
  case isFalse => exact nomatch h

/-- Memories of one size that agree on a byte read it alike. -/
theorem readByte_congr {memory after : Memory} {address : Nat} (hsize : after.size = memory.size)
    (h : after.byteAt address = memory.byteAt address) :
    after.readByte address = memory.readByte address := by
  rw [readByte, readByte, outOfBounds, outOfBounds, hsize, h]

/-- Memories of one size that agree on two bytes read the word alike. -/
theorem readWord_congr {memory after : Memory} {address : Nat} (hsize : after.size = memory.size)
    (h : after.byteAt address = memory.byteAt address)
    (h' : after.byteAt (address + 1) = memory.byteAt (address + 1)) :
    after.readWord address = memory.readWord address := by
  rw [readWord, readWord, wordAt, wordAt, outOfBounds, outOfBounds, hsize, h, h']

end Memory

namespace Branch

/-- Branch data takes one byte or two, and lies in memory. -/
theorem length_of_decode {memory : Memory} {address length : Nat} {branch : Branch}
    (h : decode memory address = .ok (branch, length)) :
    1 ≤ length ∧ length ≤ 2 ∧ address + length ≤ memory.size := by
  unfold decode at h
  obtain ⟨first, hfirst, h⟩ := bind_eq_ok.mp h
  have hlt := (Memory.readByte_eq_ok.mp hfirst).1
  split at h
  case isTrue =>
      obtain ⟨rfl, rfl⟩ : _ = branch ∧ 1 = length := by simpa using Except.ok.inj h
      omega
  case isFalse =>
      obtain ⟨second, hsecond, h⟩ := bind_eq_ok.mp h
      have hlt' := (Memory.readByte_eq_ok.mp hsecond).1
      obtain ⟨rfl, rfl⟩ : _ = branch ∧ 2 = length := by simpa using Except.ok.inj h
      omega

/-- Branch data is read off its own bytes. -/
theorem decode_congr {memory other : Memory} {address length : Nat} {branch : Branch}
    (h : decode memory address = .ok (branch, length)) (hsize : other.size = memory.size)
    (hbytes : ∀ i, address ≤ i → i < address + length → other.byteAt i = memory.byteAt i) :
    decode other address = .ok (branch, length) := by
  unfold decode at h ⊢
  obtain ⟨first, hfirst, h⟩ := bind_eq_ok.mp h
  obtain ⟨hlt, hbyte⟩ := Memory.readByte_eq_ok.mp hfirst
  have hlength : 1 ≤ length := by
    split at h
    case isTrue => simp [pure, Except.pure] at h; omega
    case isFalse =>
      obtain ⟨second, hsecond, h⟩ := bind_eq_ok.mp h
      simp [pure, Except.pure] at h; omega
  have hfirst' : other.readByte address = .ok first :=
    Memory.readByte_eq_ok.mpr
      ⟨by omega, (hbytes address (Nat.le_refl _) (by omega)).trans hbyte⟩
  refine bind_eq_ok.mpr ⟨first, hfirst', ?_⟩
  split at h
  case isTrue hshort =>
      rw [if_pos hshort]
      exact h
  case isFalse hlong =>
      rw [if_neg hlong]
      obtain ⟨second, hsecond, h⟩ := bind_eq_ok.mp h
      obtain ⟨hlt', hbyte'⟩ := Memory.readByte_eq_ok.mp hsecond
      have htwo : length = 2 := by
        simp [pure, Except.pure] at h; omega
      refine bind_eq_ok.mpr ⟨second, Memory.readByte_eq_ok.mpr ⟨by omega, ?_⟩, h⟩
      exact (hbytes (address + 1) (by omega) (by omega)).trans hbyte'

end Branch

namespace Instruction

/-- The type bytes of operands lie in memory. -/
theorem lt_of_readKinds {memory : Memory} {address count : Nat} {kinds : List OperandKind}
    (h : readKinds memory address count = .ok kinds) (hcount : 0 < count) :
    address + count ≤ memory.size := by
  obtain ⟨bytes, hbytes, -⟩ := bind_eq_ok.mp h
  obtain ⟨b, hb⟩ := (mapM_eq_ok hbytes).2 (count - 1) (List.mem_range.mpr (by omega))
  have := (Memory.readByte_eq_ok.mp hb).1
  omega

/-- The part before the operands lies in memory; the extended form is there from
version 5 on. -/
theorem readHead_eq_ok {memory : Memory} {pc : Nat} {head : Head}
    (h : readHead memory pc = .ok head) :
    head.next ≤ memory.size ∧ (head.count = .ext → 5 ≤ memory.version) := by
  unfold readHead at h
  obtain ⟨byte, hbyte, h⟩ := bind_eq_ok.mp h
  have hlt := (Memory.readByte_eq_ok.mp hbyte).1
  split at h
  · obtain rfl := Except.ok.inj h
    exact ⟨hlt, nofun⟩
  split at h
  case isTrue hext =>
    obtain ⟨number, -, h⟩ := bind_eq_ok.mp h
    obtain ⟨kinds, hkinds, h⟩ := bind_eq_ok.mp h
    have hle := lt_of_readKinds hkinds (by decide)
    obtain rfl := Except.ok.inj h
    exact ⟨hle, fun _ => hext.2⟩
  split at h
  · split at h
    · obtain rfl := Except.ok.inj h
      exact ⟨hlt, nofun⟩
    · obtain rfl := Except.ok.inj h
      exact ⟨hlt, nofun⟩
  split at h
  · obtain ⟨kinds, hkinds, h⟩ := bind_eq_ok.mp h
    have hle := lt_of_readKinds hkinds (by decide)
    obtain rfl := Except.ok.inj h
    exact ⟨hle, nofun⟩
  · obtain ⟨kinds, hkinds, h⟩ := bind_eq_ok.mp h
    have hcount : 0 < typeBytes (byte &&& 0x1f) := by
      unfold typeBytes
      split <;> decide
    obtain rfl := Except.ok.inj h
    exact ⟨lt_of_readKinds hkinds hcount, nofun⟩

/-- The class without operands has none. -/
theorem kinds_of_op0 {memory : Memory} {pc : Nat} {head : Head}
    (h : readHead memory pc = .ok head) (hcount : head.count = .op0) : head.kinds = [] := by
  unfold readHead at h
  obtain ⟨byte, -, h⟩ := bind_eq_ok.mp h
  split at h
  · obtain rfl := Except.ok.inj h
    cases hcount
  split at h
  · obtain ⟨number, -, h⟩ := bind_eq_ok.mp h
    obtain ⟨kinds, -, h⟩ := bind_eq_ok.mp h
    obtain rfl := Except.ok.inj h
    cases hcount
  split at h
  · split at h
    · obtain rfl := Except.ok.inj h
      cases hcount
    · obtain rfl := Except.ok.inj h
      rfl
  split at h <;>
  · obtain ⟨kinds, -, h⟩ := bind_eq_ok.mp h
    obtain rfl := Except.ok.inj h
    cases hcount

/-- An operand ends in memory. -/
theorem le_of_operand {memory : Memory} {address : Nat} {kind : OperandKind}
    {read : Operand × Nat} (h : Operand.decode memory address kind = .ok read) :
    read.2 ≤ memory.size := by
  cases kind with
  | large =>
      obtain ⟨word, hword, h⟩ := bind_eq_ok.mp h
      obtain rfl := Except.ok.inj h
      exact Memory.lt_of_readWord hword
  | small | var =>
      obtain ⟨b, hb, h⟩ := bind_eq_ok.mp h
      obtain rfl := Except.ok.inj h
      exact (Memory.readByte_eq_ok.mp hb).1

/-- All operands end in memory, unless they begin behind it. -/
theorem le_of_decodeAll {memory : Memory} {address stop : Nat} {kinds : List OperandKind}
    {operands : List Operand} (h : Operand.decodeAll memory address kinds = .ok (operands, stop))
    (haddress : address ≤ memory.size) : stop ≤ memory.size := by
  induction kinds generalizing address operands with
  | nil =>
      obtain ⟨-, rfl⟩ := Prod.mk.inj (Except.ok.inj h)
      exact haddress
  | cons kind kinds ih =>
      obtain ⟨⟨operand, next⟩, hoperand, h⟩ := bind_eq_ok.mp h
      obtain ⟨⟨others, stop'⟩, hothers, h⟩ := bind_eq_ok.mp h
      obtain ⟨-, rfl⟩ := Prod.mk.inj (Except.ok.inj h)
      exact ih hothers (le_of_operand hoperand)

/-- A store variable is the byte that is read. -/
theorem readStore_eq_ok {memory : Memory} {address next : Nat} {stores : Bool}
    {store : Option UInt8} (h : readStore memory address stores = .ok (store, next)) :
    (stores = true ∧ address < memory.size ∧ store = some (memory.byteAt address) ∧
        next = address + 1) ∨
      (stores = false ∧ store = none ∧ next = address) := by
  unfold readStore at h
  cases stores with
  | true =>
      obtain ⟨b, hb, h⟩ := bind_eq_ok.mp h
      obtain ⟨rfl, rfl⟩ := Prod.mk.inj (Except.ok.inj h)
      obtain ⟨hlt, rfl⟩ := Memory.readByte_eq_ok.mp hb
      exact .inl ⟨rfl, hlt, rfl, rfl⟩
  | false =>
      obtain ⟨rfl, rfl⟩ := Prod.mk.inj (Except.ok.inj h)
      exact .inr ⟨rfl, rfl, rfl⟩

/-- The store variable ends in memory, unless it begins behind it. -/
theorem le_of_readStore {memory : Memory} {address next : Nat} {stores : Bool}
    {store : Option UInt8} (h : readStore memory address stores = .ok (store, next))
    (haddress : address ≤ memory.size) : next ≤ memory.size := by
  rcases readStore_eq_ok h with ⟨-, hlt, -, rfl⟩ | ⟨-, -, rfl⟩
  · exact hlt
  · exact haddress

/-- The branch data is decoded if the opcode branches, and otherwise takes no bytes. -/
theorem readBranch_eq_ok {memory : Memory} {address next : Nat} {branches : Bool}
    {branch : Option Branch} (h : readBranch memory address branches = .ok (branch, next)) :
    (branches = true ∧ ∃ data length, Branch.decode memory address = .ok (data, length) ∧
        branch = some data ∧ next = address + length) ∨
      (branches = false ∧ branch = none ∧ next = address) := by
  unfold readBranch at h
  cases branches with
  | true =>
      obtain ⟨⟨data, length⟩, hdata, h⟩ := bind_eq_ok.mp h
      obtain ⟨rfl, rfl⟩ := Prod.mk.inj (Except.ok.inj h)
      exact .inl ⟨rfl, data, length, hdata, rfl, rfl⟩
  | false =>
      obtain ⟨rfl, rfl⟩ := Prod.mk.inj (Except.ok.inj h)
      exact .inr ⟨rfl, rfl, rfl⟩

/-- The branch data ends in memory, unless it begins behind it. -/
theorem le_of_readBranch {memory : Memory} {address next : Nat} {branches : Bool}
    {branch : Option Branch} (h : readBranch memory address branches = .ok (branch, next))
    (haddress : address ≤ memory.size) : next ≤ memory.size := by
  rcases readBranch_eq_ok h with ⟨-, data, length, hdata, -, rfl⟩ | ⟨-, -, rfl⟩
  · exact (Branch.length_of_decode hdata).2.2
  · exact haddress

/-- A text ends behind its beginning, and in memory. -/
theorem le_of_textEnd {memory : Memory} {left address stop : Nat}
    (h : textEnd memory left address = .ok stop) : address ≤ stop ∧ stop ≤ memory.size := by
  induction left generalizing address with
  | zero => exact nomatch h
  | succ left ih =>
      obtain ⟨word, hword, h⟩ := bind_eq_ok.mp h
      have hlt := Memory.lt_of_readWord hword
      split at h
      · obtain ⟨hle, hstop⟩ := ih h
        omega
      · obtain rfl := Except.ok.inj h
        omega

/-- The text of an instruction is measured if the opcode has one, and otherwise takes no bytes. -/
theorem readText_eq_ok {memory : Memory} {address next : Nat} {hasText : Bool}
    {text : Option Nat} (h : readText memory address hasText = .ok (text, next)) :
    (hasText = true ∧ next ≤ memory.size) ∨ (hasText = false ∧ next = address) := by
  unfold readText at h
  cases hasText with
  | true =>
      obtain ⟨length, hlength, h⟩ := bind_eq_ok.mp h
      obtain ⟨-, rfl⟩ := Prod.mk.inj (Except.ok.inj h)
      obtain ⟨stop, hstop, hlength⟩ := bind_eq_ok.mp hlength
      obtain rfl := Except.ok.inj hlength
      have := le_of_textEnd hstop
      exact .inl ⟨rfl, by omega⟩
  | false =>
      obtain ⟨-, rfl⟩ := Prod.mk.inj (Except.ok.inj h)
      exact .inr ⟨rfl, rfl⟩

/-- The parts of a decoded instruction, as they stand in memory. -/
structure Parts (memory : Memory) (pc : Nat) (instruction : Instruction) (head : Head)
    (afterStore afterBranch : Nat) : Prop where
  head_eq : readHead memory pc = .ok head
  opcode_eq : Opcode.decode? head.count head.number memory.version = some instruction.opcode
  operands_eq : Operand.decodeAll memory head.next head.kinds
    = .ok (instruction.operands, instruction.result)
  store_eq : readStore memory instruction.result (instruction.opcode.stores memory.version)
    = .ok (instruction.store, afterStore)
  branch_eq : readBranch memory afterStore (instruction.opcode.branches memory.version)
    = .ok (instruction.branch, afterBranch)
  text_eq : readText memory afterBranch instruction.opcode.hasText
    = .ok (instruction.text, instruction.next)

/-- That an instruction begins with a given head. -/
structure Starts (instruction : Instruction) (pc : Nat) (head : Head) : Prop where
  address_eq : instruction.address = pc
  form_eq : instruction.form = head.form
  count_eq : instruction.count = head.count
  number_eq : instruction.number = head.number

/-- The instruction at an address is the one whose parts stand there. -/
theorem decode_eq_ok_iff {memory : Memory} {pc : Nat} {instruction : Instruction} :
    decode memory pc = .ok instruction ↔
      ∃ head afterStore afterBranch,
        Parts memory pc instruction head afterStore afterBranch ∧ instruction.Starts pc head := by
  constructor
  · intro h
    unfold decode at h
    obtain ⟨head, hhead, h⟩ := bind_eq_ok.mp h
    split at h
    · exact nomatch h
    case h_2 opcode hopcode =>
      obtain ⟨⟨operands, result⟩, hoperands, h⟩ := bind_eq_ok.mp h
      obtain ⟨⟨store, afterStore⟩, hstore, h⟩ := bind_eq_ok.mp h
      obtain ⟨⟨branch, afterBranch⟩, hbranch, h⟩ := bind_eq_ok.mp h
      obtain ⟨⟨text, next⟩, htext, h⟩ := bind_eq_ok.mp h
      obtain rfl := Except.ok.inj h
      exact ⟨head, afterStore, afterBranch,
        ⟨hhead, hopcode, hoperands, hstore, hbranch, htext⟩, ⟨rfl, rfl, rfl, rfl⟩⟩
  · rintro ⟨head, afterStore, afterBranch, hparts, hstarts⟩
    obtain ⟨address, form, count, number, opcode, operands, store, branch, text, result, next⟩ :=
      instruction
    obtain ⟨rfl, rfl, rfl, rfl⟩ := hstarts
    unfold decode
    refine bind_eq_ok.mpr ⟨head, hparts.head_eq, ?_⟩
    rw [hparts.opcode_eq]
    refine bind_eq_ok.mpr ⟨_, hparts.operands_eq, ?_⟩
    refine bind_eq_ok.mpr ⟨_, hparts.store_eq, ?_⟩
    refine bind_eq_ok.mpr ⟨_, hparts.branch_eq, ?_⟩
    exact bind_eq_ok.mpr ⟨_, hparts.text_eq, rfl⟩

/-- An instruction that was decoded has its parts in memory. -/
theorem parts_of_decode {memory : Memory} {pc : Nat} {instruction : Instruction}
    (h : decode memory pc = .ok instruction) :
    ∃ head afterStore afterBranch, Parts memory pc instruction head afterStore afterBranch := by
  obtain ⟨head, afterStore, afterBranch, hparts, -⟩ := decode_eq_ok_iff.mp h
  exact ⟨head, afterStore, afterBranch, hparts⟩

/-- An instruction lies in memory to its end. -/
theorem next_le_of_decode {memory : Memory} {pc : Nat} {instruction : Instruction}
    (h : decode memory pc = .ok instruction) : instruction.next ≤ memory.size := by
  obtain ⟨head, afterStore, afterBranch, hparts⟩ := parts_of_decode h
  have hresult := le_of_decodeAll hparts.operands_eq (readHead_eq_ok hparts.head_eq).1
  have hbranch := le_of_readBranch hparts.branch_eq (le_of_readStore hparts.store_eq hresult)
  rcases readText_eq_ok hparts.text_eq with ⟨-, hnext⟩ | ⟨-, rfl⟩
  · exact hnext
  · exact hbranch

/-- The table of opcodes says whether there is a store variable. -/
theorem store_of_decode {memory : Memory} {pc : Nat} {instruction : Instruction}
    (h : decode memory pc = .ok instruction) :
    instruction.store.isSome = instruction.opcode.stores memory.version := by
  obtain ⟨head, afterStore, afterBranch, hparts⟩ := parts_of_decode h
  rcases readStore_eq_ok hparts.store_eq with ⟨hstores, -, hstore, -⟩ | ⟨hstores, hstore, -⟩ <;>
    rw [hstores, hstore] <;> rfl

/-- Where a result is stored, the store variable is the byte at `result`. -/
theorem stores_of_decode {memory : Memory} {pc : Nat} {instruction : Instruction}
    (h : decode memory pc = .ok instruction)
    (hstores : instruction.opcode.stores memory.version = true) :
    instruction.result < memory.size ∧
      instruction.store = some (memory.byteAt instruction.result) := by
  obtain ⟨head, afterStore, afterBranch, hparts⟩ := parts_of_decode h
  rcases readStore_eq_ok hparts.store_eq with ⟨-, hlt, hstore, -⟩ | ⟨hnot, -, -⟩
  · exact ⟨hlt, hstore⟩
  · rw [hstores] at hnot
    exact nomatch hnot

/-- An instruction that only stores ends with its store variable. -/
theorem next_eq_of_stores {memory : Memory} {pc : Nat} {instruction : Instruction}
    (h : decode memory pc = .ok instruction)
    (hstores : instruction.opcode.stores memory.version = true)
    (hbranches : instruction.opcode.branches memory.version = false)
    (htext : instruction.opcode.hasText = false) : instruction.next = instruction.result + 1 := by
  obtain ⟨head, afterStore, afterBranch, hparts⟩ := parts_of_decode h
  rcases readStore_eq_ok hparts.store_eq with ⟨-, -, -, rfl⟩ | ⟨hnot, -, -⟩
  · rcases readBranch_eq_ok hparts.branch_eq with ⟨hnot, -⟩ | ⟨-, -, rfl⟩
    · rw [hbranches] at hnot
      exact nomatch hnot
    · rcases readText_eq_ok hparts.text_eq with ⟨hnot, -⟩ | ⟨-, hnext⟩
      · rw [htext] at hnot
        exact nomatch hnot
      · exact hnext
  · rw [hstores] at hnot
    exact nomatch hnot

/-- An instruction that only branches ends with its branch data, which is at
`result`. -/
theorem branches_of_decode {memory : Memory} {pc : Nat} {instruction : Instruction}
    (h : decode memory pc = .ok instruction)
    (hstores : instruction.opcode.stores memory.version = false)
    (hbranches : instruction.opcode.branches memory.version = true)
    (htext : instruction.opcode.hasText = false) :
    instruction.store = none ∧ ∃ data length,
      Branch.decode memory instruction.result = .ok (data, length) ∧
      instruction.branch = some data ∧ instruction.next = instruction.result + length := by
  obtain ⟨head, afterStore, afterBranch, hparts⟩ := parts_of_decode h
  rcases readStore_eq_ok hparts.store_eq with ⟨hnot, -⟩ | ⟨-, hstore, rfl⟩
  · rw [hstores] at hnot
    exact nomatch hnot
  · rcases readBranch_eq_ok hparts.branch_eq with ⟨-, data, length, hdata, hbranch, rfl⟩ | ⟨hnot, -⟩
    · rcases readText_eq_ok hparts.text_eq with ⟨hnot, -⟩ | ⟨-, hnext⟩
      · rw [htext] at hnot
        exact nomatch hnot
      · exact ⟨hstore, data, length, hdata, hbranch, hnext⟩
    · rw [hbranches] at hnot
      exact nomatch hnot

/-- Undo generations are kept, and gone back to, from version 5 on.  Only the extended table has
the opcodes. -/
theorem version_of_undo {memory : Memory} {pc : Nat} {instruction : Instruction}
    (h : decode memory pc = .ok instruction)
    (hopcode : instruction.opcode = .saveUndo ∨ instruction.opcode = .restoreUndo) :
    5 ≤ memory.version := by
  obtain ⟨head, afterStore, afterBranch, hparts⟩ := parts_of_decode h
  refine (readHead_eq_ok hparts.head_eq).2 ?_
  have hdecode := hparts.opcode_eq
  cases hcount : head.count with
  | ext => rfl
  | op0 =>
      rw [hcount, Opcode.decode?, Opcode.noOperand?.eq_def] at hdecode
      split at hdecode <;> grind
  | op1 =>
      rw [hcount, Opcode.decode?, Opcode.oneOperand?.eq_def] at hdecode
      split at hdecode <;> grind
  | op2 =>
      rw [hcount, Opcode.decode?, Opcode.twoOperand?.eq_def] at hdecode
      split at hdecode <;> grind
  | var =>
      rw [hcount, Opcode.decode?, Opcode.anyOperand?.eq_def] at hdecode
      split at hdecode <;> grind

/-- Undo generations are kept from version 5 on. -/
theorem version_of_saveUndo {memory : Memory} {pc : Nat} {instruction : Instruction}
    (h : decode memory pc = .ok instruction) (hopcode : instruction.opcode = .saveUndo) :
    5 ≤ memory.version := version_of_undo h (.inl hopcode)

/-- Before version 5 the instruction that restores takes no operands. -/
theorem operands_of_restore {memory : Memory} {pc : Nat} {instruction : Instruction}
    (h : decode memory pc = .ok instruction) (hopcode : instruction.opcode = .restore)
    (hversion : memory.version < 5) : instruction.operands = [] := by
  obtain ⟨head, afterStore, afterBranch, hparts⟩ := parts_of_decode h
  have hdecode := hparts.opcode_eq
  rw [hopcode] at hdecode
  have hcount : head.count = .op0 := by
    cases hcount : head.count with
    | op0 => rfl
    | ext =>
        have hfive := (readHead_eq_ok hparts.head_eq).2 hcount
        omega
    | op1 =>
        rw [hcount, Opcode.decode?, Opcode.oneOperand?.eq_def] at hdecode
        split at hdecode <;> grind
    | op2 =>
        rw [hcount, Opcode.decode?, Opcode.twoOperand?.eq_def] at hdecode
        split at hdecode <;> grind
    | var =>
        rw [hcount, Opcode.decode?, Opcode.anyOperand?.eq_def] at hdecode
        split at hdecode <;> grind
  have hoperands := hparts.operands_eq
  rw [kinds_of_op0 hparts.head_eq hcount] at hoperands
  obtain ⟨hoperands, -⟩ := Prod.mk.inj (Except.ok.inj hoperands)
  exact hoperands.symm

/-- What goes back to another state, or selects an output stream, is not of the two operand
class. -/
theorem count_ne_op2 {memory : Memory} {pc : Nat} {instruction : Instruction}
    (h : decode memory pc = .ok instruction)
    (hopcode : instruction.opcode = .restore ∨ instruction.opcode = .restoreUndo ∨
      instruction.opcode = .outputStream) : instruction.count ≠ .op2 := by
  intro hcount
  obtain ⟨head, _, _, hparts, hstarts⟩ := decode_eq_ok_iff.mp h
  have hdecode := hparts.opcode_eq
  rw [← hstarts.count_eq, hcount, Opcode.decode?, Opcode.twoOperand?.eq_def] at hdecode
  split at hdecode <;> grind

end Instruction

end StoryMachine
