import StoryMachine.Proofs.CheckedMemory
import StoryMachine.Proofs.InstructionFaults

/-!
# Instructions with checked addresses

`Instruction.decodeAt` reads an instruction and computes its addresses in 64 bits: each
sum is checked, and one that does not fit leaves no answer at all.  `placeAt` adds an
offset with a sign, as a branch and a jump do; on the way the place may lie below zero.

No sum of theirs ever fails to fit (`decodeAt_eq`, `placeAt_eq`), as long as the image
leaves room for the longest jump below 2^63.
-/

namespace StoryMachine

open Checked

variable {memory : Memory}

namespace Operand

/-- Reads an operand of a type, and the address after it. -/
def decodeAt (memory : Memory) (address : Nat) : OperandKind → Checked (Operand × Nat)
  | .large => do
    let word ← memory.readWordAt address
    let next ← sum address 2
    return (.large word, next)
  | .small => do
    let next ← sum address 1
    let b ← inRange (memory.readByte (next - 1))
    return (.small b, next)
  | .var => do
    let next ← sum address 1
    let b ← inRange (memory.readByte (next - 1))
    return (.var b, next)

/-- Reads operands of the given types, and the address after them. -/
def decodeAllAt (memory : Memory) : (address : Nat) → List OperandKind →
    Checked (List Operand × Nat)
  | address, [] => pure ([], address)
  | address, kind :: kinds => do
    let (operand, next) ← decodeAt memory address kind
    let (operands, stop) ← decodeAllAt memory next kinds
    return (operand :: operands, stop)

/-- An operand is decoded with its addresses in their range. -/
theorem decodeAt_eq (hroom : memory.Addressable) {address : Nat} (h : address ≤ memory.size)
    (kind : OperandKind) : decodeAt memory address kind = inRange (decode memory address kind) := by
  cases kind with
  | large =>
      rw [decodeAt, Memory.readWordAt_eq (hroom.next_lt h)]
      refine bind_congr_inRange fun word _ => ?_
      rw [hroom.sum_eq h (by decide)]
      rfl
  | small | var =>
      rw [decodeAt, hroom.sum_eq h (by decide), pure_bind, Nat.add_sub_cancel]
      exact bind_congr_inRange fun b _ => rfl

/-- All operands are decoded with their addresses in their range. -/
theorem decodeAllAt_eq (hroom : memory.Addressable) {address : Nat} (h : address ≤ memory.size)
    (kinds : List OperandKind) :
    decodeAllAt memory address kinds = inRange (decodeAll memory address kinds) := by
  induction kinds generalizing address with
  | nil => rfl
  | cons kind kinds ih =>
      rw [decodeAllAt, decodeAll, decodeAt_eq hroom h]
      refine bind_congr_inRange fun ⟨operand, next⟩ hread => ?_
      dsimp only
      rw [ih (Instruction.le_of_operand hread)]
      exact bind_congr_inRange fun _ _ => rfl

end Operand

/-- Reads the branch data at an address, and how many bytes it takes. -/
def Branch.decodeAt (memory : Memory) (address : Nat) : Checked (Branch × Nat) := do
  let first ← inRange (memory.readByte address)
  let condition := first &&& 0x80 != 0
  let high := (first &&& 0x3f).toNat
  if first &&& 0x40 ≠ 0 then
    return ({ condition, offset := high, short := true }, 1)
  else
    let place ← sum address 1
    let second ← inRange (memory.readByte place)
    return ({ condition, offset := signedOffset (256 * high + second.toNat), short := false }, 2)

/-- A branch is decoded with its addresses and its offset in their range. -/
theorem Branch.decodeAt_eq (hroom : memory.Addressable) (address : Nat) :
    decodeAt memory address = inRange (decode memory address) := by
  refine bind_congr_inRange fun first hfirst => ?_
  dsimp only
  split
  · rfl
  · rw [hroom.sum_eq (Nat.le_of_lt (Memory.lt_of_readByte hfirst)) (by decide)]
    exact bind_congr_inRange fun second _ => rfl

namespace Instruction

/-- Reads `count` type bytes, stepping over each. -/
def readKindsAt (memory : Memory) (address count : Nat) : Checked (List OperandKind × Nat) := do
  let bytes ← (List.range count).mapM fun i => do
    let place ← sum address i
    inRange (memory.readByte place)
  let next ← sum address count
  return (OperandKind.leading (bytes.flatMap OperandKind.slots), next)

/-- Reads the opcode and the operand types at an address. -/
def readHeadAt (memory : Memory) (pc : Nat) : Checked Head := do
  let byte ← inRange (memory.readByte pc)
  let place ← sum pc 1
  if byte < 0x80 then
    let first := if byte &&& 0x40 ≠ 0 then .var else .small
    let second := if byte &&& 0x20 ≠ 0 then .var else .small
    return { form := .long, count := .op2, number := byte &&& 0x1f, kinds := [first, second],
             next := place }
  else if byte = 0xbe ∧ 5 ≤ memory.version then
    let number ← inRange (memory.readByte place)
    let place ← sum place 1
    let (kinds, next) ← readKindsAt memory place 1
    return { form := .ext, count := .ext, number, kinds, next }
  else if byte < 0xc0 then
    match OperandKind.ofBits? (byte >>> 4) with
    | some kind =>
      return { form := .short, count := .op1, number := byte &&& 0x0f, kinds := [kind],
               next := place }
    | none =>
      return { form := .short, count := .op0, number := byte &&& 0x0f, kinds := [],
               next := place }
  else if byte < 0xe0 then
    let (kinds, next) ← readKindsAt memory place 1
    return { form := .var, count := .op2, number := byte &&& 0x1f, kinds, next }
  else
    let number := byte &&& 0x1f
    let (kinds, next) ← readKindsAt memory place (typeBytes number)
    return { form := .var, count := .var, number, kinds, next }

/-- The address after the packed text at an address. -/
def textEndAt (memory : Memory) : (left address : Nat) → Checked Nat
  | 0, address => do
    let _ ← sum address 2
    throw (memory.outOfBounds address)
  | left + 1, address => do
    let word ← memory.readWordAt address
    let next ← sum address 2
    if word < 0x8000 then textEndAt memory left next else return next

/-- Reads the store variable, if the opcode has one. -/
def readStoreAt (memory : Memory) (address : Nat) (stores : Bool) :
    Checked (Option UInt8 × Nat) := do
  if stores then
    let next ← sum address 1
    let b ← inRange (memory.readByte (next - 1))
    return (some b, next)
  else return (none, address)

/-- Reads the branch data, if the opcode has any. -/
def readBranchAt (memory : Memory) (address : Nat) (branches : Bool) :
    Checked (Option Branch × Nat) := do
  if branches then
    let (branch, length) ← Branch.decodeAt memory address
    let next ← sum address length
    return (some branch, next)
  else return (none, address)

/-- Passes over the text, if the opcode has any. -/
def readTextAt (memory : Memory) (address : Nat) (hasText : Bool) :
    Checked (Option Nat × Nat) := do
  if hasText then
    let stop ← textEndAt memory (memory.size - address) address
    let next ← sum address (stop - address)
    return (some address, next)
  else return (none, address)

/-- Reads the instruction at an address. -/
def decodeAt (memory : Memory) (pc : Nat) : Checked Instruction := do
  let version := memory.version
  let head ← readHeadAt memory pc
  match Opcode.decode? head.count head.number version with
  | none =>
    throw { kind := .unknownOpcode, pc := some pc,
            detail := s!"{head.count.name} {head.number} IN VERSION {version}" }
  | some opcode =>
    let (operands, result) ← Operand.decodeAllAt memory head.next head.kinds
    let (store, afterStore) ← readStoreAt memory result (opcode.stores version)
    let (branch, afterBranch) ← readBranchAt memory afterStore (opcode.branches version)
    let (text, next) ← readTextAt memory afterBranch opcode.hasText
    return { address := pc, form := head.form, count := head.count, number := head.number, opcode,
             operands, store, branch, text, result, next }

/-- There are two type bytes at most. -/
theorem typeBytes_le (number : UInt8) : typeBytes number ≤ 2 := by
  unfold typeBytes
  split <;> decide

/-- Type bytes are read with their addresses in their range. -/
theorem readKindsAt_eq (hroom : memory.Addressable) {address count : Nat}
    (h : address ≤ memory.size) (hcount : count ≤ 2) :
    readKindsAt memory address count
      = inRange (readKinds memory address count >>= fun kinds =>
          pure (kinds, address + count)) := by
  have hbytes : ((List.range count).mapM fun i => (do
      let place ← sum address i
      inRange (memory.readByte place) : Checked UInt8))
        = inRange ((List.range count).mapM fun i => memory.readByte (address + i)) := by
    refine mapM_inRange fun i hi => ?_
    have hlt := List.mem_range.mp hi
    rw [hroom.sum_eq h (by omega), pure_bind]
  rw [readKindsAt, readKinds, hbytes, bind_assoc]
  refine bind_congr_inRange fun bytes _ => ?_
  rw [hroom.sum_eq h (by omega)]
  rfl

/-- A head is read with its addresses in their range. -/
theorem readHeadAt_eq (hroom : memory.Addressable) (pc : Nat) :
    readHeadAt memory pc = inRange (readHead memory pc) := by
  refine bind_congr_inRange fun byte hbyte => ?_
  have hnext : pc + 1 ≤ memory.size := (Memory.readByte_eq_ok.mp hbyte).1
  rw [hroom.sum_eq (Nat.le_of_succ_le hnext) (by decide), pure_bind]
  split
  · rfl
  split
  · refine bind_congr_inRange fun number hnumber => ?_
    have hkinds : pc + 1 + 1 ≤ memory.size := (Memory.readByte_eq_ok.mp hnumber).1
    rw [hroom.sum_eq hnext (by decide), pure_bind, readKindsAt_eq hroom hkinds (by decide),
      inRange_bind, bind_assoc]
    exact bind_congr_inRange fun kinds _ => rfl
  split
  · cases OperandKind.ofBits? (byte >>> 4) <;> rfl
  split
  · rw [readKindsAt_eq hroom hnext (by decide), inRange_bind, bind_assoc]
    exact bind_congr_inRange fun kinds _ => rfl
  · dsimp only
    rw [readKindsAt_eq hroom hnext (typeBytes_le _), inRange_bind, bind_assoc]
    exact bind_congr_inRange fun kinds _ => rfl

/-- The end of a text is found with its addresses in their range. -/
theorem textEndAt_eq (hroom : memory.Addressable) {left address : Nat} (h : address ≤ memory.size) :
    textEndAt memory left address = inRange (textEnd memory left address) := by
  induction left generalizing address with
  | zero =>
      rw [textEndAt, hroom.sum_eq h (by decide)]
      rfl
  | succ left ih =>
      rw [textEndAt, textEnd, Memory.readWordAt_eq (hroom.next_lt h)]
      refine bind_congr_inRange fun word hword => ?_
      rw [hroom.sum_eq h (by decide), pure_bind]
      split
      · exact ih (Memory.lt_of_readWord hword)
      · rfl

/-- The store variable is read with its address in its range. -/
theorem readStoreAt_eq (hroom : memory.Addressable) {address : Nat} (h : address ≤ memory.size)
    (stores : Bool) : readStoreAt memory address stores
      = inRange (readStore memory address stores) := by
  cases stores with
  | false => rfl
  | true =>
      show sum address 1 >>= _ = _
      rw [hroom.sum_eq h (by decide), pure_bind, Nat.add_sub_cancel]
      exact bind_congr_inRange fun b _ => rfl

/-- The branch data is read with its addresses in their range. -/
theorem readBranchAt_eq (hroom : memory.Addressable) {address : Nat} (h : address ≤ memory.size)
    (branches : Bool) : readBranchAt memory address branches
      = inRange (readBranch memory address branches) := by
  cases branches with
  | false => rfl
  | true =>
      show Branch.decodeAt memory address >>= _ = _
      rw [Branch.decodeAt_eq hroom address]
      refine bind_congr_inRange fun ⟨branch, length⟩ hdata => ?_
      have hlength := (Branch.length_of_decode hdata).2.1
      dsimp only
      rw [hroom.sum_eq h (by omega)]
      rfl

/-- A text is measured with its addresses in their range. -/
theorem readTextAt_eq (hroom : memory.Addressable) {address : Nat} (h : address ≤ memory.size)
    (hasText : Bool) : readTextAt memory address hasText
      = inRange (readText memory address hasText) := by
  cases hasText with
  | false => rfl
  | true =>
      show textEndAt memory (memory.size - address) address >>= _ = _
      rw [textEndAt_eq hroom h]
      show _ = inRange (textLength memory address >>= _)
      rw [textLength, bind_assoc]
      refine bind_congr_inRange fun stop hstop => ?_
      have hstop := le_of_textEnd hstop
      have hsize : memory.size + 0x8000 ≤ 2 ^ 63 := hroom
      have hsum : (sum address (stop - address) : Checked Nat)
          = pure (address + (stop - address)) :=
        if_pos (by omega)
      rw [hsum]
      rfl

/-- **Decoding stays in 64 bits**, wherever it starts. -/
theorem decodeAt_eq (hroom : memory.Addressable) (pc : Nat) :
    decodeAt memory pc = inRange (decode memory pc) := by
  rw [decodeAt, decode, readHeadAt_eq hroom]
  refine bind_congr_inRange fun head hhead => ?_
  have hhead := (readHead_eq_ok hhead).1
  cases Opcode.decode? head.count head.number memory.version with
  | none => rfl
  | some opcode =>
      dsimp only
      rw [Operand.decodeAllAt_eq hroom hhead]
      refine bind_congr_inRange fun ⟨operands, result⟩ hoperands => ?_
      have hresult := le_of_decodeAll hoperands hhead
      dsimp only
      rw [readStoreAt_eq hroom hresult]
      refine bind_congr_inRange fun ⟨store, afterStore⟩ hstore => ?_
      have hafterStore := le_of_readStore hstore hresult
      dsimp only
      rw [readBranchAt_eq hroom hafterStore]
      refine bind_congr_inRange fun ⟨branch, afterBranch⟩ hbranch => ?_
      have hafterBranch := le_of_readBranch hbranch hafterStore
      dsimp only
      rw [readTextAt_eq hroom hafterBranch]
      exact bind_congr_inRange fun _ _ => rfl

end Instruction

/-! ## Jumping -/

section

variable {m : Type → Type} [Monad m] [Breaks m]

/-- Where a jump by an offset leads from an instruction that ends at `next`.  The place may lie
below zero, and is then an address only after wrapping. -/
def placeAt (next : Nat) (offset : Int) : m Nat := do
  let far ← signedSum next offset
  let place ← signedSum far (-2)
  return wrapAddress place

/-- Where a branch goes. -/
def Branch.targetAt (branch : Branch) (next : Nat) : m BranchTarget :=
  if branch.offset = 0 then pure .returnFalse
  else if branch.offset = 1 then pure .returnTrue
  else do
    let place ← placeAt next branch.offset
    return .address place

variable [LawfulMonad m]

/-- A place reckoned from the next instruction is in its range as an integer. -/
theorem placeAt_eq {next : Nat} (hnext : next + 0x8000 ≤ 2 ^ 63) {offset : Int}
    (hlow : -0x8000 ≤ offset) (hhigh : offset < 0x8000) :
    (placeAt next offset : m Nat) = pure (wrapAddress (next + offset - 2)) := by
  have hfar : (signedSum next offset : m Int) = pure (next + offset) := if_pos (by omega)
  have hplace : (signedSum (next + offset) (-2) : m Int) = pure (next + offset - 2) :=
    if_pos (by omega)
  rw [placeAt, hfar, pure_bind, hplace, pure_bind]

/-- A branch leads to a place in range from wherever it ends in memory. -/
theorem Branch.targetAt_eq {next : Nat} (hnext : next + 0x8000 ≤ 2 ^ 63) {branch : Branch}
    (hlow : -0x2000 ≤ branch.offset) (hhigh : branch.offset < 0x2000) :
    (branch.targetAt next : m BranchTarget) = pure (branch.target next) := by
  rw [targetAt, placeAt_eq hnext (by omega) (by omega), target]
  split
  · rfl
  split
  · rfl
  · exact pure_bind _ _

end

/-- Branch data holds fourteen bits at most. -/
theorem Branch.offset_of_decode {address length : Nat} {branch : Branch}
    (h : Branch.decode memory address = .ok (branch, length)) :
    -0x2000 ≤ branch.offset ∧ branch.offset < 0x2000 := by
  unfold Branch.decode at h
  obtain ⟨first, -, h⟩ := bind_eq_ok.mp h
  have hmask : (first &&& 0x3f).toNat ≤ 0x3f := by
    rw [UInt8.toNat_and]
    exact Nat.and_le_right
  have hhigh : (first &&& 0x3f).toNat < 0x40 := Nat.lt_succ_of_le hmask
  split at h
  · obtain ⟨rfl, -⟩ := Prod.mk.inj (Except.ok.inj h)
    dsimp only
    omega
  · obtain ⟨second, -, h⟩ := bind_eq_ok.mp h
    obtain ⟨rfl, -⟩ := Prod.mk.inj (Except.ok.inj h)
    have hlow := second.toNat_lt
    dsimp only
    unfold signedOffset
    split <;> omega

/-- The branch of an instruction is one that was read. -/
theorem Instruction.offset_of_decode {pc : Nat} {instruction : Instruction}
    (h : decode memory pc = .ok instruction) {branch : Branch}
    (hbranch : instruction.branch = some branch) :
    -0x2000 ≤ branch.offset ∧ branch.offset < 0x2000 := by
  obtain ⟨head, afterStore, afterBranch, hparts⟩ := parts_of_decode h
  have hread := hparts.branch_eq
  rcases readBranch_eq_ok hread with ⟨-, data, length, hdata, hsome, -⟩ | ⟨-, hnone, -⟩
  · obtain rfl := Option.some.inj (hbranch.symm.trans hsome)
    exact Branch.offset_of_decode hdata
  · rw [hbranch] at hnone
    exact nomatch hnone

/-- The text of an instruction begins in memory. -/
theorem Instruction.text_le_of_decode {pc : Nat} {instruction : Instruction}
    (h : decode memory pc = .ok instruction) {address : Nat}
    (htext : instruction.text = some address) : address ≤ memory.size := by
  obtain ⟨head, afterStore, afterBranch, hparts⟩ := parts_of_decode h
  have hresult := le_of_decodeAll hparts.operands_eq (readHead_eq_ok hparts.head_eq).1
  have hbranch := le_of_readBranch hparts.branch_eq (le_of_readStore hparts.store_eq hresult)
  have hread := hparts.text_eq
  unfold readText at hread
  split at hread
  · obtain ⟨length, -, hread⟩ := bind_eq_ok.mp hread
    obtain ⟨hsome, -⟩ := Prod.mk.inj (Except.ok.inj hread)
    obtain rfl := Option.some.inj (hsome.trans htext)
    exact hbranch
  · obtain ⟨hnone, -⟩ := Prod.mk.inj (Except.ok.inj hread)
    rw [htext] at hnone
    exact nomatch hnone

/-- Only the class of two operands has the opcode that compares one operand with the others. -/
theorem Opcode.op2_of_decode?_je {count : OperandCount} {number : UInt8} {version : Nat}
    (h : decode? count number version = some .je) : count = .op2 := by
  cases count with
  | op2 => rfl
  | op1 =>
      rw [decode?, oneOperand?.eq_def] at h
      split at h <;> (try split at h) <;> cases h
  | op0 =>
      rw [decode?, noOperand?.eq_def] at h
      split at h <;> (try split at h) <;> cases h
  | var =>
      rw [decode?, anyOperand?.eq_def] at h
      split at h <;> (try split at h) <;> cases h
  | ext =>
      rw [decode?, extended?.eq_def] at h
      split at h <;> (try split at h) <;> cases h

/-- An instruction that fits in memory, with a branch that is as branch data gives it. -/
structure Instruction.Fits (instruction : Instruction) : Prop where
  next : instruction.next + 0x8000 ≤ 2 ^ 63
  offset : ∀ branch, instruction.branch = some branch →
    -0x2000 ≤ branch.offset ∧ branch.offset < 0x2000
  text : ∀ address, instruction.text = some address → address < 2 ^ 63
  count : instruction.opcode = .je → instruction.count = .op2

/-- Every instruction that is decoded fits. -/
theorem Instruction.fits_of_decode (hroom : memory.Addressable) {pc : Nat}
    {instruction : Instruction} (h : decode memory pc = .ok instruction) : instruction.Fits := by
  have hsize : memory.size + 0x8000 ≤ 2 ^ 63 := hroom
  have hnext := next_le_of_decode h
  obtain ⟨head, afterStore, afterBranch, hparts, hstarts⟩ := decode_eq_ok_iff.mp h
  refine ⟨by omega, fun branch => offset_of_decode h, fun address htext => ?_, fun hje => ?_⟩
  · have := text_le_of_decode h htext
    omega
  · have hopcode := hparts.opcode_eq
    rw [hje] at hopcode
    rw [hstarts.count_eq]
    exact Opcode.op2_of_decode?_je hopcode

end StoryMachine
