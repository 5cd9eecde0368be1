import StoryMachine.Instruction.Encoding
import StoryMachine.Proofs.Overwriting

/-!
# How an instruction is laid out in memory

Each reader of the decoder is compared here with the bytes that stand in memory, in
the words of `Memory.Holds`: operands, a store variable and branch data are read off
exactly the bytes they are written as (`Operand.decodeAll_eq_ok`,
`Instruction.readStore_eq_ok_iff`, `Branch.holds_of_decode`), and `Opening` lists the
six ways in which an instruction can begin (`Instruction.readHead_eq_ok_iff`).

**Only type bytes can say more than is read from them**: types after the first
omitted one are ignored.  What is written in their place has the same types and no
others (`Instruction.leading_kindBytes`), so it is the bytes that were read exactly
if those are tidy (`Instruction.kindBytes_leading_iff`).
-/

namespace StoryMachine

/-- What is to be shown of a byte can be looked up for all of them. -/
theorem forall_byte {P : UInt8 → Prop} (h : ∀ n : Fin 256, P (UInt8.ofFin n)) (b : UInt8) : P b :=
  h b.toFin

namespace OperandKind

/-- That nothing stands behind the first omitted type. -/
def Tidy (slots : List (Option OperandKind)) : Prop :=
  ∀ slot ∈ slots.dropWhile Option.isSome, slot = none

instance (slots : List (Option OperandKind)) : Decidable (Tidy slots) :=
  inferInstanceAs (Decidable (∀ slot ∈ slots.dropWhile Option.isSome, slot = none))

/-- Types in a number of slots, the rest of which are omitted. -/
def padded (kinds : List OperandKind) (count : Nat) : List (Option OperandKind) :=
  kinds.map some ++ List.replicate (count - kinds.length) none

/-- No more types come before the first omitted one than there are slots. -/
theorem length_leading_le (slots : List (Option OperandKind)) :
    (leading slots).length ≤ slots.length := by
  induction slots with
  | nil => exact Nat.le_refl 0
  | cons slot rest ih =>
      cases slot with
      | none => exact Nat.zero_le _
      | some kind => exact Nat.succ_le_succ ih

/-- Types that are padded with omitted ones are read as they are. -/
theorem leading_padded (kinds : List OperandKind) (count : Nat) :
    leading (padded kinds count) = kinds := by
  unfold padded
  induction kinds generalizing count with
  | nil => cases count <;> rfl
  | cons kind rest ih =>
      have hcount : count - (kind :: rest).length = (count - 1) - rest.length := by
        rw [List.length_cons]
        omega
      rw [hcount]
      exact congrArg (kind :: ·) (ih (count - 1))

/-- The slots that are tidy are those that say no more than what is read from them. -/
theorem padded_leading_iff {slots : List (Option OperandKind)} :
    padded (leading slots) slots.length = slots ↔ Tidy slots := by
  induction slots with
  | nil => simp [leading, padded, Tidy]
  | cons slot rest ih =>
      cases slot with
      | some kind =>
          have hcons : padded (leading (some kind :: rest)) (some kind :: rest).length
              = some kind :: padded (leading rest) rest.length := by
            simp [leading, padded]
          rw [hcons, List.cons.injEq, ih]
          simp [Tidy]
      | none =>
          have hnone : padded (leading (none :: rest)) (none :: rest).length
              = none :: List.replicate rest.length none := rfl
          rw [hnone, List.cons.injEq, eq_comm (b := rest), List.eq_replicate_iff]
          simp [Tidy]

/-- The byte with given types in its slots. -/
def packed (first second third fourth : Option OperandKind) : UInt8 :=
  let bitsOf (slot : Option OperandKind) : UInt8 := (slot.map bits).getD 3
  (bitsOf first <<< 6) ||| (bitsOf second <<< 4) ||| (bitsOf third <<< 2) ||| bitsOf fourth

/-- The slots of a byte that is packed are what it was packed of. -/
theorem slots_packed (first second third fourth : Option OperandKind) :
    slots (packed first second third fourth) = [first, second, third, fourth] := by
  rcases first with _ | _ | _ | _ <;> rcases second with _ | _ | _ | _ <;>
    rcases third with _ | _ | _ | _ <;> rcases fourth with _ | _ | _ | _ <;> decide

/-- A type byte has the given types in its slots. -/
theorem slots_typeByte (kinds : List OperandKind) :
    slots (Instruction.typeByte kinds) = [kinds[0]?, kinds[1]?, kinds[2]?, kinds[3]?] :=
  slots_packed kinds[0]? kinds[1]? kinds[2]? kinds[3]?

/-- A byte that is packed of its slots is this byte. -/
theorem packed_slots (b : UInt8) :
    packed (ofBits? (b >>> 6)) (ofBits? (b >>> 4)) (ofBits? (b >>> 2)) (ofBits? b) = b := by
  revert b
  exact forall_byte (by decide +kernel)

/-- Bytes with the same slots are the same. -/
theorem slots_injective : Function.Injective slots := by
  intro b c h
  simp only [slots, List.cons.injEq, and_true] at h
  obtain ⟨h6, h4, h2, h0⟩ := h
  rw [← packed_slots b, h6, h4, h2, h0, packed_slots]

/-- Types are padded four slots at a time. -/
theorem padded_add_four (kinds : List OperandKind) (count : Nat) :
    padded kinds (count + 4)
      = [kinds[0]?, kinds[1]?, kinds[2]?, kinds[3]?] ++ padded (kinds.drop 4) count := by
  rcases kinds with _ | ⟨first, _ | ⟨second, _ | ⟨third, _ | ⟨fourth, rest⟩⟩⟩⟩ <;>
    simp [padded, List.replicate_succ]

/-- Each type byte has four slots. -/
theorem length_flatMap_slots (bytes : List UInt8) :
    (bytes.flatMap slots).length = 4 * bytes.length := by
  induction bytes with
  | nil => rfl
  | cons b rest ih =>
      rw [List.flatMap_cons, List.length_append, ih, List.length_cons, slots]
      exact Nat.add_comm 4 _

/-- Type bytes are told apart by what stands in their slots. -/
theorem flatMap_slots_inj {bytes others : List UInt8} (hlength : bytes.length = others.length) :
    bytes.flatMap slots = others.flatMap slots ↔ bytes = others := by
  refine ⟨fun h => ?_, congrArg _⟩
  induction bytes generalizing others with
  | nil => exact (List.length_eq_zero_iff.mp hlength.symm).symm
  | cons b rest ih =>
      obtain ⟨c, others, rfl⟩ := List.exists_cons_of_length_eq_add_one hlength.symm
      obtain ⟨hb, hrest⟩ := List.append_inj h rfl
      rw [slots_injective hb, ih (Nat.succ.inj hlength) hrest]

end OperandKind

namespace Instruction

open OperandKind

/-- Types as a number of type bytes. -/
def kindBytes (kinds : List OperandKind) : (count : Nat) → List UInt8
  | 0 => []
  | count + 1 => typeByte kinds :: kindBytes (kinds.drop 4) count

/-- As many type bytes are written as are asked for. -/
theorem length_kindBytes (kinds : List OperandKind) (count : Nat) :
    (kindBytes kinds count).length = count := by
  induction count generalizing kinds with
  | zero => rfl
  | succ count ih => exact congrArg Nat.succ (ih _)

/-- The slots of the written type bytes are the types, padded. -/
theorem slots_kindBytes {kinds : List OperandKind} {count : Nat} (h : kinds.length ≤ 4 * count) :
    (kindBytes kinds count).flatMap slots = padded kinds (4 * count) := by
  induction count generalizing kinds with
  | zero =>
      obtain rfl := List.length_eq_zero_iff.mp (Nat.le_zero.mp h)
      rfl
  | succ count ih =>
      have hrest : (kinds.drop 4).length ≤ 4 * count := by
        rw [List.length_drop]
        omega
      rw [kindBytes, List.flatMap_cons, slots_typeByte, ih hrest, Nat.mul_succ, padded_add_four]

/-- Types that were read from bytes are read again from the bytes they are written as. -/
theorem leading_kindBytes (bytes : List UInt8) :
    leading ((kindBytes (leading (bytes.flatMap slots)) bytes.length).flatMap slots)
      = leading (bytes.flatMap slots) := by
  have hle := length_leading_le (bytes.flatMap slots)
  rw [length_flatMap_slots] at hle
  rw [slots_kindBytes hle, leading_padded]

/-- Those bytes are the ones that were read exactly if they are tidy. -/
theorem kindBytes_leading_iff {bytes : List UInt8} :
    kindBytes (leading (bytes.flatMap slots)) bytes.length = bytes ↔
      Tidy (bytes.flatMap slots) := by
  have hle := length_leading_le (bytes.flatMap slots)
  rw [length_flatMap_slots] at hle
  rw [← flatMap_slots_inj (length_kindBytes _ _), slots_kindBytes hle, ← length_flatMap_slots,
    padded_leading_iff]

end Instruction

namespace Memory

/-- Reading bytes one after the other gives those that stand there. -/
theorem mapM_readByte {memory : Memory} {address count : Nat} {bytes : List UInt8} :
    ((List.range count).mapM fun i => memory.readByte (address + i)) = .ok bytes ↔
      bytes.length = count ∧ memory.Holds address bytes := by
  induction count generalizing address bytes with
  | zero =>
      rw [List.range_zero, List.mapM_nil]
      constructor
      · intro h
        obtain rfl := Except.ok.inj h
        exact ⟨rfl, trivial⟩
      · rintro ⟨hlength, -⟩
        obtain rfl := List.length_eq_zero_iff.mp hlength
        rfl
  | succ count ih =>
      have hshift : (fun i => memory.readByte (address + Nat.succ i))
          = fun i => memory.readByte (address + 1 + i) := by
        funext i
        rw [Nat.add_right_comm, Nat.add_assoc]
      rw [List.range_succ_eq_map, List.mapM_cons, List.mapM_map]
      simp only [Function.comp_def, hshift]
      constructor
      · intro h
        obtain ⟨b, hb, h⟩ := bind_eq_ok.mp h
        obtain ⟨rest, hrest, h⟩ := bind_eq_ok.mp h
        obtain rfl := Except.ok.inj h
        obtain ⟨hlength, hholds⟩ := ih.mp hrest
        exact ⟨congrArg Nat.succ hlength, hb, hholds⟩
      · rintro ⟨hlength, hholds⟩
        obtain ⟨b, rest, rfl⟩ := List.exists_cons_of_length_eq_add_one hlength
        refine bind_eq_ok.mpr ⟨b, hholds.1, bind_eq_ok.mpr ⟨rest, ?_, rfl⟩⟩
        exact ih.mpr ⟨Nat.succ.inj hlength, hholds.2⟩

end Memory

namespace Operand

/-- An operand is decoded where its encoding stands. -/
theorem decode_eq_ok {memory : Memory} {address next : Nat} {kind : OperandKind}
    {operand : Operand} :
    decode memory address kind = .ok (operand, next) ↔
      operand.kind = kind ∧ memory.Holds address operand.encode ∧
        next = address + operand.encode.length := by
  cases kind with
  | large =>
      constructor
      · intro h
        obtain ⟨word, hword, h⟩ := bind_eq_ok.mp h
        obtain ⟨rfl, rfl⟩ := Prod.mk.inj (Except.ok.inj h)
        exact ⟨rfl, Memory.readWord_eq_ok.mp hword, rfl⟩
      · rintro ⟨hkind, hholds, rfl⟩
        cases operand with
        | large value => exact bind_eq_ok.mpr ⟨value, Memory.readWord_eq_ok.mpr hholds, rfl⟩
        | small _ | var _ => exact nomatch hkind
  | small =>
      constructor
      · intro h
        obtain ⟨value, hvalue, h⟩ := bind_eq_ok.mp h
        obtain ⟨rfl, rfl⟩ := Prod.mk.inj (Except.ok.inj h)
        exact ⟨rfl, Memory.holds_singleton.mpr hvalue, rfl⟩
      · rintro ⟨hkind, hholds, rfl⟩
        cases operand with
        | small value => exact bind_eq_ok.mpr ⟨value, Memory.holds_singleton.mp hholds, rfl⟩
        | large _ | var _ => exact nomatch hkind
  | var =>
      constructor
      · intro h
        obtain ⟨number, hnumber, h⟩ := bind_eq_ok.mp h
        obtain ⟨rfl, rfl⟩ := Prod.mk.inj (Except.ok.inj h)
        exact ⟨rfl, Memory.holds_singleton.mpr hnumber, rfl⟩
      · rintro ⟨hkind, hholds, rfl⟩
        cases operand with
        | var number => exact bind_eq_ok.mpr ⟨number, Memory.holds_singleton.mp hholds, rfl⟩
        | large _ | small _ => exact nomatch hkind

/-- The operands that are read are those of the given types whose bytes stand there. -/
theorem decodeAll_eq_ok {memory : Memory} {address stop : Nat} {kinds : List OperandKind}
    {operands : List Operand} :
    decodeAll memory address kinds = .ok (operands, stop) ↔
      operands.map kind = kinds ∧ memory.Holds address (operands.flatMap encode) ∧
        stop = address + (operands.flatMap encode).length := by
  induction kinds generalizing address operands stop with
  | nil =>
      constructor
      · intro h
        obtain ⟨rfl, rfl⟩ := Prod.mk.inj (Except.ok.inj h)
        exact ⟨rfl, trivial, rfl⟩
      · rintro ⟨hkinds, -, rfl⟩
        obtain rfl := List.map_eq_nil_iff.mp hkinds
        rfl
  | cons kind kinds ih =>
      constructor
      · intro h
        obtain ⟨⟨operand, next⟩, hoperand, h⟩ := bind_eq_ok.mp h
        obtain ⟨⟨others, stop'⟩, hothers, h⟩ := bind_eq_ok.mp h
        obtain ⟨rfl, rfl⟩ := Prod.mk.inj (Except.ok.inj h)
        obtain ⟨rfl, hholds, rfl⟩ := decode_eq_ok.mp hoperand
        obtain ⟨rfl, hrest, rfl⟩ := ih.mp hothers
        refine ⟨rfl, Memory.holds_append.mpr ⟨hholds, hrest⟩, ?_⟩
        rw [List.flatMap_cons, List.length_append, Nat.add_assoc]
      · rintro ⟨hkinds, hholds, rfl⟩
        obtain ⟨operand, others, rfl, hkind, hothers⟩ := List.map_eq_cons_iff.mp hkinds
        obtain ⟨hfirst, hrest⟩ := Memory.holds_append.mp hholds
        have hstop := ih.mpr ⟨hothers, hrest, rfl⟩
        rw [Nat.add_assoc, ← List.length_append] at hstop
        refine bind_eq_ok.mpr ⟨_, decode_eq_ok.mpr ⟨hkind, hfirst, rfl⟩, ?_⟩
        exact bind_eq_ok.mpr ⟨_, hstop, rfl⟩

end Operand

namespace Branch

/-- Short branch data is read off its byte, and written as it again. -/
theorem encode_short (b : UInt8) :
    b &&& 0x40 ≠ 0 →
      encode { condition := b &&& 0x80 != 0, offset := (b &&& 0x3f).toNat, short := true } = [b] := by
  revert b
  exact forall_byte (by decide +kernel)

/-- The first byte of a short branch is made of its condition and its offset. -/
theorem polarity_or (b : UInt8) :
    b &&& 0x40 = 0 →
      (if (b &&& 0x80 != 0) = true then 0x80 else 0 : UInt8) ||| (b &&& 0x3f) = b := by
  revert b
  exact forall_byte (by decide +kernel)

/-- An offset of fourteen bits comes back from its signed form. -/
theorem signedOffset_mod {bits : Nat} (h : bits < 0x4000) :
    (signedOffset bits % 0x4000).toNat = bits := by
  unfold signedOffset
  split <;> omega

/-- The two bytes of a long branch are made of its condition and its offset. -/
theorem encode_long {first second : UInt8} (h : first &&& 0x40 = 0) :
    encode { condition := first &&& 0x80 != 0,
             offset := signedOffset (256 * (first &&& 0x3f).toNat + second.toNat),
             short := false } = [first, second] := by
  have hhigh : (first &&& 0x3f).toNat < 0x40 := by
    rw [UInt8.toNat_and]
    exact Nat.lt_of_le_of_lt Nat.and_le_right (by decide)
  have hlow := second.toNat_lt
  have hlt : 256 * (first &&& 0x3f).toNat + second.toNat < 0x4000 := by omega
  have hbits := signedOffset_mod hlt
  have hdiv : (256 * (first &&& 0x3f).toNat + second.toNat) / 256 = (first &&& 0x3f).toNat := by
    omega
  have hmod : (256 * (first &&& 0x3f).toNat + second.toNat) % 256 = second.toNat := by omega
  simp only [encode, Bool.false_eq_true, if_false, hbits, hdiv, hmod]
  have hbyte (b : UInt8) : b.toNat.toUInt8 = b := UInt8.ofNat_toNat
  rw [hbyte, hbyte, polarity_or first h]

/-- Branch data is what it is written as. -/
theorem holds_of_decode {memory : Memory} {address length : Nat} {branch : Branch}
    (h : decode memory address = .ok (branch, length)) :
    memory.Holds address branch.encode ∧ length = branch.encode.length := by
  unfold decode at h
  obtain ⟨first, hfirst, h⟩ := bind_eq_ok.mp h
  split at h
  case isTrue hshort =>
      obtain ⟨rfl, rfl⟩ := Prod.mk.inj (Except.ok.inj h)
      rw [encode_short first hshort]
      exact ⟨Memory.holds_singleton.mpr hfirst, rfl⟩
  case isFalse hlong =>
      obtain ⟨second, hsecond, h⟩ := bind_eq_ok.mp h
      obtain ⟨rfl, rfl⟩ := Prod.mk.inj (Except.ok.inj h)
      rw [encode_long (not_not.mp hlong)]
      exact ⟨⟨hfirst, Memory.holds_singleton.mpr hsecond⟩, rfl⟩

end Branch

namespace Instruction

open OperandKind

/-- Types are read where type bytes stand whose slots begin with them. -/
theorem readKinds_eq_ok {memory : Memory} {address count : Nat} {kinds : List OperandKind} :
    readKinds memory address count = .ok kinds ↔
      ∃ bytes, bytes.length = count ∧ memory.Holds address bytes ∧
        leading (bytes.flatMap slots) = kinds := by
  constructor
  · intro h
    obtain ⟨bytes, hbytes, h⟩ := bind_eq_ok.mp h
    obtain ⟨hlength, hholds⟩ := Memory.mapM_readByte.mp hbytes
    exact ⟨bytes, hlength, hholds, Except.ok.inj h⟩
  · rintro ⟨bytes, hlength, hholds, rfl⟩
    exact bind_eq_ok.mpr ⟨bytes, Memory.mapM_readByte.mpr ⟨hlength, hholds⟩, rfl⟩

/-- There is a type byte at least where there is any. -/
theorem typeBytes_ne_zero (number : UInt8) : typeBytes number ≠ 0 := by
  unfold typeBytes
  split <;> decide

/-- How the part before the operands begins: its opcode bytes, and how many type bytes
come after them.  Without type bytes the opcode byte tells the types. -/
inductive Opening (version pc : Nat) : Head → List UInt8 → (types : Nat) → Prop where
  | long {byte : UInt8} (hbyte : byte < 0x80) :
      Opening version pc
        { form := .long, count := .op2, number := byte &&& 0x1f,
          kinds := [if byte &&& 0x40 ≠ 0 then .var else .small,
                    if byte &&& 0x20 ≠ 0 then .var else .small],
          next := pc + 1 } [byte] 0
  | ext {number : UInt8} {kinds : List OperandKind} (hversion : 5 ≤ version) :
      Opening version pc { form := .ext, count := .ext, number, kinds, next := pc + 3 }
        [0xbe, number] 1
  | one {byte : UInt8} {kind : OperandKind} (hlow : ¬ byte < 0x80)
      (hext : ¬ (byte = 0xbe ∧ 5 ≤ version)) (hbyte : byte < 0xc0)
      (hkind : OperandKind.ofBits? (byte >>> 4) = some kind) :
      Opening version pc
        { form := .short, count := .op1, number := byte &&& 0x0f, kinds := [kind],
          next := pc + 1 } [byte] 0
  | none {byte : UInt8} (hlow : ¬ byte < 0x80) (hext : ¬ (byte = 0xbe ∧ 5 ≤ version))
      (hbyte : byte < 0xc0) (hkind : OperandKind.ofBits? (byte >>> 4) = .none) :
      Opening version pc
        { form := .short, count := .op0, number := byte &&& 0x0f, kinds := [], next := pc + 1 }
        [byte] 0
  | two {byte : UInt8} {kinds : List OperandKind} (hlow : ¬ byte < 0xc0) (hbyte : byte < 0xe0) :
      Opening version pc
        { form := .var, count := .op2, number := byte &&& 0x1f, kinds, next := pc + 2 } [byte] 1
  | any {byte : UInt8} {kinds : List OperandKind} (hlow : ¬ byte < 0xe0) :
      Opening version pc
        { form := .var, count := .var, number := byte &&& 0x1f, kinds,
          next := pc + 1 + typeBytes (byte &&& 0x1f) } [byte] (typeBytes (byte &&& 0x1f))

/-- **A head is read where its opening and its types stand.** -/
theorem readHead_eq_ok_iff {memory : Memory} {pc : Nat} {head : Head} :
    readHead memory pc = .ok head ↔
      ∃ opening types, Opening memory.version pc head opening types ∧
        memory.Holds pc opening ∧
        (types ≠ 0 → readKinds memory (pc + opening.length) types = .ok head.kinds) := by
  constructor
  · intro h
    unfold readHead at h
    obtain ⟨byte, hbyte, h⟩ := bind_eq_ok.mp h
    have hholds : memory.Holds pc [byte] := Memory.holds_singleton.mpr hbyte
    split at h
    case isTrue hlt =>
      obtain rfl := Except.ok.inj h
      exact ⟨[byte], 0, .long hlt, hholds, fun hne => absurd rfl hne⟩
    case isFalse hlow =>
    split at h
    case isTrue hext =>
      obtain ⟨number, hnumber, h⟩ := bind_eq_ok.mp h
      obtain ⟨kinds, hkinds, h⟩ := bind_eq_ok.mp h
      obtain rfl := Except.ok.inj h
      obtain ⟨rfl, hversion⟩ := hext
      exact ⟨_, 1, .ext hversion, ⟨hbyte, Memory.holds_singleton.mpr hnumber⟩, fun _ => hkinds⟩
    case isFalse hext =>
    split at h
    case isTrue hlt =>
      split at h
      case h_1 kind hkind =>
        obtain rfl := Except.ok.inj h
        exact ⟨[byte], 0, .one hlow hext hlt hkind, hholds, fun hne => absurd rfl hne⟩
      case h_2 hkind =>
        obtain rfl := Except.ok.inj h
        exact ⟨[byte], 0, .none hlow hext hlt hkind, hholds, fun hne => absurd rfl hne⟩
    case isFalse hlow' =>
    split at h
    case isTrue hlt =>
      obtain ⟨kinds, hkinds, h⟩ := bind_eq_ok.mp h
      obtain rfl := Except.ok.inj h
      exact ⟨[byte], 1, .two hlow' hlt, hholds, fun _ => hkinds⟩
    case isFalse hlow'' =>
      obtain ⟨kinds, hkinds, h⟩ := bind_eq_ok.mp h
      obtain rfl := Except.ok.inj h
      exact ⟨[byte], _, .any hlow'', hholds, fun _ => hkinds⟩
  · rintro ⟨opening, types, hopening, hholds, hkinds⟩
    unfold readHead
    cases hopening with
    | @long byte hbyte =>
        refine bind_eq_ok.mpr ⟨byte, hholds.1, ?_⟩
        rw [if_pos hbyte]
        rfl
    | @ext number kinds hversion =>
        refine bind_eq_ok.mpr ⟨0xbe, hholds.1, ?_⟩
        rw [if_neg (by decide), if_pos ⟨rfl, hversion⟩]
        refine bind_eq_ok.mpr ⟨number, hholds.2.1, ?_⟩
        exact bind_eq_ok.mpr ⟨kinds, hkinds Nat.one_ne_zero, rfl⟩
    | @one byte kind hlow hext hbyte hkind =>
        refine bind_eq_ok.mpr ⟨byte, hholds.1, ?_⟩
        rw [if_neg hlow, if_neg hext, if_pos hbyte, hkind]
        rfl
    | @none byte hlow hext hbyte hkind =>
        refine bind_eq_ok.mpr ⟨byte, hholds.1, ?_⟩
        rw [if_neg hlow, if_neg hext, if_pos hbyte, hkind]
        rfl
    | @two byte kinds hlow hbyte =>
        refine bind_eq_ok.mpr ⟨byte, hholds.1, ?_⟩
        rw [if_neg fun h => hlow (UInt8.lt_trans h (by decide)),
          if_neg fun ⟨h, _⟩ => hlow (h ▸ by decide), if_neg hlow, if_pos hbyte]
        exact bind_eq_ok.mpr ⟨kinds, hkinds Nat.one_ne_zero, rfl⟩
    | @any byte kinds hlow =>
        refine bind_eq_ok.mpr ⟨byte, hholds.1, ?_⟩
        rw [if_neg fun h => hlow (UInt8.lt_trans h (by decide)),
          if_neg fun ⟨h, _⟩ => hlow (h ▸ by decide),
          if_neg fun h => hlow (UInt8.lt_trans h (by decide)), if_neg hlow]
        exact bind_eq_ok.mpr ⟨kinds, hkinds (typeBytes_ne_zero _), rfl⟩

/-- The operands follow the opening and the types. -/
theorem Opening.next_eq {version pc types : Nat} {head : Head} {opening : List UInt8}
    (h : Opening version pc head opening types) : head.next = pc + opening.length + types := by
  cases h <;> rfl

/-- A store variable is read exactly where it is asked for, off its own byte. -/
theorem readStore_eq_ok_iff {memory : Memory} {address next : Nat} {stores : Bool}
    {store : Option UInt8} :
    readStore memory address stores = .ok (store, next) ↔
      store.isSome = stores ∧ memory.Holds address store.toList ∧
        next = address + store.toList.length := by
  constructor
  · intro h
    rcases readStore_eq_ok h with ⟨rfl, hlt, rfl, rfl⟩ | ⟨rfl, rfl, rfl⟩
    · exact ⟨rfl, Memory.holds_singleton.mpr (Memory.readByte_eq_ok.mpr ⟨hlt, rfl⟩), rfl⟩
    · exact ⟨rfl, trivial, rfl⟩
  · rintro ⟨rfl, hholds, rfl⟩
    cases store with
    | none => rfl
    | some target => exact bind_eq_ok.mpr ⟨target, Memory.holds_singleton.mp hholds, rfl⟩

/-- The bytes of the branch data, if there is any. -/
def branchBytes (branch : Option Branch) : List UInt8 :=
  (branch.map Branch.encode).getD []

/-- Branch data is read where its bytes stand. -/
theorem holds_of_readBranch {memory : Memory} {address next : Nat} {branches : Bool}
    {branch : Option Branch} (h : readBranch memory address branches = .ok (branch, next)) :
    memory.Holds address (branchBytes branch) ∧ next = address + (branchBytes branch).length := by
  rcases readBranch_eq_ok h with ⟨-, data, length, hdata, rfl, rfl⟩ | ⟨-, rfl, rfl⟩
  · obtain ⟨hholds, rfl⟩ := Branch.holds_of_decode hdata
    exact ⟨hholds, rfl⟩
  · exact ⟨trivial, rfl⟩

/-- Where the same branch data stands, the same is read. -/
theorem readBranch_of_holds {memory other : Memory} {address next : Nat} {branches : Bool}
    {branch : Option Branch} (h : readBranch memory address branches = .ok (branch, next))
    (hsize : other.size = memory.size) (hother : other.Holds address (branchBytes branch)) :
    readBranch other address branches = .ok (branch, next) := by
  rcases readBranch_eq_ok h with ⟨rfl, data, length, hdata, rfl, rfl⟩ | ⟨rfl, rfl, rfl⟩
  · obtain ⟨hholds, rfl⟩ := Branch.holds_of_decode hdata
    refine bind_eq_ok.mpr ⟨_, Branch.decode_congr hdata hsize fun i hle hlt => ?_, rfl⟩
    have hi : i - address < data.encode.length := by omega
    have hbyte := (hholds.byteAt_eq hi).2
    have hbyte' := (Memory.Holds.byteAt_eq hother hi).2
    rw [Nat.add_sub_cancel' hle] at hbyte hbyte'
    exact hbyte'.trans hbyte.symm
  · rfl

/-- The end of a text is found alike in memories that agree on it. -/
theorem textEnd_congr {memory other : Memory} {left address : Nat}
    (hsize : other.size = memory.size)
    (hbytes : ∀ i, address ≤ i → other.byteAt i = memory.byteAt i) :
    textEnd other left address = textEnd memory left address := by
  induction left generalizing address with
  | zero => rw [textEnd, textEnd, Memory.outOfBounds, Memory.outOfBounds, hsize]
  | succ left ih =>
      have hword : other.readWord address = memory.readWord address :=
        Memory.readWord_congr hsize (hbytes _ (Nat.le_refl _)) (hbytes _ (Nat.le_succ _))
      rw [textEnd, textEnd, hword, ih fun i hi => hbytes i (by omega)]

/-- A text is measured alike in memories that agree on it. -/
theorem readText_congr {memory other : Memory} {address : Nat} {hasText : Bool}
    (hsize : other.size = memory.size)
    (hbytes : ∀ i, address ≤ i → other.byteAt i = memory.byteAt i) :
    readText other address hasText = readText memory address hasText := by
  unfold readText textLength
  rw [textEnd_congr hsize hbytes, hsize]

/-- Text starts where the bytes before it end. -/
theorem start_of_readText {memory : Memory} {address next : Nat} {hasText : Bool}
    {text : Option Nat} (h : readText memory address hasText = .ok (text, next)) :
    text.getD next = address := by
  unfold readText at h
  cases hasText with
  | true =>
      obtain ⟨length, -, h⟩ := bind_eq_ok.mp h
      obtain ⟨rfl, rfl⟩ := Prod.mk.inj (Except.ok.inj h)
      rfl
  | false =>
      obtain ⟨rfl, rfl⟩ := Prod.mk.inj (Except.ok.inj h)
      rfl

end Instruction

end StoryMachine
