import StoryMachine.Proofs.LineInput
import StoryMachine.Proofs.Restoring

/-!
# Copying a table

There are three ways to copy: the table is cleared, its bytes are moved one at a time from the
first on, or they are all read before any is written.  The second way is asked for by a negative
size, and it is also taken where it makes no difference, that is where the copy begins no later
than the table.

**A forward copy that catches up with itself** repeats the bytes between the table and the copy.
When a byte is moved that has been written already, it is the byte that stood one such distance
before (`byteAt_set_forwardPlace`), and by induction on the count the place that a byte comes from
is found by counting round (`on_copyForward`).
-/

namespace StoryMachine

namespace Memory

variable {memory : Memory}

/-- The bytes of a slice are those that stand there. -/
theorem exists_slice {address length : Nat} (h : address + length ≤ memory.size) :
    ∃ bytes, memory.slice address length = .ok bytes ∧ bytes.length = length ∧
      memory.Holds address bytes := by
  have hsize : memory.bytes.size = memory.size := rfl
  have hlength : (memory.bytes.extract address (address + length)).toList.length = length := by
    rw [Array.length_toList, Array.size_extract]
    omega
  refine ⟨_, if_pos h, hlength, holds_of_byteAt fun i hi => ?_⟩
  have hlt : address + i < memory.bytes.size := by omega
  refine ⟨hlt, ?_⟩
  rw [byteAt, Array.getD, dif_pos hlt, Array.getElem_toList, Array.getElem_extract]
  rfl

end Memory

namespace Table

open Memory

/-! ## Moving bytes forwards -/

/-- The place from which a byte comes to place `i` of a forward copy.  Where the copy begins
behind the table, the bytes in between are gone through again and again. -/
def forwardPlace (source destination i : Nat) : Nat :=
  if source < destination then source + i % (destination - source) else source + i

/-- The first byte of a copy comes from the first byte of the table. -/
theorem forwardPlace_zero (source destination : Nat) :
    forwardPlace source destination 0 = source := by
  unfold forwardPlace
  rw [Nat.zero_mod, Nat.add_zero, ite_self]

/-- As long as the copy has not caught up with itself, it takes the bytes in their order. -/
theorem forwardPlace_of_add_le {source destination i : Nat}
    (h : destination ≤ source ∨ source + i < destination) :
    forwardPlace source destination i = source + i := by
  unfold forwardPlace
  split
  case isTrue hlt => rw [Nat.mod_eq_of_lt (by omega)]
  case isFalse => rfl

/-- Counting round one place further goes one place further, or back to the beginning. -/
theorem succ_mod_cases {d : Nat} (hd : 0 < d) (i : Nat) :
    (i % d + 1 < d ∧ (i + 1) % d = i % d + 1) ∨ (i % d + 1 = d ∧ (i + 1) % d = 0) := by
  have hlt := Nat.mod_lt i hd
  have hsucc : (i + 1) % d = (i % d + 1) % d := (Nat.mod_add_mod i d 1).symm
  by_cases hlast : i % d + 1 = d
  · right
    rw [hsucc, hlast]
    exact ⟨rfl, Nat.mod_self d⟩
  · left
    have hnext : i % d + 1 < d := by omega
    rw [hsucc]
    exact ⟨hnext, Nat.mod_eq_of_lt hnext⟩

/-- **One byte moved**: what the rest of the copy takes from memory as it is then, the whole copy
takes from memory as it was.  Where the copy has caught up, the byte is the one that has just been
moved. -/
theorem byteAt_set_forwardPlace (memory : Memory) {source destination : Nat}
    (h : destination < memory.dynamicCeiling) (i : Nat) :
    (memory.set destination (memory.byteAt source) h).byteAt
        (forwardPlace (source + 1) (destination + 1) i)
      = memory.byteAt (forwardPlace source destination (i + 1)) := by
  by_cases hlt : source < destination
  · have hrest : forwardPlace (source + 1) (destination + 1) i
        = source + 1 + i % (destination - source) := by
      rw [forwardPlace, if_pos (Nat.succ_lt_succ hlt), Nat.add_sub_add_right]
    have hwhole : forwardPlace source destination (i + 1)
        = source + (i + 1) % (destination - source) := if_pos hlt
    rw [hrest, hwhole]
    rcases succ_mod_cases (Nat.sub_pos_of_lt hlt) i with ⟨hnext, hmod⟩ | ⟨hlast, hmod⟩
    · rw [hmod, byteAt_set_of_ne _ _ _ _ _ (by omega)]
      congr 1
      omega
    · have hcaught : source + 1 + i % (destination - source) = destination := by omega
      rw [hmod, hcaught, byteAt_set_self, Nat.add_zero]
  · have hrest : forwardPlace (source + 1) (destination + 1) i = source + 1 + i :=
      forwardPlace_of_add_le (.inl (by omega))
    have hwhole : forwardPlace source destination (i + 1) = source + (i + 1) :=
      forwardPlace_of_add_le (.inl (Nat.not_lt.mp hlt))
    rw [hrest, hwhole, byteAt_set_of_ne _ _ _ _ _ (by omega)]
    congr 1
    omega

/-- **A forward copy**, of any number of bytes. -/
theorem on_copyForward {count source destination : Nat} {draft : Draft}
    (hsource : source + count ≤ draft.memory.size)
    (hdestination : destination + count ≤ draft.memory.dynamicCeiling) :
    ∃ after, Work.on (copyForward count source destination) draft
        = (.ok (), { draft with memory := after }) ∧
      (∀ i, i < count → after.byteAt (destination + i)
        = draft.memory.byteAt (forwardPlace source destination i)) ∧
      SameOff (fun place => destination ≤ place ∧ place < destination + count)
        draft.memory after := by
  induction count generalizing source destination draft with
  | zero => exact ⟨draft.memory, rfl, fun i hi => absurd hi (Nat.not_lt_zero i), .refl _ _⟩
  | succ count ih =>
      have hlt : destination < draft.memory.dynamicCeiling := by omega
      have hread : draft.memory.readByte source = .ok (draft.memory.byteAt source) :=
        readByte_eq_ok.mpr ⟨by omega, rfl⟩
      let middle := draft.memory.set destination (draft.memory.byteAt source) hlt
      have hsize : middle.size = draft.memory.size := size_set _ _ _ hlt
      obtain ⟨after, hrest, hbytes, hsame⟩ :=
        @ih (source + 1) (destination + 1) { draft with memory := middle } (by
          show source + 1 + count ≤ middle.size
          omega) (by
          show destination + 1 + count ≤ draft.memory.dynamicCeiling
          omega)
      have hfirst : SameOff (· = destination) draft.memory middle := sameOff_set _ hlt rfl
      refine ⟨after, ?_, fun i hi => ?_, ?_⟩
      · have hlook : Work.on (Edit.look (·.readByte source)) draft
            = (.ok (draft.memory.byteAt source), draft) := by
          rw [Edit.on_look, hread]
        rw [copyForward, Work.on_bind_of_ok hlook,
          Work.on_bind_of_ok (Edit.on_writeByte_of_lt hlt _)]
        exact hrest
      · cases i with
        | zero =>
            rw [Nat.add_zero, hsame.byteAt_eq destination (by omega), forwardPlace_zero]
            exact byteAt_set_self _ _ _ hlt
        | succ i =>
            have hbyte := hbytes i (Nat.lt_of_succ_lt_succ hi)
            rw [Nat.add_assoc, Nat.add_comm 1 i] at hbyte
            rw [hbyte]
            exact byteAt_set_forwardPlace draft.memory hlt i
      · refine (hfirst.mono fun place hplace => ?_).trans (hsame.mono fun place hplace => ?_)
        · omega
        · omega

/-! ## All three ways -/

/-- How many bytes a size stands for. -/
def bytesOf (size : Word) : Nat :=
  size.signed.natAbs

/-- Where the bytes are written: a table that is copied to address zero is cleared in place. -/
def target (first second : Word) : Nat :=
  if second = 0 then first.toNat else second.toNat

/-- The byte that comes to place `i` of the copy.  Only a forward copy into the table itself
repeats bytes. -/
def copied (memory : Memory) (first second size : Word) (i : Nat) : UInt8 :=
  if second = 0 then 0
  else if size.signed < 0 ∧ first < second ∧ second.toNat < first.toNat + bytesOf size then
    memory.byteAt (first.toNat + i % (second.toNat - first.toNat))
  else memory.byteAt (first.toNat + i)

variable {memory : Memory} {first second size : Word}

/-- Where a forward copy is made, it takes each byte from its place. -/
theorem byteAt_forwardPlace {i : Nat} (hsecond : second ≠ 0) (hi : i < bytesOf size)
    (h : size.signed < 0 ∨ second ≤ first) :
    memory.byteAt (forwardPlace first.toNat second.toNat i)
      = copied memory first second size i := by
  rw [copied, if_neg hsecond]
  by_cases hinto : size.signed < 0 ∧ first < second ∧ second.toNat < first.toNat + bytesOf size
  · rw [if_pos hinto, forwardPlace, if_pos (UInt16.lt_iff_toNat_lt.mp hinto.2.1)]
  · rw [if_neg hinto, forwardPlace_of_add_le]
    rcases h with hnegative | hle
    · by_cases hlt : first < second
      · right
        have hapart : ¬second.toNat < first.toNat + bytesOf size := fun hnear =>
          hinto ⟨hnegative, hlt, hnear⟩
        omega
      · exact .inl (UInt16.le_iff_toNat_le.mp (UInt16.not_lt.mp hlt))
    · exact .inl (UInt16.le_iff_toNat_le.mp hle)

/-- Bytes written from a place on are found there. -/
theorem on_writeBytes_copied {draft : Draft} {address : Nat} {bytes : List UInt8}
    {byte : Nat → UInt8} (hbytes : ∀ i (hi : i < bytes.length), bytes[i] = byte i)
    (h : address + bytes.length ≤ draft.memory.dynamicCeiling) :
    ∃ after, Work.on (Edit.writeBytes address bytes) draft
        = (.ok (), { draft with memory := after }) ∧
      (∀ i, i < bytes.length → after.byteAt (address + i) = byte i) ∧
      SameOff (fun place => address ≤ place ∧ place < address + bytes.length)
        draft.memory after := by
  obtain ⟨after, hwrite, hholds, hsame⟩ := Edit.on_writeBytes_of_le h
  exact ⟨after, hwrite, fun i hi => (hholds.byteAt_eq hi).2.trans (hbytes i hi), hsame⟩

/-- **The law of copying**, as work on memory. -/
theorem on_copy {draft : Draft} (hsource : first.toNat + bytesOf size ≤ draft.memory.size)
    (htarget : target first second + bytesOf size ≤ draft.memory.dynamicCeiling) :
    ∃ after, Work.on (copy first second size) draft = (.ok (), { draft with memory := after }) ∧
      (∀ i, i < bytesOf size → after.byteAt (target first second + i)
        = copied draft.memory first second size i) ∧
      SameOff (fun place => target first second ≤ place ∧
        place < target first second + bytesOf size) draft.memory after := by
  unfold copy
  by_cases hsecond : second = 0
  · have hplace : target first second = first.toNat := if_pos hsecond
    have hlength : (List.replicate (bytesOf size) (0 : UInt8)).length = bytesOf size :=
      List.length_replicate
    have hzero : ∀ i (hi : i < (List.replicate (bytesOf size) (0 : UInt8)).length),
        (List.replicate (bytesOf size) (0 : UInt8))[i]
          = copied draft.memory first second size i := by
      intro i hi
      rw [List.getElem_replicate, copied, if_pos hsecond]
    rw [if_pos hsecond, hplace]
    rw [hplace, ← hlength] at htarget
    obtain ⟨after, hwrite, hbytes, hsame⟩ := on_writeBytes_copied hzero htarget
    rw [hlength] at hbytes hsame
    exact ⟨after, hwrite, hbytes, hsame⟩
  · have hplace : target first second = second.toNat := if_neg hsecond
    rw [if_neg hsecond, hplace]
    rw [hplace] at htarget
    by_cases hforward : size.signed < 0 ∨ second ≤ first
    · rw [if_pos hforward]
      obtain ⟨after, hcopy, hbytes, hsame⟩ := on_copyForward hsource htarget
      exact ⟨after, hcopy,
        fun i hi => (hbytes i hi).trans (byteAt_forwardPlace hsecond hi hforward), hsame⟩
    · rw [if_neg hforward]
      obtain ⟨bytes, hslice, hlength, hholds⟩ := exists_slice hsource
      have hlook : Work.on (Edit.look (·.slice first.toNat (bytesOf size))) draft
          = (.ok bytes, draft) := by
        rw [Edit.on_look, hslice]
      have hintact : ∀ i (hi : i < bytes.length),
          bytes[i] = copied draft.memory first second size i := by
        intro i hi
        have hkept : ¬(size.signed < 0 ∧ first < second ∧
            second.toNat < first.toNat + bytesOf size) := fun hinto => hforward (.inl hinto.1)
        rw [copied, if_neg hsecond, if_neg hkept]
        exact (hholds.byteAt_eq hi).2.symm
      rw [← hlength] at htarget
      obtain ⟨after, hwrite, hbytes, hsame⟩ := on_writeBytes_copied hintact htarget
      rw [hlength] at hbytes hsame
      exact ⟨after, (Work.on_bind_of_ok hlook).trans hwrite, hbytes, hsame⟩

/-- **Copying a table.**  If the table lies in memory and the copy in dynamic memory, copying goes
well.  To address zero, the table is filled with zeros; with a size that is not negative the copy
has the bytes that were in the table, wherever the two overlap; with a negative size it has them
too, unless it begins inside the table, and then it repeats the bytes in front of it.  All other
bytes stay, and an instruction that copies a table does no more than this. -/
theorem table_copied (hsource : first.toNat + bytesOf size ≤ memory.size)
    (htarget : target first second + bytesOf size ≤ memory.dynamicCeiling) :
    ∃ after, (copy first second size).run memory = (.ok (), { memory := after }) ∧
      (∀ i, i < bytesOf size →
        after.byteAt (target first second + i) = copied memory first second size i) ∧
      SameOff (fun place => target first second ≤ place ∧
        place < target first second + bytesOf size) memory after ∧
      ∀ {W : Type} (host : Host (StateM W)) (w : W) (machine : Machine)
        (instruction : Instruction), machine.memory = memory → instruction.opcode = .copyTable →
        machine.play host (Play.perform instruction [first, second, size]) w
          = ((.ok (), { machine with memory := after }), w) := by
  obtain ⟨after, hcopy, hbytes, hsame⟩ := @on_copy first second size { memory } hsource htarget
  refine ⟨after, hcopy, hbytes, hsame, ?_⟩
  rintro W host w machine instruction rfl hopcode
  rw [Play.perform, Machine.play_bind_of_ok (Machine.play_get machine host w), hopcode]
  exact Machine.play_edit_of_ok hcopy

/-- A memory with the bytes 1 and 2 in front of five zeros. -/
def striped : Memory :=
  Machine.quitter.memory.setWord 65 0x0102 (by decide)

/-- Five bytes are copied forwards by two places. -/
theorem table_copied_striped :
    bytesOf 0xfffb = 5 ∧ ∃ after, (copy 65 67 0xfffb).run striped = (.ok (), { memory := after }) ∧
      ∀ i, i < 5 → after.byteAt (67 + i) = if i % 2 = 0 then 1 else 2 := by
  obtain ⟨after, hcopy, hbytes, -⟩ := @table_copied striped 65 67 0xfffb (by decide +kernel)
    (by decide +kernel)
  refine ⟨by decide, after, hcopy, fun i hi => (hbytes i hi).trans ?_⟩
  revert i
  decide +kernel

end Table

end StoryMachine
