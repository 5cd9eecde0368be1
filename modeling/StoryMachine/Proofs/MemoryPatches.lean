import StoryMachine.Proofs.LineBreaking

/-!
# Patches of memory

What an instruction writes comes down to a few rows of bytes.  `Patched` says of two memories that
these rows stand in the second, and that it is like the first everywhere else.

Such rows can be told backwards: work that went well has written all of its bytes.  For a stream
into memory that is closed, these are the length of the record, the codes that were waiting, and
the record of length zero that ends the table (`patched_of_close`).
-/

namespace StoryMachine

theorem Word.length_toBytes (word : Word) : word.toBytes.length = 2 := rfl

/-- A row of bytes at an address. -/
structure Patch where
  address : Nat
  bytes : List UInt8
  deriving DecidableEq

namespace Patch

/-- The addresses of its bytes. -/
def Covers (patch : Patch) (address : Nat) : Prop :=
  patch.address ≤ address ∧ address < patch.address + patch.bytes.length

/-- Its byte at an address. -/
def byteAt? (patch : Patch) (address : Nat) : Option UInt8 :=
  if patch.address ≤ address then patch.bytes[address - patch.address]? else none

/-- A byte of a patch is at one of its addresses. -/
theorem covers_of_byteAt? {patch : Patch} {address : Nat} {b : UInt8}
    (h : patch.byteAt? address = some b) :
    ∃ i, ∃ hi : i < patch.bytes.length, address = patch.address + i ∧ patch.bytes[i] = b := by
  unfold byteAt? at h
  split at h
  case isTrue hle =>
    obtain ⟨hi, hb⟩ := List.getElem?_eq_some_iff.mp h
    exact ⟨_, hi, (Nat.add_sub_of_le hle).symm, hb⟩
  case isFalse => exact nomatch h

/-- A patch has a byte at each of its addresses. -/
theorem isSome_byteAt? {patch : Patch} {address : Nat} (h : patch.Covers address) :
    (patch.byteAt? address).isSome = true := by
  obtain ⟨hle, hlt⟩ := h
  rw [byteAt?, if_pos hle, List.getElem?_eq_getElem (by omega)]
  rfl

/-- Patches without a common address. -/
def Apart (patch other : Patch) : Prop :=
  ∀ address, patch.Covers address → ¬other.Covers address

/-- Patches that end before each other are apart. -/
theorem apart_of_le {patch other : Patch}
    (h : patch.address + patch.bytes.length ≤ other.address ∨
      other.address + other.bytes.length ≤ patch.address) : patch.Apart other := by
  rintro address ⟨hle, hlt⟩ ⟨hle', hlt'⟩
  omega

end Patch

namespace Memory

/-- Memory in which patches stand, and which is like another everywhere else. -/
structure Patched (patches : List Patch) (memory after : Memory) : Prop where
  holds : ∀ patch ∈ patches, after.Holds patch.address patch.bytes
  sameOff : SameOff (fun address => ∃ patch ∈ patches, patch.Covers address) memory after

variable {patches others : List Patch} {memory middle after : Memory}

/-- Memory without patches is as it was. -/
theorem Patched.refl (memory : Memory) : Patched [] memory memory where
  holds := fun _ hpatch => nomatch hpatch
  sameOff := .refl _ _

/-- Where a patch has a byte, that byte is found. -/
theorem Patched.byteAt_eq (h : Patched patches memory after) {patch : Patch}
    (hpatch : patch ∈ patches) {address : Nat} {b : UInt8}
    (hb : patch.byteAt? address = some b) : after.byteAt address = b := by
  obtain ⟨i, hi, rfl, rfl⟩ := Patch.covers_of_byteAt? hb
  exact ((h.holds patch hpatch).byteAt_eq hi).2

/-- Where none has, nothing has changed. -/
theorem Patched.byteAt_eq_of_none (h : Patched patches memory after) {address : Nat}
    (hnone : ∀ patch ∈ patches, patch.byteAt? address = none) :
    after.byteAt address = memory.byteAt address := by
  refine h.sameOff.byteAt_eq address ?_
  rintro ⟨patch, hpatch, hcovers⟩
  have hsome := Patch.isSome_byteAt? hcovers
  rw [hnone patch hpatch] at hsome
  exact nomatch hsome

/-- Patches that come later may cover all of some earlier ones, and have to be apart from the
others. -/
theorem Patched.over {gone : List Patch} (h : Patched (patches ++ gone) memory middle)
    (h' : Patched others middle after)
    (hgone : ∀ patch ∈ gone, ∀ address, patch.Covers address →
      ∃ other ∈ others, other.Covers address)
    (hapart : ∀ patch ∈ patches, ∀ other ∈ others, patch.Apart other) :
    Patched (patches ++ others) memory after := by
  constructor
  · intro patch hpatch
    rcases List.mem_append.mp hpatch with hpatch | hpatch
    · have hstood := h.holds patch (List.mem_append_left _ hpatch)
      refine hstood.of_sameOff h'.sameOff fun i hi => ?_
      rintro ⟨other, hother, hcovers⟩
      have hhere : patch.Covers (patch.address + i) := ⟨Nat.le_add_right _ _, by omega⟩
      exact hapart patch hpatch other hother _ hhere hcovers
    · exact h'.holds patch hpatch
  · refine (h.sameOff.mono ?_).trans (h'.sameOff.mono ?_)
    · rintro address ⟨patch, hpatch, hcovers⟩
      rcases List.mem_append.mp hpatch with hpatch | hpatch
      · exact ⟨patch, List.mem_append_left _ hpatch, hcovers⟩
      · obtain ⟨other, hother, hcovers'⟩ := hgone patch hpatch address hcovers
        exact ⟨other, List.mem_append_right _ hother, hcovers'⟩
    · rintro address ⟨other, hother, hcovers⟩
      exact ⟨other, List.mem_append_right _ hother, hcovers⟩

/-- Patches apart from each other stand side by side. -/
theorem Patched.trans (h : Patched patches memory middle) (h' : Patched others middle after)
    (hapart : ∀ patch ∈ patches, ∀ other ∈ others, patch.Apart other) :
    Patched (patches ++ others) memory after := by
  rw [← List.append_nil patches] at h
  exact h.over h' (fun _ hpatch => nomatch hpatch) hapart

/-- Two patches next to each other are one. -/
theorem Patched.join {address : Nat} {bytes more : List UInt8}
    (h : Patched (⟨address, bytes⟩ :: ⟨address + bytes.length, more⟩ :: patches) memory after) :
    Patched (⟨address, bytes ++ more⟩ :: patches) memory after := by
  constructor
  · intro patch hpatch
    rcases List.mem_cons.mp hpatch with rfl | hpatch
    · exact holds_append.mpr ⟨h.holds _ List.mem_cons_self,
        h.holds _ (List.mem_cons_of_mem _ List.mem_cons_self)⟩
    · exact h.holds patch (List.mem_cons_of_mem _ (List.mem_cons_of_mem _ hpatch))
  · refine h.sameOff.mono ?_
    rintro place ⟨patch, hpatch, hle, hlt⟩
    rcases List.mem_cons.mp hpatch with rfl | hpatch
    · refine ⟨_, List.mem_cons_self, hle, Nat.lt_of_lt_of_le hlt ?_⟩
      rw [List.length_append]
      exact Nat.add_le_add_left (Nat.le_add_right _ _) address
    · rcases List.mem_cons.mp hpatch with rfl | hpatch
      · refine ⟨_, List.mem_cons_self, Nat.le_trans (Nat.le_add_right _ _) hle, ?_⟩
        rw [List.length_append, ← Nat.add_assoc]
        exact hlt
      · exact ⟨patch, List.mem_cons_of_mem _ hpatch, hle, hlt⟩

/-- A byte that is set is a patch. -/
theorem patched_set {address : Nat} (value : UInt8) (h : address < memory.dynamicCeiling) :
    Patched [⟨address, [value]⟩] memory (memory.set address value h) := by
  constructor
  · intro patch hpatch
    obtain rfl := List.mem_singleton.mp hpatch
    refine holds_singleton.mpr (readByte_eq_ok.mpr ⟨?_, byteAt_set_self _ _ _ h⟩)
    rw [size_set]
    exact Nat.lt_of_lt_of_le h memory.ceiling_le_size
  · refine sameOff_set value h ⟨_, List.mem_singleton_self _, ?_⟩
    exact ⟨Nat.le_refl _, Nat.lt_succ_self _⟩

/-- A word that is set is a patch of two bytes. -/
theorem patched_setWord {address : Nat} (value : Word) (h : address + 1 < memory.dynamicCeiling) :
    Patched [⟨address, value.toBytes⟩] memory (memory.setWord address value h) := by
  constructor
  · intro patch hpatch
    obtain rfl := List.mem_singleton.mp hpatch
    refine holds_toBytes_iff.mpr ⟨?_, wordAt_setWord value h⟩
    rw [size_congr (show (memory.setWord address value h).story = memory.story from rfl)]
    exact Nat.lt_of_lt_of_le h memory.ceiling_le_size
  · refine sameOff_setWord value h ⟨_, List.mem_singleton_self _, ?_⟩
      ⟨_, List.mem_singleton_self _, ?_⟩
    · exact ⟨Nat.le_refl _, Nat.lt_add_of_pos_right (show 0 < 2 by decide)⟩
    · exact ⟨Nat.le_succ _, Nat.lt_succ_self _⟩

end Memory

open Memory

namespace Edit

open Work

variable {draft after : Draft}

/-- A byte that was written without a fault stands in memory. -/
theorem patched_of_writeByte {address : Nat} {value : UInt8}
    (h : on (writeByte address value) draft = (.ok (), after)) :
    ∃ memory, after = { draft with memory } ∧ Patched [⟨address, [value]⟩] draft.memory memory := by
  by_cases hlt : address < draft.memory.dynamicCeiling
  · rw [on_writeByte_of_lt hlt] at h
    cases h
    exact ⟨_, rfl, patched_set value hlt⟩
  · rw [on_writeByte_of_le (Nat.not_lt.mp hlt)] at h
    exact nomatch h

/-- A word that was written is a patch of two bytes. -/
theorem patched_of_writeWord {address : Nat} {value : Word}
    (h : on (writeWord address value) draft = (.ok (), after)) :
    ∃ memory, after = { draft with memory } ∧
      Patched [⟨address, value.toBytes⟩] draft.memory memory := by
  by_cases hlt : address + 1 < draft.memory.dynamicCeiling
  · rw [on_writeWord_of_lt hlt] at h
    cases h
    exact ⟨_, rfl, patched_setWord value hlt⟩
  · obtain ⟨place, hfails⟩ := on_writeWord_of_le (Nat.not_lt.mp hlt) value
    rw [hfails] at h
    exact nomatch h

end Edit

namespace MemoryStream

open Work

variable {stream : MemoryStream} {draft : Draft} {after : Recording}

/-- A stream that worked on memory stays as it was. -/
theorem onMemory_ok {α : Type} {edit : Edit α} {a : α}
    (h : on (onMemory edit) { stream, draft } = (.ok a, after)) :
    ∃ draft', on edit draft = (.ok a, draft') ∧ after = { stream, draft := draft' } := by
  rw [on_onMemory] at h
  rcases hedit : on edit draft with ⟨outcome, draft'⟩
  rw [hedit] at h
  cases h
  exact ⟨draft', rfl, rfl⟩

/-- **One code** goes behind the others, and then the length of the record is written. -/
theorem patched_of_writeCode {code : Word}
    (h : on (writeCode code) { stream, draft } = (.ok (), after)) :
    ∃ memory, after = { stream := { stream with length := stream.length + 1 }
                        draft := { draft with memory } } ∧
      Patched [⟨stream.record + 2 + stream.length, [byteOf code]⟩,
        ⟨stream.record, Word.toBytes (stream.length + 1).toUInt16⟩] draft.memory memory := by
  unfold writeCode at h
  rw [on_bind_of_ok (on_get _)] at h
  obtain ⟨_, _, hbyte, h⟩ := on_bind_ok h
  obtain ⟨_, hwrite, rfl⟩ := onMemory_ok hbyte
  obtain ⟨middle, rfl, hfirst⟩ := Edit.patched_of_writeByte hwrite
  rw [on_bind_of_ok (on_change _ _)] at h
  obtain ⟨_, hword, rfl⟩ := onMemory_ok h
  obtain ⟨memory, rfl, hsecond⟩ := Edit.patched_of_writeWord hword
  refine ⟨memory, rfl, hfirst.trans hsecond ?_⟩
  intro patch hpatch other hother
  obtain rfl := List.mem_singleton.mp hpatch
  obtain rfl := List.mem_singleton.mp hother
  exact Patch.apart_of_le (.inr (Nat.le_add_right _ _))

/-- The record of a stream with more codes in it. -/
def filled (stream : MemoryStream) (codes : List Word) : List Patch :=
  [⟨stream.record + 2 + stream.length, codes.map byteOf⟩,
    ⟨stream.record, Word.toBytes (stream.length + codes.length).toUInt16⟩]

/-- The record of length zero that stands behind it. -/
def ended (stream : MemoryStream) (codes : List Word) : List Patch :=
  [⟨stream.record + 2 + (stream.length + codes.length), Word.toBytes 0⟩]

/-- A record and the end of the table behind it are apart. -/
theorem apart_filled_ended (stream : MemoryStream) (codes : List Word) :
    ∀ patch ∈ stream.filled codes, ∀ other ∈ stream.ended codes, patch.Apart other := by
  intro patch hpatch other hother
  obtain rfl := List.mem_singleton.mp hother
  refine Patch.apart_of_le (.inl ?_)
  rcases List.mem_pair.mp hpatch with rfl | rfl
  · simp only [List.length_map]
    omega
  · simp only [Word.length_toBytes]
    omega

/-- **Codes**, at least one: all their bytes stand behind the others, and the length of the record
is the last one that was written.  The length is written over by each of them, the bytes before are
not. -/
theorem patched_of_writeCodes {code : Word} {rest : List Word}
    (h : on (writeCodes (code :: rest)) { stream, draft } = (.ok (), after)) :
    ∃ memory, after = { stream := { stream with length := stream.length + (code :: rest).length }
                        draft := { draft with memory } } ∧
      Patched (stream.filled (code :: rest)) draft.memory memory := by
  induction rest generalizing code stream draft with
  | nil =>
      obtain ⟨_, _, hcode, h⟩ := on_bind_ok h
      obtain ⟨memory, rfl, hpatched⟩ := patched_of_writeCode hcode
      cases h
      exact ⟨memory, rfl, hpatched⟩
  | cons next rest ih =>
      obtain ⟨_, _, hcode, h⟩ := on_bind_ok h
      obtain ⟨middle, rfl, hfirst⟩ := patched_of_writeCode hcode
      obtain ⟨memory, hafter, hrest⟩ := ih h
      have hlength : stream.length + 1 + (next :: rest).length
          = stream.length + (code :: next :: rest).length := by
        rw [@List.length_cons _ code, Nat.add_assoc, Nat.add_comm 1]
      unfold filled at hrest ⊢
      dsimp only at hafter hrest
      rw [hlength] at hafter hrest
      refine ⟨memory, hafter, Patched.join (@Patched.over [_] _ _ _ _ _ hfirst hrest ?_ ?_)⟩
      · intro patch hpatch address hcovers
        obtain rfl := List.mem_singleton.mp hpatch
        exact ⟨_, List.mem_cons_of_mem _ (List.mem_singleton_self _), hcovers⟩
      · intro patch hpatch other hother
        obtain rfl := List.mem_singleton.mp hpatch
        rcases List.mem_pair.mp hother with rfl | rfl
        · exact Patch.apart_of_le (.inl (Nat.le_refl _))
        · exact Patch.apart_of_le (.inr (Nat.le_add_right _ _))

/-- What closing writes: if there is a width, the codes that wait, the length that the record has
then, and the record of length zero that ends the table. -/
def closing (stream : MemoryStream) : List Patch :=
  if stream.width.isNone then []
  else if stream.line = [] then [⟨stream.record, Word.toBytes 0⟩]
  else stream.filled stream.line ++ stream.ended stream.line

/-- A table with a width is closed by what waits and its end. -/
theorem on_close_of_isSome (hwidth : stream.width.isSome = true) (draft : Draft) :
    on close { stream, draft }
      = on (do emitRest stream.line; endTable stream.table) { stream, draft } := by
  unfold close emitRest endTable
  rw [on_bind_of_ok (on_get _)]
  dsimp only
  rw [if_pos hwidth]
  cases stream.line.isEmpty <;> rfl

/-- A line is emitted as one more record, and the next one is begun behind it. -/
theorem patched_of_emitLine {code : Word} {rest : List Word}
    (h : on (emitLine (code :: rest)) { stream, draft } = (.ok (), after)) :
    after.stream.record = stream.record + 2 + (stream.length + (code :: rest).length) ∧
      Patched (stream.filled (code :: rest) ++ stream.ended (code :: rest))
        draft.memory after.draft.memory := by
  obtain ⟨_, _, hcodes, h⟩ := on_bind_ok h
  obtain ⟨middle, rfl, hfirst⟩ := patched_of_writeCodes hcodes
  unfold nextRecord at h
  rw [on_bind_of_ok (on_change _ _), on_bind_of_ok (on_get _)] at h
  obtain ⟨_, hwrite, rfl⟩ := onMemory_ok h
  obtain ⟨memory, rfl, hlast⟩ := Edit.patched_of_writeWord hwrite
  exact ⟨rfl, hfirst.trans hlast (apart_filled_ended stream (code :: rest))⟩

/-- The end of a table is a patch of two zeros. -/
theorem patched_of_endTable {table : Nat}
    (h : on (endTable table) { stream, draft } = (.ok (), after)) :
    Patched [⟨stream.record, Word.toBytes 0⟩] draft.memory after.draft.memory := by
  unfold endTable at h
  rw [on_bind_of_ok (on_get _)] at h
  obtain ⟨_, _, hword, h⟩ := on_bind_ok h
  obtain ⟨_, hwrite, rfl⟩ := onMemory_ok hword
  obtain ⟨memory, rfl, hpatched⟩ := Edit.patched_of_writeWord hwrite
  cases h
  exact hpatched

/-- **The law of closing**, told backwards. -/
theorem patched_of_close {stream' : MemoryStream} {draft' : Draft}
    (h : on (stream.run close) draft = (.ok (.ok (), stream'), draft')) :
    Patched stream.closing draft.memory draft'.memory := by
  rw [on_run] at h
  rcases hclose : on close { stream, draft } with ⟨outcome, recording⟩
  rw [hclose] at h
  cases h
  unfold closing
  cases hwidth : stream.width with
  | none =>
      have hsilent : recording.draft.memory = draft.memory := by
        unfold close at hclose
        rw [on_bind_of_ok (on_get _)] at hclose
        dsimp only at hclose
        rw [hwidth] at hclose
        cases hclose
        rfl
      rw [hsilent]
      exact .refl draft.memory
  | some width =>
      rw [on_close_of_isSome (by rw [hwidth]; rfl)] at hclose
      obtain ⟨_, middle, hrest, hend⟩ := on_bind_ok hclose
      simp only [Option.isNone_some, Bool.false_eq_true, if_false]
      cases hline : stream.line with
      | nil =>
          rw [hline] at hrest
          cases hrest
          exact patched_of_endTable hend
      | cons code rest =>
          have hfull : ¬((code :: rest).isEmpty = true) := Bool.false_ne_true
          rw [hline, emitRest, if_neg hfull, on_bind_of_ok (on_change _ _)] at hrest
          obtain ⟨hrecord, hemitted⟩ := patched_of_emitLine hrest
          have hended := patched_of_endTable hend
          rw [hrecord] at hended
          exact hemitted.over hended (fun patch hpatch address hcovers => ⟨patch, hpatch, hcovers⟩)
            (apart_filled_ended stream (code :: rest))

end MemoryStream

end StoryMachine
