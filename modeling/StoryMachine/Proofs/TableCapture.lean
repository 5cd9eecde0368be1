import StoryMachine.Proofs.ObjectLinks
import StoryMachine.Proofs.Overwriting
import StoryMachine.Proofs.SnapshotLength

/-!
# A table that text is captured in

A stream into memory without a width keeps two things in step with each other: the
length that it remembers, and the table.  `OpenTable` is what both are to say, the
codes that have been printed so far.  `OpenTable.stream` is the stream that goes with
it, and `OpenTable.HeldBy` says that memory has the table: a word with the number of
codes, and behind it a byte for each of them.

**The law of a print** (`on_print`) is that the codes are added to the table, and that
nothing changes outside the part of it that has been written.  It comes from the law of
one code (`on_writeCode`), in which the word is written after the byte.
-/

namespace StoryMachine

namespace Memory

variable {touched : Nat → Prop} {memory after : Memory}

/-- What stands where nothing is touched goes on standing there. -/
theorem Holds.of_sameOff {address : Nat} {bytes : List UInt8} (h : memory.Holds address bytes)
    (hsame : SameOff touched memory after)
    (hoff : ∀ i, i < bytes.length → ¬touched (address + i)) : after.Holds address bytes := by
  refine holds_of_byteAt fun i hi => ?_
  obtain ⟨hlt, hbyte⟩ := h.byteAt_eq hi
  rw [size_congr hsame.story_eq, hsame.byteAt_eq _ (hoff i hi)]
  exact ⟨hlt, hbyte⟩

end Memory

open Memory

/-- A table that text is captured in: where it is, and the codes printed so far. -/
structure OpenTable where
  address : Nat
  codes : List Word := []
  deriving DecidableEq

namespace OpenTable

/-- The table with more codes printed to it. -/
def push (table : OpenTable) (codes : List Word) : OpenTable :=
  { table with codes := table.codes ++ codes }

/-- Where what has been written ends. -/
def limit (table : OpenTable) : Nat :=
  table.address + 2 + table.codes.length

/-- The bytes of memory that have been written: the word and what is behind it. -/
def Covers (table : OpenTable) (address : Nat) : Prop :=
  table.address ≤ address ∧ address < table.limit

/-- The stream that writes the table. -/
def stream (table : OpenTable) : MemoryStream :=
  { table := table.address, width := none, record := table.address, length := table.codes.length }

/-- A stream whose record is the table. -/
def within (table : OpenTable) (stream : MemoryStream) : MemoryStream :=
  { stream with record := table.address, length := table.codes.length }

/-- That memory has the table: the number of codes as a word, and then a byte for each code. -/
structure HeldBy (table : OpenTable) (memory : Memory) : Prop where
  length_eq : (memory.wordAt table.address).toNat = table.codes.length
  holds : memory.Holds (table.address + 2) (table.codes.map MemoryStream.byteOf)

variable {table : OpenTable} {memory after : Memory}

/-- No codes leave a table as it is. -/
theorem push_nil (table : OpenTable) : table.push [] = table := by
  rw [push, List.append_nil]

/-- Codes are printed to a table one row after the other. -/
theorem push_push (table : OpenTable) (codes others : List Word) :
    (table.push codes).push others = table.push (codes ++ others) := by
  rw [push, push, push, List.append_assoc]

/-- Codes move the end of what has been written. -/
theorem limit_push (table : OpenTable) (codes : List Word) :
    (table.push codes).limit = table.limit + codes.length := by
  unfold limit push
  rw [List.length_append, Nat.add_assoc _ table.codes.length]

/-- A table covers its first byte. -/
theorem covers_address (table : OpenTable) : table.Covers table.address := by
  unfold Covers limit
  omega

/-- A table covers its second byte. -/
theorem covers_address_succ (table : OpenTable) : table.Covers (table.address + 1) := by
  unfold Covers limit
  omega

/-- What has been written stays written. -/
theorem Covers.push {address : Nat} (h : table.Covers address) (codes : List Word) :
    (table.push codes).Covers address :=
  ⟨h.1, Nat.lt_of_lt_of_le h.2 (limit_push table codes ▸ Nat.le_add_right _ _)⟩

/-- A table is held as long as nothing touches it. -/
theorem HeldBy.of_sameOff {touched : Nat → Prop} (h : table.HeldBy memory)
    (hsame : SameOff touched memory after)
    (hoff : ∀ address, table.Covers address → ¬touched address) : table.HeldBy after := by
  constructor
  · rw [hsame.wordAt_eq (hoff _ table.covers_address) (hoff _ table.covers_address_succ)]
    exact h.length_eq
  · refine h.holds.of_sameOff hsame fun i hi => hoff _ ?_
    rw [List.length_map] at hi
    unfold Covers limit
    omega

/-- **A byte behind what has been written, and a larger number in front**: that is the table with
one more code. -/
theorem HeldBy.push_code (h : table.HeldBy memory) (code : Word)
    (hbyte : table.limit < memory.dynamicCeiling)
    (hword : table.address + 1
      < (memory.set table.limit (MemoryStream.byteOf code) hbyte).dynamicCeiling)
    (hafter : (memory.set table.limit (MemoryStream.byteOf code) hbyte).setWord table.address
      (table.codes.length + 1).toUInt16 hword = after) :
    (table.push [code]).HeldBy after ∧ SameOff (table.push [code]).Covers memory after := by
  subst hafter
  have hmiddle : SameOff (· = table.limit) memory _ :=
    sameOff_set (MemoryStream.byteOf code) hbyte rfl
  have hlast : SameOff (fun address => address = table.address ∨ address = table.address + 1) _ _ :=
    sameOff_setWord (table.codes.length + 1).toUInt16 hword (.inl rfl) (.inr rfl)
  refine ⟨⟨?_, ?_⟩, (hmiddle.mono ?_).trans (hlast.mono ?_)⟩
  · have hceiling := memory.dynamicCeiling_lt
    show (wordAt _ table.address).toNat = (table.codes ++ [code]).length
    rw [wordAt_setWord _ hword, List.length_append, List.length_singleton]
    refine Nat.mod_eq_of_lt ?_
    unfold limit at hbyte
    omega
  · show Holds _ (table.address + 2) ((table.codes ++ [code]).map MemoryStream.byteOf)
    rw [List.map_append, List.map_singleton, holds_append, List.length_map, holds_singleton]
    constructor
    · refine (h.holds.of_sameOff hmiddle fun i hi => ?_).of_sameOff hlast fun i hi => ?_
      · rw [List.length_map] at hi
        unfold limit
        omega
      · omega
    · have hoff : ¬(table.limit = table.address ∨ table.limit = table.address + 1) := by
        unfold limit
        omega
      rw [readByte_eq_ok]
      refine ⟨?_, (hlast.byteAt_eq _ hoff).trans (byteAt_set_self _ _ _ hbyte)⟩
      rw [size_congr hlast.story_eq, size_set]
      exact Nat.lt_of_lt_of_le hbyte memory.ceiling_le_size
  · rintro address rfl
    unfold Covers
    rw [limit_push]
    unfold limit
    exact ⟨Nat.le_trans (Nat.le_add_right _ _) (Nat.le_add_right _ _), Nat.lt_succ_self _⟩
  · rintro address (rfl | rfl)
    · exact (table.push [code]).covers_address
    · exact (table.push [code]).covers_address_succ

/-- A word of zero is an empty table. -/
theorem heldBy_of_zero {address : Nat} (hword : address + 1 < memory.dynamicCeiling)
    (hafter : memory.setWord address 0 hword = after) :
    ({ address } : OpenTable).HeldBy after ∧
      SameOff ({ address } : OpenTable).Covers memory after := by
  subst hafter
  refine ⟨⟨?_, trivial⟩, sameOff_setWord 0 hword (covers_address _) (covers_address_succ _)⟩
  rw [wordAt_setWord 0 hword]
  rfl

end OpenTable

namespace MemoryStream

open Work

variable {draft : Draft} {table : OpenTable}

/-- A stream works on memory with its draft. -/
theorem on_onMemory {α : Type} (edit : Edit α) (recording : Recording) :
    on (onMemory edit) recording
      = ((on edit recording.draft).1, { recording with draft := (on edit recording.draft).2 }) := rfl

theorem on_change (f : MemoryStream → MemoryStream) (recording : Recording) :
    on (change f) recording = (.ok (), { recording with stream := f recording.stream }) := rfl

/-- The work of a stream is done with its draft. -/
theorem on_run {α : Type} (stream : MemoryStream) (work : Capture α) (draft : Draft) :
    on (stream.run work) draft
      = (.ok ((on work { stream, draft }).1, (on work { stream, draft }).2.stream),
        (on work { stream, draft }).2.draft) := rfl

/-- **One code** is added to the table. -/
theorem on_writeCode (stream : MemoryStream) (code : Word) (hheld : table.HeldBy draft.memory)
    (hfit : table.limit < draft.memory.dynamicCeiling) :
    ∃ memory, on (writeCode code) { stream := table.within stream, draft }
        = (.ok (), { stream := (table.push [code]).within stream, draft := { draft with memory } }) ∧
      (table.push [code]).HeldBy memory ∧
      SameOff (table.push [code]).Covers draft.memory memory := by
  have hword : table.address + 1
      < (draft.memory.set table.limit (byteOf code) hfit).dynamicCeiling := by
    show table.address + 1 < draft.memory.dynamicCeiling
    unfold OpenTable.limit at hfit
    omega
  refine ⟨_, ?_, hheld.push_code code hfit hword rfl⟩
  have hbyte : on (Edit.writeByte (table.address + 2 + table.codes.length) (byteOf code)) draft
      = _ := Edit.on_writeByte_of_lt hfit _
  unfold writeCode
  rw [on_bind_of_ok (on_get _), on_bind, on_onMemory]
  dsimp only [OpenTable.within]
  rw [hbyte]
  dsimp only
  rw [on_bind_of_ok (on_change _ _), on_onMemory]
  dsimp only
  have hlength : on (Edit.writeWord table.address (table.codes.length + 1).toUInt16)
      { draft with memory := draft.memory.set table.limit (byteOf code) hfit } = _ :=
    @Edit.on_writeWord_of_lt { draft with memory := draft.memory.set table.limit (byteOf code) hfit }
      table.address hword _
  rw [hlength]
  simp [OpenTable.push]

/-- **All codes** are added, one after the other. -/
theorem on_writeCodes (stream : MemoryStream) (codes : List Word) (hheld : table.HeldBy draft.memory)
    (hfit : (table.push codes).limit ≤ draft.memory.dynamicCeiling) :
    ∃ memory, on (writeCodes codes) { stream := table.within stream, draft }
        = (.ok (), { stream := (table.push codes).within stream, draft := { draft with memory } }) ∧
      (table.push codes).HeldBy memory ∧ SameOff (table.push codes).Covers draft.memory memory := by
  induction codes generalizing table draft with
  | nil =>
      rw [OpenTable.push_nil]
      exact ⟨draft.memory, rfl, hheld, .refl _ _⟩
  | cons code rest ih =>
      have hpush : (table.push [code]).push rest = table.push (code :: rest) :=
        OpenTable.push_push table [code] rest
      rw [← hpush] at hfit ⊢
      have hfirst : table.limit < draft.memory.dynamicCeiling := by
        rw [OpenTable.limit_push, OpenTable.limit_push] at hfit
        exact Nat.le_trans (Nat.le_add_right _ _) hfit
      obtain ⟨middle, hcode, hmiddle, hsame⟩ := on_writeCode stream code hheld hfirst
      have hceiling : middle.dynamicCeiling = draft.memory.dynamicCeiling :=
        congrArg Story.dynamicCeiling hsame.story_eq
      obtain ⟨memory, hrest, hmemory, hsame'⟩ :=
        @ih { draft with memory := middle } (table.push [code]) hmiddle (hceiling ▸ hfit)
      refine ⟨memory, ?_, hmemory, (hsame.mono fun _ hcovers => hcovers.push rest).trans hsame'⟩
      rw [writeCodes, on_bind_of_ok hcode, hrest]

/-- **A print adds its codes to the table**, and leaves all other bytes alone. -/
theorem on_print (codes : List Word) (hheld : table.HeldBy draft.memory)
    (hfit : (table.push codes).limit ≤ draft.memory.dynamicCeiling) :
    ∃ memory, on (table.stream.run (print codes)) draft
        = (.ok (.ok (), (table.push codes).stream), { draft with memory }) ∧
      (table.push codes).HeldBy memory ∧ SameOff (table.push codes).Covers draft.memory memory := by
  obtain ⟨memory, hwrite, hafter⟩ := on_writeCodes table.stream codes hheld hfit
  refine ⟨memory, ?_, hafter⟩
  have hprint : on (print codes) { stream := table.stream, draft } = _ := hwrite
  rw [on_run, hprint]
  rfl

/-- Without a width, closing writes nothing. -/
theorem on_close (table : OpenTable) (draft : Draft) :
    ∃ notices, on (table.stream.run close) draft
      = (.ok (.ok (), table.stream), { draft with notices }) :=
  ⟨_, rfl⟩

end MemoryStream

end StoryMachine
