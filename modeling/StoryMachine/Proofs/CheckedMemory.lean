import StoryMachine.Proofs.CheckedArithmetic
import StoryMachine.Proofs.ObjectLinks
import StoryMachine.Proofs.SnapshotLength
import StoryMachine.Proofs.StoryKept

/-!
# Memory with checked addresses

Reading and writing as a program does it that keeps addresses in 64 bits: the second
byte of a word, the end of a slice and every place of a row of bytes are sums, packed
addresses are products, and a byte is only put where there is one.

`Memory.Addressable` says that memory leaves room below 2^63.  Then no such sum or
product leaves its range: whatever has been read or written lies in memory, and the next
address is not far from it.
-/

namespace StoryMachine

open Checked

variable {α β : Type}

/-- Memory that leaves room for the longest jump below 2^63. -/
def Memory.Addressable (memory : Memory) : Prop :=
  memory.size + 0x8000 ≤ 2 ^ 63

/-- How large memory is depends on the story alone. -/
theorem Memory.Addressable.congr {memory after : Memory} (h : memory.Addressable)
    (hstory : after.story = memory.story) : after.Addressable := by
  unfold Addressable
  rw [size_congr hstory]
  exact h

/-- An address in memory has room behind it. -/
theorem Memory.Addressable.sum_eq {m : Type → Type} [Monad m] [Breaks m] {memory : Memory}
    (h : memory.Addressable) {address length : Nat} (hle : address ≤ memory.size)
    (hlength : length ≤ 0x10000) : (sum address length : m Nat) = pure (address + length) := by
  have : memory.size + 0x8000 ≤ 2 ^ 63 := h
  exact sum_of_lt (by omega)

/-- A word at an address in memory has an address after it. -/
theorem Memory.Addressable.next_lt {memory : Memory} (h : memory.Addressable) {address : Nat}
    (hle : address ≤ memory.size) : address + 2 < 2 ^ 64 := by
  have : memory.size + 0x8000 ≤ 2 ^ 63 := h
  omega

/-! ## Reading -/

namespace Memory

variable {memory : Memory} {address : Nat}

/-- Reads a word.  The address after it is a sum. -/
def readWordAt (memory : Memory) (address : Nat) : Checked Word := do
  let stop ← sum address 2
  if stop ≤ memory.size then return memory.wordAt address
  else throw (memory.outOfBounds address)

/-- Reads `length` bytes from an address on.  The address after them is a sum. -/
def sliceAt (memory : Memory) (address length : Nat) : Checked (List UInt8) := do
  let stop ← sum address length
  if stop ≤ memory.size then return (memory.bytes.extract address stop).toList
  else throw (memory.outOfBounds stop)

/-- A word is read as ever where the address after it is in range. -/
theorem readWordAt_eq (h : address + 2 < 2 ^ 64) :
    memory.readWordAt address = inRange (memory.readWord address) := by
  rw [readWordAt, sum_of_lt h, pure_bind, readWord]
  by_cases hlt : address + 1 < memory.size
  · rw [if_pos hlt, if_pos (show address + 2 ≤ memory.size from hlt)]
    rfl
  · rw [if_neg hlt, if_neg (show ¬address + 2 ≤ memory.size from hlt)]
    rfl

/-- Bytes are read as ever where the address after them is in range. -/
theorem sliceAt_eq {length : Nat} (h : address + length < 2 ^ 64) :
    memory.sliceAt address length = inRange (memory.slice address length) := by
  rw [sliceAt, sum_of_lt h, pure_bind, slice]
  split <;> rfl

/-- A byte that can be read lies in memory. -/
theorem lt_of_readByte {b : UInt8} (h : memory.readByte address = .ok b) :
    address < memory.size := by
  unfold readByte at h
  split at h
  · assumption
  · exact nomatch h

end Memory

/-! ## Packed addresses and the sum of the image -/

/-- A word of an image is below 2^16. -/
theorem imageWord_lt (image : Array UInt8) (address : Nat) : imageWord image address < 0x10000 := by
  have hhigh := (image.getD address 0).toNat_lt
  have hlow := (image.getD (address + 1) 0).toNat_lt
  unfold imageWord imageByte
  omega

namespace Story

/-- The address that a packed address stands for, put together in 64 bits. -/
def unpackAt (story : Story) (packed : Word) (offset : Nat) : Checked Nat :=
  if story.version ≤ 3 then product 2 packed.toNat
  else if story.version ≤ 5 then product 4 packed.toNat
  else if story.version ≤ 7 then do
    let near ← product 4 packed.toNat
    let far ← product 8 offset
    sum near far
  else product 8 packed.toNat

/-- The length of the file, whose unit the header's number is multiplied with. -/
def fileLengthAt (story : Story) : Checked Nat := do
  let unit := if story.version ≤ 3 then 2 else if story.version ≤ 5 then 4 else 8
  let claimed ← product (imageWord story.image 0x1a) unit
  return if claimed = 0 then story.image.size else min claimed story.image.size

/-- The sum of the bytes after the header, which are a slice of the image. -/
def checksumAt (story : Story) : Checked Word := do
  let length ← fileLengthAt story
  let bytes ← slice story.image.toList 0x40 (max length 0x40)
  return bytes.foldl (fun sum b => sum + b.toUInt16) 0

/-- Sixteen bits, times eight and twice over, are far from 64. -/
theorem unpackAt_eq (story : Story) (packed : Word) {offset : Nat} (hoffset : offset < 0x10000) :
    story.unpackAt packed offset = pure (story.unpack packed offset) := by
  have hpacked := packed.toNat_lt
  unfold unpackAt unpack
  split
  · exact product_of_lt (by omega)
  split
  · exact product_of_lt (by omega)
  split
  · rw [product_of_lt (by omega), pure_bind, product_of_lt (by omega), pure_bind,
      sum_of_lt (by omega)]
  · exact product_of_lt (by omega)

/-- The offset of packed routines is a word of the header. -/
theorem routineOffset_lt (story : Story) : story.routineOffset < 0x10000 := by
  unfold routineOffset
  split
  · exact imageWord_lt _ _
  · decide

/-- The offset of packed texts is a word of the header. -/
theorem stringOffset_lt (story : Story) : story.stringOffset < 0x10000 := by
  unfold stringOffset
  split
  · exact imageWord_lt _ _
  · decide

/-- Packed addresses stay below a million. -/
theorem unpack_lt (story : Story) (packed : Word) {offset : Nat} (hoffset : offset < 0x10000) :
    story.unpack packed offset < 0x100000 := by
  have hpacked := packed.toNat_lt
  unfold unpack
  split
  · omega
  split
  · omega
  split <;> omega

/-- The length of the file is claimed in units that keep it in its range. -/
theorem fileLengthAt_eq (story : Story) : story.fileLengthAt = pure story.fileLength := by
  have hword := imageWord_lt story.image 0x1a
  have hunit : (if story.version ≤ 3 then 2 else if story.version ≤ 5 then 4 else 8) ≤ 8 := by
    split
    · decide
    split <;> decide
  have hproduct := Nat.mul_le_mul (Nat.le_of_lt hword) hunit
  dsimp only [fileLengthAt]
  rw [product_of_lt (by omega), pure_bind]
  rfl

/-- The image begins with a header, and the file is no longer than the image. -/
theorem checksumAt_eq (story : Story) : story.checksumAt = pure story.checksum := by
  have hheader := Nat.le_trans story.header_le_ceiling story.ceiling_le_size
  have hlength : story.fileLength ≤ story.image.size := by
    dsimp only [fileLength]
    generalize imageWord story.image 0x1a * _ = claimed
    split
    · exact Nat.le_refl _
    · exact Nat.min_le_right _ _
  have hslice : slice story.image.toList 0x40 (max story.fileLength 0x40)
      = pure ((story.image.toList.drop 0x40).take (max story.fileLength 0x40 - 0x40)) := by
    refine if_pos ⟨Nat.le_max_right _ _, ?_⟩
    rw [Array.length_toList]
    exact Nat.max_le.mpr ⟨hlength, hheader⟩
  have hstop : max story.fileLength 0x40 - 0x40 = story.fileLength - 0x40 := by omega
  rw [checksumAt, fileLengthAt_eq, pure_bind, hslice, pure_bind, checksum, hstop,
    ← Array.foldl_toList, Array.toList_extract, List.extract_eq_take_drop]

end Story

/-! ## Dynamic memory -/

/-- The front of an array is a slice of its list. -/
theorem Checked.slice_toList {bytes : Array UInt8} {stop : Nat} (h : stop ≤ bytes.size) :
    slice bytes.toList 0 stop = pure (bytes.extract 0 stop).toList := by
  rw [slice, if_pos ⟨Nat.zero_le _, h⟩, Array.toList_extract, List.extract_eq_take_drop]

namespace Memory

/-- Dynamic memory, which is a slice of the bytes. -/
def dynamicAt (memory : Memory) : Checked (List UInt8) :=
  Checked.slice memory.bytes.toList 0 memory.dynamicCeiling

/-- Dynamic memory as the story started with it, which is a slice of the image. -/
def pristineDynamicAt (memory : Memory) : Checked (List UInt8) :=
  Checked.slice memory.story.image.toList 0 memory.dynamicCeiling

/-- Replaces dynamic memory.  What takes the place of a slice has its length. -/
def setDynamicAt (memory : Memory) (data : List UInt8) : Checked Memory := do
  let after ← inRange (memory.setDynamic data)
  let replaced ← memory.dynamicAt
  require (replaced.length = data.length)
  return after

/-- Dynamic memory as the story started with it, copied over that of now. -/
def resetAt (memory : Memory) : Checked Memory := do
  let replaced ← memory.dynamicAt
  let pristine ← memory.pristineDynamicAt
  require (replaced.length = pristine.length)
  return memory.reset

/-- Dynamic memory ends within memory. -/
theorem dynamicAt_eq (memory : Memory) : memory.dynamicAt = pure memory.dynamic :=
  slice_toList memory.ceiling_le_size

/-- Dynamic memory ends within the image. -/
theorem pristineDynamicAt_eq (memory : Memory) :
    memory.pristineDynamicAt = pure memory.pristineDynamic :=
  slice_toList memory.story.ceiling_le_size

/-- Only as many bytes as dynamic memory has take its place. -/
theorem setDynamicAt_eq (memory : Memory) (data : List UInt8) :
    memory.setDynamicAt data = inRange (memory.setDynamic data) := by
  rw [setDynamicAt, setDynamic]
  by_cases h : data.length = memory.dynamicCeiling
  · have hlength : memory.dynamic.length = data.length := by
      rw [Snapshot.length_dynamic, h]
    rw [dif_pos h, inRange_ok, pure_bind, dynamicAt_eq, pure_bind, require_of hlength, pure_bind]
  · rw [dif_neg h]
    rfl

/-- The image has as much dynamic memory as memory has. -/
theorem resetAt_eq (memory : Memory) : memory.resetAt = pure memory.reset := by
  have hlength : memory.dynamic.length = memory.pristineDynamic.length := by
    rw [Snapshot.length_dynamic, Snapshot.length_pristineDynamic]
  rw [resetAt, dynamicAt_eq, pure_bind, pristineDynamicAt_eq, pure_bind, require_of hlength,
    pure_bind]

end Memory

/-! ## Writing -/

/-- Memory that is worked on leaves room for the longest jump, before and after. -/
def Draft.upkeep : Upkeep Draft := .always fun draft => draft.memory.Addressable

namespace CheckedEdit

/-- Looks at memory. -/
def look (f : Memory → Checked α) : CheckedWork Draft α :=
  CheckedWork.look fun draft => f draft.memory

/-- Checks that a byte may be written. -/
def writeCheck (address : Nat) : CheckedWork Draft Unit :=
  look fun memory =>
    if address < memory.dynamicCeiling then pure () else throw (memory.writeFault address)

/-- Puts a byte where there is one of dynamic memory. -/
def put (address : Nat) (value : UInt8) : CheckedWork Draft Unit :=
  ExceptT.mk fun draft =>
    if h : address < draft.memory.dynamicCeiling then
      some (.ok (), { draft with memory := draft.memory.set address value h })
    else none

/-- Writes a byte. -/
def writeByte (address : Nat) (value : UInt8) : CheckedWork Draft Unit := do
  writeCheck address
  put address value

/-- Writes a word.  The address of its second byte is a sum. -/
def writeWord (address : Nat) (value : Word) : CheckedWork Draft Unit := do
  writeCheck address
  let next ← sum address 1
  writeCheck next
  put address value.high
  put next value.low

/-- Writes bytes from a place behind a base on. -/
def writeBytes (base : Nat) : (place : Nat) → List UInt8 → CheckedWork Draft Unit
  | _, [] => pure ()
  | place, b :: rest => do
    let address ← sum base place
    writeByte address b
    writeBytes base (place + 1) rest

section

variable {address : Nat} {draft : Draft}

/-- The check of a write has an outcome everywhere. -/
theorem on_writeCheck (address : Nat) (draft : Draft) :
    (writeCheck address).on draft
      = some (if address < draft.memory.dynamicCeiling then .ok ()
          else .error (draft.memory.writeFault address), draft) := by
  show ((ExceptT.run (if _ then _ else _ : Checked Unit)).map _ : Option _) = _
  split <;> rfl

/-- A byte of dynamic memory can be put. -/
theorem on_put (h : address < draft.memory.dynamicCeiling) (value : UInt8) :
    (put address value).on draft
      = some (.ok (), { draft with memory := draft.memory.set address value h }) := dif_pos h

/-- A byte is only put where the check has been. -/
theorem on_writeByte (address : Nat) (value : UInt8) (draft : Draft) :
    (writeByte address value).on draft = some (Work.on (Edit.writeByte address value) draft) := by
  rw [writeByte, CheckedWork.on_bind, on_writeCheck]
  by_cases h : address < draft.memory.dynamicCeiling
  · rw [if_pos h, Edit.on_writeByte_of_lt h]
    exact on_put h value
  · rw [if_neg h, Edit.on_writeByte_of_le (Nat.not_lt.mp h)]
    rfl

/-- Both bytes of a word are checked before either is put. -/
theorem on_writeWord (h : address + 1 < 2 ^ 64) (value : Word) (draft : Draft) :
    (writeWord address value).on draft = some (Work.on (Edit.writeWord address value) draft) := by
  rw [writeWord, CheckedWork.on_bind, on_writeCheck]
  by_cases hfirst : address < draft.memory.dynamicCeiling
  · rw [if_pos hfirst, sum_of_lt h]
    simp only [pure_bind, Option.bind_some]
    rw [CheckedWork.on_bind, on_writeCheck]
    by_cases hsecond : address + 1 < draft.memory.dynamicCeiling
    · rw [if_pos hsecond, Edit.on_writeWord_of_lt hsecond]
      simp only [Option.bind_some]
      rw [CheckedWork.on_bind, on_put hfirst]
      simp only [Option.bind_some]
      rw [on_put (by simpa using hsecond)]
      rfl
    · rw [if_neg hsecond, Edit.on_writeWord_last (by omega)]
      rfl
  · rw [if_neg hfirst, Edit.on_writeWord_behind (Nat.not_lt.mp hfirst)]
    rfl

end

section

variable {P : α → Prop}

/-- Checked work that does the same follows if the story stays what it is. -/
theorem follows_of_on {checked : CheckedWork Draft α} {work : Edit α} (hkeeps : work.KeepsStory)
    (h : ∀ draft, draft.memory.Addressable → checked.on draft = some (Work.on work draft))
    (hP : ∀ draft a after, draft.memory.Addressable → Work.on work draft = (.ok a, after) → P a) :
    Follows Draft.upkeep checked work P := by
  intro draft hroom
  have hafter : (Work.on work draft).2.memory.Addressable :=
    Memory.Addressable.congr hroom (hkeeps.eq draft)
  refine ⟨h draft hroom, ?_⟩
  rcases hwork : Work.on work draft with ⟨fault | a, after⟩ <;> rw [hwork] at hafter
  · exact hafter
  · exact ⟨hafter, hP draft a after hroom hwork⟩

/-- Work in which there is nothing to check. -/
theorem follows_whole {work : Edit α} (hkeeps : work.KeepsStory) :
    Follows Draft.upkeep (CheckedWork.whole work) work :=
  follows_of_on hkeeps (fun _ _ => rfl) fun _ _ _ _ _ => trivial

/-- Looking at memory follows if it stays in range. -/
theorem follows_look {f : Memory → Checked α} {g : Memory → Except Fault α}
    (h : ∀ memory, memory.Addressable → f memory = inRange (g memory))
    (hP : ∀ memory a, memory.Addressable → g memory = .ok a → P a) :
    Follows Draft.upkeep (look f) (Edit.look g) P :=
  Follows.look (Edit.on_look g ·) (fun draft hroom => h draft.memory hroom)
    fun draft a hroom => hP draft.memory a hroom

/-- Looking at memory where nothing can fail. -/
theorem follows_view {f : Memory → Checked α} {g : Memory → α}
    (h : ∀ memory, memory.Addressable → f memory = pure (g memory))
    (hP : ∀ memory, memory.Addressable → P (g memory)) :
    Follows Draft.upkeep (look f) (Edit.view g) P := by
  refine Follows.look (g := fun draft => .ok (g draft.memory)) (Edit.on_view · g)
    (fun draft hroom => h draft.memory hroom) fun draft a hroom ha => ?_
  obtain rfl := Except.ok.inj ha
  exact hP draft.memory hroom

/-- A byte that is read leaves room behind it. -/
theorem follows_readByte (address : Nat) :
    Follows Draft.upkeep (look fun memory => inRange (memory.readByte address))
      (Edit.look (·.readByte address)) fun _ => address + 0x8000 < 2 ^ 63 := by
  refine follows_look (fun _ _ => rfl) fun memory b hroom hread => ?_
  have hlt := Memory.lt_of_readByte hread
  have : memory.size + 0x8000 ≤ 2 ^ 63 := hroom
  omega

/-- A word is read where its second byte has an address. -/
theorem follows_readWord {address : Nat} (h : address + 2 < 2 ^ 64) :
    Follows Draft.upkeep (look (·.readWordAt address)) (Edit.look (·.readWord address)) :=
  follows_look (fun _ _ => Memory.readWordAt_eq h) fun _ _ _ _ => trivial

/-- A byte that is written lies below 2^16. -/
theorem follows_writeByte (address : Nat) (value : UInt8) :
    Follows Draft.upkeep (writeByte address value) (Edit.writeByte address value)
      fun _ => address < 0x10000 := by
  refine follows_of_on (Edit.keepsStory_writeByte address value)
    (fun draft _ => on_writeByte address value draft) fun draft _ after _ hwrite => ?_
  by_cases h : address < draft.memory.dynamicCeiling
  · exact Nat.lt_trans h draft.memory.dynamicCeiling_lt
  · rw [Edit.on_writeByte_of_le (Nat.not_lt.mp h)] at hwrite
    exact nomatch hwrite

/-- A word that is written lies below 2^16. -/
theorem follows_writeWord {address : Nat} (h : address + 1 < 2 ^ 64) (value : Word) :
    Follows Draft.upkeep (writeWord address value) (Edit.writeWord address value)
      fun _ => address + 1 < 0x10000 := by
  refine follows_of_on (Edit.keepsStory_writeWord address value)
    (fun draft _ => on_writeWord h value draft) fun draft _ after _ hwrite => ?_
  by_cases hlt : address + 1 < draft.memory.dynamicCeiling
  · exact Nat.lt_trans hlt draft.memory.dynamicCeiling_lt
  · obtain ⟨place, hfault⟩ := Edit.on_writeWord_of_le (Nat.not_lt.mp hlt) value
    rw [hfault] at hwrite
    exact nomatch hwrite

/-- **A row of bytes stays in range, however long it is**: it ends where dynamic memory
does. -/
theorem follows_writeBytes {base place : Nat} (h : base + place < 2 ^ 63) (bytes : List UInt8) :
    Follows Draft.upkeep (writeBytes base place bytes) (Edit.writeBytes (base + place) bytes) := by
  induction bytes generalizing place with
  | nil => exact .pure trivial
  | cons b rest ih =>
      rw [writeBytes, sum_of_lt (by omega), pure_bind]
      refine (follows_writeByte (base + place) b).bind fun _ hwritten => ?_
      exact ih (by omega)

end

end CheckedEdit

end StoryMachine
