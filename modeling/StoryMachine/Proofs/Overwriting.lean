import Mathlib.Data.List.GetD
import StoryMachine.Proofs.Decoding

/-!
# Bytes in memory, and other bytes in their place

`Holds` says which bytes stand at an address, one after the other; it is how reading
and writing are compared here.  `overwrite` is the memory in which other bytes stand
there.  Unlike a machine it is not bound to dynamic memory: what lies above the
ceiling is changed in the image as well, so the result is the memory of another
story, of the same version and size.  **Its law** says which byte is found where
(`byteAt_overwrite`): the new bytes stand where they were put (`holds_overwrite`), and
all others are as they were.
-/

namespace StoryMachine

/-- Bytes with others in their place from an address on.  What would lie behind the end is
left out. -/
def overlay (old : Array UInt8) (start : Nat) (bytes : List UInt8) : Array UInt8 :=
  Array.ofFn fun i : Fin old.size =>
    if start ≤ i then bytes.getD (i - start) (old.getD i 0) else old.getD i 0

/-- Bytes laid over others make no more of them. -/
theorem size_overlay (old : Array UInt8) (start : Nat) (bytes : List UInt8) :
    (overlay old start bytes).size = old.size := Array.size_ofFn

/-- A byte is the one laid over it, or else the old one. -/
theorem getD_overlay {old : Array UInt8} {i : Nat} (start : Nat) (bytes : List UInt8)
    (h : i < old.size) :
    (overlay old start bytes).getD i 0
      = if start ≤ i then bytes.getD (i - start) (old.getD i 0) else old.getD i 0 := by
  have hlt : i < (overlay old start bytes).size := by
    rw [size_overlay]
    exact h
  rw [Array.getD, dif_pos hlt]
  exact Array.getElem_ofFn hlt

namespace Memory

variable (memory : Memory)

/-- That bytes stand at an address, one after the other. -/
def Holds : (address : Nat) → List UInt8 → Prop
  | _, [] => True
  | address, b :: rest => memory.readByte address = .ok b ∧ Holds (address + 1) rest

variable {memory}

/-- Memory holds bytes one after the other if it holds both parts. -/
theorem holds_append {address : Nat} {bytes others : List UInt8} :
    memory.Holds address (bytes ++ others) ↔
      memory.Holds address bytes ∧ memory.Holds (address + bytes.length) others := by
  induction bytes generalizing address with
  | nil => simp [Holds]
  | cons b rest ih =>
      rw [List.cons_append, Holds, Holds, ih, List.length_cons, and_assoc,
        Nat.add_right_comm address 1, Nat.add_assoc]

/-- Memory holds a byte where it is read. -/
theorem holds_singleton {address : Nat} {b : UInt8} :
    memory.Holds address [b] ↔ memory.readByte address = .ok b := by
  simp [Holds]

/-- What stands at an address is found there byte by byte. -/
theorem Holds.byteAt_eq {address : Nat} {bytes : List UInt8} (h : memory.Holds address bytes)
    {i : Nat} (hi : i < bytes.length) :
    address + i < memory.size ∧ memory.byteAt (address + i) = bytes[i] := by
  induction bytes generalizing address i with
  | nil => exact absurd hi (Nat.not_lt_zero i)
  | cons b rest ih =>
      obtain ⟨hb, hrest⟩ := h
      cases i with
      | zero => exact readByte_eq_ok.mp hb
      | succ i =>
          have hstep := ih hrest (Nat.lt_of_succ_lt_succ hi)
          rw [Nat.add_right_comm, Nat.add_assoc] at hstep
          exact hstep

/-- Memory holds bytes that it has place by place. -/
theorem holds_of_byteAt {address : Nat} {bytes : List UInt8}
    (h : ∀ i (hi : i < bytes.length),
      address + i < memory.size ∧ memory.byteAt (address + i) = bytes[i]) :
    memory.Holds address bytes := by
  induction bytes generalizing address with
  | nil => trivial
  | cons b rest ih =>
      refine ⟨readByte_eq_ok.mpr (h 0 (Nat.zero_lt_succ _)), ih fun i hi => ?_⟩
      have hstep := h (i + 1) (Nat.succ_lt_succ hi)
      rw [Nat.add_right_comm, Nat.add_assoc]
      exact hstep

/-- What stands in memory ends there. -/
theorem Holds.end_le {address : Nat} {bytes : List UInt8} (h : memory.Holds address bytes)
    (haddress : address ≤ memory.size) : address + bytes.length ≤ memory.size := by
  by_cases hempty : bytes.length = 0
  · omega
  · have hlast := (h.byteAt_eq (Nat.sub_one_lt hempty)).1
    omega

/-- At one address there stands one byte after the other. -/
theorem Holds.unique {address : Nat} {bytes others : List UInt8} (h : memory.Holds address bytes)
    (hothers : memory.Holds address others) (hlength : bytes.length = others.length) :
    bytes = others := by
  refine List.ext_getElem hlength fun i hi hi' => ?_
  rw [← (h.byteAt_eq hi).2, (hothers.byteAt_eq hi').2]

/-- A word is the two bytes that stand there. -/
theorem readWord_eq_ok {address : Nat} {word : Word} :
    memory.readWord address = .ok word ↔ memory.Holds address word.toBytes := by
  rw [Word.toBytes, Holds, holds_singleton, readByte_eq_ok, readByte_eq_ok]
  unfold readWord
  constructor
  · intro h
    split at h
    case isTrue hlt =>
      obtain rfl := Except.ok.inj h
      exact ⟨⟨by omega, by simp [wordAt]⟩, hlt, by simp [wordAt]⟩
    case isFalse => cases h
  · rintro ⟨⟨-, hhigh⟩, hlt, hlow⟩
    rw [if_pos hlt, wordAt, hhigh, hlow, Word.ofBytes_high_low]

/-! ## Overwriting -/

/-- A byte of the image below the ceiling, a byte of the overlaid memory above it. -/
def overwrittenImage (memory : Memory) (start : Nat) (bytes : List UInt8) : Array UInt8 :=
  Array.ofFn fun i : Fin memory.story.image.size =>
    if i < memory.dynamicCeiling then memory.story.image.getD i 0
    else (overlay memory.bytes start bytes).getD i 0

/-- The overwritten image is as large as the image. -/
theorem size_overwrittenImage (memory : Memory) (start : Nat) (bytes : List UInt8) :
    (memory.overwrittenImage start bytes).size = memory.story.image.size := Array.size_ofFn

/-- The header bytes of the image are not overwritten. -/
theorem imageByte_overwrittenImage {i : Nat} (start : Nat) (bytes : List UInt8) (h : i < 64) :
    imageByte (memory.overwrittenImage start bytes) i = imageByte memory.story.image i := by
  have hceiling : i < memory.dynamicCeiling := Nat.lt_of_lt_of_le h memory.header_le_ceiling
  have hsize : i < memory.story.image.size :=
    Nat.lt_of_lt_of_le hceiling memory.story.ceiling_le_size
  have hlt : i < (memory.overwrittenImage start bytes).size := by
    rw [size_overwrittenImage]
    exact hsize
  unfold imageByte
  congr 1
  rw [Array.getD, dif_pos hlt]
  exact (Array.getElem_ofFn hlt).trans (if_pos hceiling)

/-- Nor are its header words. -/
theorem imageWord_overwrittenImage {i : Nat} (start : Nat) (bytes : List UInt8) (h : i < 63) :
    imageWord (memory.overwrittenImage start bytes) i = imageWord memory.story.image i := by
  rw [imageWord, imageWord, imageByte_overwrittenImage start bytes (by omega),
    imageByte_overwrittenImage start bytes (by omega)]

/-- The memory in which other bytes stand from an address on. -/
def overwrite (memory : Memory) (start : Nat) (bytes : List UInt8) : Memory where
  story :=
    { image := memory.overwrittenImage start bytes
      three_le_version := by
        rw [imageByte_overwrittenImage start bytes (by decide)]
        exact memory.story.three_le_version
      version_le_eight := by
        rw [imageByte_overwrittenImage start bytes (by decide)]
        exact memory.story.version_le_eight
      header_le_ceiling := by
        rw [imageWord_overwrittenImage start bytes (by decide)]
        exact memory.story.header_le_ceiling
      ceiling_le_size := by
        rw [imageWord_overwrittenImage start bytes (by decide), size_overwrittenImage]
        exact memory.story.ceiling_le_size }
  bytes := overlay memory.bytes start bytes
  size_eq := by rw [size_overlay, size_overwrittenImage, memory.size_eq]
  static_eq := by
    intro i hi
    rw [Story.dynamicCeiling, imageWord_overwrittenImage start bytes (by decide)] at hi
    have hsizes : (overlay memory.bytes start bytes).size
        = (memory.overwrittenImage start bytes).size := by
      rw [size_overlay, size_overwrittenImage, memory.size_eq]
    by_cases hlt : i < (memory.overwrittenImage start bytes).size
    · have hlt' : i < (overlay memory.bytes start bytes).size := by omega
      rw [Array.getElem?_eq_getElem hlt, Array.getElem?_eq_getElem hlt']
      congr 1
      have himage : (memory.overwrittenImage start bytes)[i]
          = (overlay memory.bytes start bytes).getD i 0 :=
        (Array.getElem_ofFn hlt).trans (if_neg (Nat.not_lt.mpr hi))
      rw [himage, Array.getD, dif_pos hlt']
      rfl
    · have hle := Nat.not_lt.mp hlt
      rw [Array.getElem?_eq_none hle, Array.getElem?_eq_none (hsizes ▸ hle)]

variable {start : Nat} {bytes : List UInt8}

/-- Overwritten memory is as large as before. -/
theorem size_overwrite : (memory.overwrite start bytes).size = memory.size := size_overlay _ _ _

theorem version_overwrite : (memory.overwrite start bytes).version = memory.version :=
  imageByte_overwrittenImage start bytes (by decide)

/-- A byte of overwritten memory is the one laid over it, or else the old one. -/
theorem byteAt_overwrite {i : Nat} (h : i < memory.size) :
    (memory.overwrite start bytes).byteAt i
      = if start ≤ i then bytes.getD (i - start) (memory.byteAt i) else memory.byteAt i :=
  getD_overlay start bytes h

/-- The new bytes stand where they were put. -/
theorem holds_overwrite (h : start + bytes.length ≤ memory.size) :
    (memory.overwrite start bytes).Holds start bytes := by
  refine holds_of_byteAt fun i hi => ⟨?_, ?_⟩
  · rw [size_overwrite]
    omega
  · rw [byteAt_overwrite (by omega), if_pos (Nat.le_add_right start i), Nat.add_sub_cancel_left,
      List.getD_eq_getElem _ _ hi]

/-- All bytes after the new ones are as they were. -/
theorem byteAt_overwrite_of_le {i : Nat} (h : start + bytes.length ≤ i) :
    (memory.overwrite start bytes).byteAt i = memory.byteAt i := by
  by_cases hsize : i < memory.size
  · rw [byteAt_overwrite hsize, if_pos (by omega), List.getD_eq_default _ _ (by omega)]
  · have hout (other : Memory) (hother : other.size = memory.size) : other.byteAt i = 0 :=
      dif_neg fun hlt => hsize (hother ▸ hlt)
    rw [hout _ size_overwrite, hout _ rfl]

end Memory

end StoryMachine
