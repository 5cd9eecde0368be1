import StoryMachine.Word

/-!
# Story memory

A `Story` is an image that a machine can run: at least a 64 byte header long, of
version 3 to 8, with its dynamic memory covering the header and lying within the
image.  `Memory` is the image as a running story has changed it.  Only dynamic
memory, the bytes below the dynamic ceiling, can differ from the image; the type
says so, so every operation on memory keeps it.

Reading works at every address of the image.  `Memory.set` writes one byte of
dynamic memory and is the only way in which single bytes change; its two laws
`byteAt_set_self` and `byteAt_set_of_ne` say what is read afterwards.
-/

namespace StoryMachine

/-- The byte at an address of an image, zero outside. -/
def imageByte (image : Array UInt8) (address : Nat) : Nat :=
  (image.getD address 0).toNat

/-- The word at an address of an image, zero bytes outside. -/
def imageWord (image : Array UInt8) (address : Nat) : Nat :=
  256 * imageByte image address + imageByte image (address + 1)

/-- An image that a machine can run. -/
structure Story where
  image : Array UInt8
  three_le_version : 3 ≤ imageByte image 0
  version_le_eight : imageByte image 0 ≤ 8
  header_le_ceiling : 64 ≤ imageWord image 0x0e
  ceiling_le_size : imageWord image 0x0e ≤ image.size
  deriving DecidableEq

namespace Story

/-- Checks an image. -/
def ofImage (image : Array UInt8) : Except Fault Story :=
  if image.size < 64 then
    .error { kind := .corruptImage, detail := s!"IMAGE IS {image.size} BYTES" }
  else if hv : 3 ≤ imageByte image 0 ∧ imageByte image 0 ≤ 8 then
    if hc : 64 ≤ imageWord image 0x0e ∧ imageWord image 0x0e ≤ image.size then
      .ok ⟨image, hv.1, hv.2, hc.1, hc.2⟩
    else
      .error { kind := .corruptImage,
               detail := "DYNAMIC MEMORY ENDS AT " ++ Numeral.marked 4 (imageWord image 0x0e) }
  else
    .error { kind := .unsupportedVersion, detail := s!"VERSION {imageByte image 0}" }

variable (story : Story)

/-- The version of the story, 3 to 8. -/
def version : Nat := imageByte story.image 0

/-- Where dynamic memory ends. -/
def dynamicCeiling : Nat := imageWord story.image 0x0e

/-- What is added, in units of eight bytes, to the packed address of a routine. -/
def routineOffset : Nat :=
  if story.version = 6 ∨ story.version = 7 then imageWord story.image 0x28 else 0

/-- What is added, in units of eight bytes, to the packed address of a text. -/
def stringOffset : Nat :=
  if story.version = 6 ∨ story.version = 7 then imageWord story.image 0x2a else 0

/-- The address that a packed address stands for. -/
def unpack (packed : Word) (offset : Nat) : Nat :=
  if story.version ≤ 3 then 2 * packed.toNat
  else if story.version ≤ 5 then 4 * packed.toNat
  else if story.version ≤ 7 then 4 * packed.toNat + 8 * offset
  else 8 * packed.toNat

/-- The address of a routine. -/
def routineAddress (packed : Word) : Nat :=
  story.unpack packed story.routineOffset

/-- The address of a packed text. -/
def stringAddress (packed : Word) : Nat :=
  story.unpack packed story.stringOffset

/-- The length that the header claims for the file, in units that depend on the
version; the image's own length if it claims none, and never more than that. -/
def fileLength : Nat :=
  let unit := if story.version ≤ 3 then 2 else if story.version ≤ 5 then 4 else 8
  let claimed := imageWord story.image 0x1a * unit
  if claimed = 0 then story.image.size else min claimed story.image.size

/-- The sum of the bytes after the header, modulo 2^16. -/
def checksum : Word :=
  (story.image.extract 0x40 story.fileLength).foldl (fun sum b => sum + b.toUInt16) 0

end Story

/-- An image as a running story has changed it. -/
structure Memory where
  story : Story
  bytes : Array UInt8
  size_eq : bytes.size = story.image.size
  static_eq : ∀ i, story.dynamicCeiling ≤ i → bytes[i]? = story.image[i]?
  deriving DecidableEq

namespace Memory

/-- The memory with which a story starts. -/
def ofStory (story : Story) : Memory where
  story
  bytes := story.image
  size_eq := rfl
  static_eq := fun _ _ => rfl

/-- The memory with which the story of an image starts. -/
def ofImage (image : Array UInt8) : Except Fault Memory :=
  (Story.ofImage image).map ofStory

variable (memory : Memory)

/-- The version of the story, 3 to 8. -/
def version : Nat := memory.story.version

/-- How many bytes there are. -/
def size : Nat := memory.bytes.size

/-- Where dynamic memory ends. -/
def dynamicCeiling : Nat := memory.story.dynamicCeiling

theorem header_le_ceiling : 64 ≤ memory.dynamicCeiling :=
  memory.story.header_le_ceiling

theorem ceiling_le_size : memory.dynamicCeiling ≤ memory.size := by
  rw [size, memory.size_eq]
  exact memory.story.ceiling_le_size

/-- Dynamic memory. -/
def dynamic : List UInt8 :=
  (memory.bytes.extract 0 memory.dynamicCeiling).toList

/-- Dynamic memory as the story started with it. -/
def pristineDynamic : List UInt8 :=
  (memory.story.image.extract 0 memory.dynamicCeiling).toList

/-- The byte at an address, zero outside. -/
def byteAt (address : Nat) : UInt8 :=
  memory.bytes.getD address 0

/-- The word at an address, zero bytes outside. -/
def wordAt (address : Nat) : Word :=
  Word.ofBytes (memory.byteAt address) (memory.byteAt (address + 1))

/-- The fault of reaching outside the image. -/
def outOfBounds (address : Nat) : Fault :=
  { kind := .outOfBounds,
    detail := Numeral.marked 5 address ++ " OF " ++ Numeral.marked 5 memory.size }

/-- Reads a byte. -/
def readByte (address : Nat) : Except Fault UInt8 :=
  if address < memory.size then .ok (memory.byteAt address)
  else .error (memory.outOfBounds address)

/-- Reads a word, high byte first. -/
def readWord (address : Nat) : Except Fault Word :=
  if address + 1 < memory.size then .ok (memory.wordAt address)
  else .error (memory.outOfBounds address)

/-- Reads `length` bytes from an address on. -/
def slice (address length : Nat) : Except Fault (List UInt8) :=
  if address + length ≤ memory.size then
    .ok (memory.bytes.extract address (address + length)).toList
  else .error (memory.outOfBounds (address + length))

/-- Puts a byte into dynamic memory. -/
def set (address : Nat) (value : UInt8) (h : address < memory.dynamicCeiling) : Memory where
  story := memory.story
  bytes := memory.bytes.set address value (Nat.lt_of_lt_of_le h memory.ceiling_le_size)
  size_eq := by rw [Array.size_set, memory.size_eq]
  static_eq := by
    intro i hi
    have : address ≠ i := by
      have : memory.story.dynamicCeiling = memory.dynamicCeiling := rfl
      omega
    rw [Array.getElem?_set_ne _ this]
    exact memory.static_eq i hi

@[simp] theorem story_set (address : Nat) (value : UInt8) (h : address < memory.dynamicCeiling) :
    (memory.set address value h).story = memory.story := rfl

@[simp] theorem dynamicCeiling_set (address : Nat) (value : UInt8)
    (h : address < memory.dynamicCeiling) :
    (memory.set address value h).dynamicCeiling = memory.dynamicCeiling := rfl

@[simp] theorem size_set (address : Nat) (value : UInt8) (h : address < memory.dynamicCeiling) :
    (memory.set address value h).size = memory.size := by
  simp [size, set]

/-- A byte just written is the byte read. -/
@[simp] theorem byteAt_set_self (address : Nat) (value : UInt8)
    (h : address < memory.dynamicCeiling) :
    (memory.set address value h).byteAt address = value := by
  have : address < memory.bytes.size := Nat.lt_of_lt_of_le h memory.ceiling_le_size
  simp [byteAt, set, Array.getD, this]

/-- A write changes no other byte. -/
theorem byteAt_set_of_ne (address other : Nat) (value : UInt8)
    (h : address < memory.dynamicCeiling) (hne : other ≠ address) :
    (memory.set address value h).byteAt other = memory.byteAt other := by
  simp only [byteAt, set, Array.getD_eq_getD_getElem?]
  rw [Array.getElem?_set_ne _ (Ne.symm hne)]

/-- The fault of writing where it is not allowed. -/
def writeFault (address : Nat) : Fault :=
  if memory.size ≤ address then memory.outOfBounds address
  else { kind := .writeToStatic, detail := Numeral.marked 5 address }

/-- Puts a word into dynamic memory, high byte first. -/
def setWord (address : Nat) (value : Word) (h : address + 1 < memory.dynamicCeiling) : Memory :=
  (memory.set address value.high (by omega)).set (address + 1) value.low h

/-- Dynamic memory replaced by as many other bytes. -/
def withDynamic (data : List UInt8) (h : data.length = memory.dynamicCeiling) : Memory where
  story := memory.story
  bytes := data.toArray ++ memory.bytes.extract memory.dynamicCeiling memory.bytes.size
  size_eq := by
    have := memory.ceiling_le_size
    rw [← memory.size_eq]
    simp only [size] at this
    simp [h]
    omega
  static_eq := by
    intro i hi
    have hc : memory.story.dynamicCeiling = memory.dynamicCeiling := rfl
    rw [← memory.static_eq i hi, Array.getElem?_append_right (by simp [h]; omega)]
    simp only [List.size_toArray, h, Array.getElem?_extract]
    split
    · congr 1
      omega
    · rw [Array.getElem?_eq_none (by omega)]

/-- Replaces dynamic memory, given exactly as many bytes as it has. -/
def setDynamic (data : List UInt8) : Except Fault Memory :=
  if h : data.length = memory.dynamicCeiling then .ok (memory.withDynamic data h)
  else .error { kind := .internalError, detail := s!"DYNAMIC MEMORY SIZE {data.length}" }

/-- Dynamic memory as the story started with it. -/
def reset : Memory := ofStory memory.story

end Memory

end StoryMachine
