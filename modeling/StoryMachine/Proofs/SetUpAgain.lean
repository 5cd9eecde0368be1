import StoryMachine.Proofs.Resuming
import StoryMachine.Proofs.SetUpOutcome

/-!
# Setting up the header again

Setting up the header is a row of writes, one byte each (`Header.writes`, `setUp_eq_puts`).  Which
places they go to is known beforehand (`SetUpPlace`), and nothing else changes.

A row of writes that is made twice has the same result as made once (`puts_puts`): of each place
only the last write counts.  What has to be shown is that the second row is the first one.  Most of
it does not depend on memory, the extension table lies behind everything that is written, and the
two fields of flags are computed in such a way that computing them from themselves changes nothing
(`flags1_flags1`, `flags2_flags2`).
-/

namespace StoryMachine

namespace Memory

variable {memory after : Memory}

/-- Memories of one story are alike if all their bytes are. -/
theorem eq_of_byteAt (hstory : after.story = memory.story)
    (hbytes : ∀ address, after.byteAt address = memory.byteAt address) : after = memory := by
  have hsize : after.bytes.size = memory.bytes.size := size_congr hstory
  refine ext_bytes hstory (Array.ext hsize fun i hi hi' => ?_)
  have hbyte := hbytes i
  simpa [byteAt, Array.getD, hi, hi'] using hbyte

/-- Behind dynamic memory they are. -/
theorem byteAt_of_le (hstory : after.story = memory.story) {address : Nat}
    (h : memory.dynamicCeiling ≤ address) : after.byteAt address = memory.byteAt address := by
  have hafter : after.dynamicCeiling ≤ address := by
    rwa [dynamicCeiling, hstory]
  have hbytes : after.bytes[address]? = memory.bytes[address]? := by
    rw [after.static_eq address hafter, memory.static_eq address h, hstory]
  rw [byteAt, byteAt, Array.getD_eq_getD_getElem?, Array.getD_eq_getD_getElem?, hbytes]

/-! ## Rows of writes -/

/-- Memory with a byte put in place, if it is dynamic memory. -/
def put (memory : Memory) (write : Nat × UInt8) : Memory :=
  if h : write.1 < memory.dynamicCeiling then memory.set write.1 write.2 h else memory

/-- Memory with bytes put in place, one after another. -/
def puts (memory : Memory) (writes : List (Nat × UInt8)) : Memory :=
  writes.foldl put memory

/-- Bytes are put in place one row after the other. -/
theorem puts_append (memory : Memory) (writes others : List (Nat × UInt8)) :
    memory.puts (writes ++ others) = (memory.puts writes).puts others :=
  List.foldl_append

/-- The places of a row of writes. -/
def Placed (writes : List (Nat × UInt8)) (address : Nat) : Prop :=
  address ∈ writes.map Prod.fst

/-- A byte that is put changes memory at its place only. -/
theorem sameOff_put (memory : Memory) (write : Nat × UInt8) :
    SameOff (· = write.1) memory (memory.put write) := by
  unfold put
  split
  · exact sameOff_set _ _ rfl
  · exact .refl _ memory

/-- Bytes that are put change memory at their places only. -/
theorem sameOff_puts (memory : Memory) (writes : List (Nat × UInt8)) :
    SameOff (Placed writes) memory (memory.puts writes) := by
  induction writes generalizing memory with
  | nil => exact .refl _ memory
  | cons write writes ih =>
    have hfirst : SameOff (Placed (write :: writes)) memory (memory.put write) :=
      (sameOff_put memory write).mono fun _ h => List.mem_cons.mpr (.inl h)
    have hrest : SameOff (Placed (write :: writes)) (memory.put write)
        ((memory.put write).puts writes) :=
      (ih (memory.put write)).mono fun _ h => List.mem_cons.mpr (.inr h)
    exact hfirst.trans hrest

/-- A write makes memories alike in its place.  Behind dynamic memory they are alike anyway. -/
theorem sameOff_put_put {write : Nat × UInt8} {writes : List (Nat × UInt8)}
    (h : SameOff (Placed (write :: writes)) memory after) :
    SameOff (Placed writes) (memory.put write) (after.put write) := by
  have hstory := ((sameOff_put after write).story_eq.trans h.story_eq).trans
    (sameOff_put memory write).story_eq.symm
  have hceiling : after.dynamicCeiling = memory.dynamicCeiling := h.dynamicCeiling_eq
  refine ⟨hstory, fun address hoff => ?_⟩
  by_cases hplace : address = write.1
  · subst hplace
    unfold put
    by_cases hdynamic : write.1 < memory.dynamicCeiling
    · rw [dif_pos hdynamic, dif_pos (hceiling ▸ hdynamic), byteAt_set_self, byteAt_set_self]
    · rw [dif_neg hdynamic, dif_neg (hceiling ▸ hdynamic)]
      exact byteAt_of_le h.story_eq (Nat.not_lt.mp hdynamic)
  · rw [(sameOff_put memory write).byteAt_eq address hplace,
      (sameOff_put after write).byteAt_eq address hplace]
    exact h.byteAt_eq address fun hmem => (List.mem_cons.mp hmem).elim hplace hoff

/-- What was there before does not matter where something is written. -/
theorem puts_congr {writes : List (Nat × UInt8)} (h : SameOff (Placed writes) memory after) :
    after.puts writes = memory.puts writes := by
  induction writes generalizing memory after with
  | nil => exact eq_of_byteAt h.story_eq fun address => h.byteAt_eq address (nomatch ·)
  | cons write writes ih => exact ih (sameOff_put_put h)

/-- **Writing the same again changes nothing.** -/
theorem puts_puts (memory : Memory) (writes : List (Nat × UInt8)) :
    (memory.puts writes).puts writes = memory.puts writes :=
  puts_congr (sameOff_puts memory writes)

end Memory

namespace Header

open Memory

/-! ## The row of the header -/

/-- The writes that put a word. -/
def putWord (address : Nat) (value : Word) : List (Nat × UInt8) :=
  [(address, value.high), (address + 1, value.low)]

/-- The two fields of flags. -/
def flagWrites (info : HostInfo) (memory : Memory) : List (Nat × UInt8) :=
  (HeaderField.flags1.address, flags1 memory.version info (memory.headerByte .flags1)) ::
    putWord HeaderField.flags2.address (flags2 memory.version info (memory.headerWord .flags2))

/-- Who reads the flags. -/
def interpreterWrites (options : Options) : List (Nat × UInt8) :=
  [(HeaderField.interpreterNumber.address, options.interpreterNumber),
    (HeaderField.interpreterVersion.address, options.interpreterVersion)]

/-- The size of the screen in characters. -/
def sizeWrites (info : HostInfo) : List (Nat × UInt8) :=
  [(HeaderField.screenLines.address, info.lines),
    (HeaderField.screenColumns.address, info.columns)]

/-- The size of the screen in units, the size of a unit and the default colours. -/
def screenWrites (version : Nat) (info : HostInfo) : List (Nat × UInt8) :=
  let fontWidth := if version = 6 then info.fontWidth else 1
  let fontHeight := if version = 6 then info.fontHeight else 1
  let widthField := if version = 6 then HeaderField.fontHeight else .fontWidth
  let heightField := if version = 6 then HeaderField.fontWidth else .fontHeight
  putWord HeaderField.screenWidth.address (info.columns.toUInt16 * fontWidth.toUInt16)
    ++ putWord HeaderField.screenHeight.address (info.lines.toUInt16 * fontHeight.toUInt16)
    ++ [(widthField.address, fontWidth), (heightField.address, fontHeight),
      (HeaderField.defaultBackground.address, info.background),
      (HeaderField.defaultForeground.address, info.foreground)]

/-- An extension field, if there is one. -/
def extensionWrites (memory : Memory) (field : ExtensionField) (value : Word) :
    List (Nat × UInt8) :=
  match memory.extensionAddress? field with
  | some address => putWord address value
  | none => []

/-- What is written behind the flags.  None of it is computed from what is there. -/
def plainWrites (info : HostInfo) (options : Options) (memory : Memory) : List (Nat × UInt8) :=
  interpreterWrites options
    ++ (if 4 ≤ memory.version then sizeWrites info else [])
    ++ (if 5 ≤ memory.version then screenWrites memory.version info else [])
    ++ extensionWrites memory .trueForeground (trueColour info.foreground)
    ++ extensionWrites memory .trueBackground (trueColour info.background)
    ++ putWord HeaderField.revision.address 0x0101

/-- Everything that setting up the header writes, in its order. -/
def writes (info : HostInfo) (options : Options) (memory : Memory) : List (Nat × UInt8) :=
  flagWrites info memory ++ plainWrites info options memory

variable {memory : Memory}

/-- Setting a header byte puts it. -/
theorem setHeaderByte_eq_puts (memory : Memory) (field : HeaderField) (value : UInt8) :
    memory.setHeaderByte field value = memory.puts [(field.address, value)] := by
  have hbound := field.address_lt
  have hceiling := memory.header_le_ceiling
  have hdynamic : field.address < memory.dynamicCeiling := by omega
  exact (dif_pos hdynamic).symm

/-- Putting a word puts its high byte and its low byte. -/
theorem puts_putWord (memory : Memory) (address : Nat) (value : Word) :
    memory.puts (putWord address value)
      = (memory.put (address, value.high)).put (address + 1, value.low) := by
  unfold puts putWord
  rw [List.foldl_cons, List.foldl_cons, List.foldl_nil]

/-- Setting a word puts it. -/
theorem setWord_eq_puts {address : Nat} (value : Word) (h : address + 1 < memory.dynamicCeiling) :
    memory.setWord address value h = memory.puts (putWord address value) := by
  have hlow : address < memory.dynamicCeiling := Nat.lt_of_succ_lt h
  have hfirst : memory.put (address, value.high) = memory.set address value.high hlow :=
    dif_pos hlow
  have hsecond : (memory.set address value.high hlow).put (address + 1, value.low)
      = memory.setWord address value h := dif_pos h
  rw [puts_putWord, hfirst, hsecond]

/-- Setting a header word puts it. -/
theorem setHeaderWord_eq_puts (memory : Memory) (field : HeaderField) (value : Word) :
    memory.setHeaderWord field value = memory.puts (putWord field.address value) :=
  setWord_eq_puts value _

/-- A field that does not straddle is written as a whole or not at all. -/
theorem setExtension_eq_puts {field : ExtensionField} (h : ¬memory.Straddling field)
    (value : Word) :
    memory.setExtension field value = memory.puts (extensionWrites memory field value) := by
  unfold setExtension extensionWrites
  cases hplace : memory.extensionAddress? field with
  | none => rfl
  | some address =>
    dsimp only
    by_cases hfits : address + 1 < memory.dynamicCeiling
    · rw [dif_pos hfits]
      exact setWord_eq_puts value hfits
    · have hbehind : ¬address < memory.dynamicCeiling := by
        intro hlt
        refine h (hplace.trans (congrArg some ?_))
        omega
      have hfirst : memory.put (address, value.high) = memory := dif_neg hbehind
      have hsecond : memory.put (address + 1, value.low) = memory := dif_neg hfits
      rw [dif_neg hfits, puts_putWord, hfirst, hsecond]

/-- Setting the flags is putting bytes. -/
theorem setFlags_eq_puts (info : HostInfo) (options : Options) (memory : Memory) :
    setFlags memory.version info options memory
      = memory.puts (flagWrites info memory ++ interpreterWrites options) := by
  have hflags (value : UInt8) : (memory.setHeaderByte .flags1 value).headerWord .flags2
      = memory.headerWord .flags2 := by
    have hsame : SameOff (· = HeaderField.flags1.address) memory
        (memory.setHeaderByte .flags1 value) := sameOff_setHeaderByte .flags1 value rfl
    exact hsame.wordAt_eq (by decide) (by decide)
  unfold setFlags
  dsimp only
  rw [hflags]
  simp only [setHeaderByte_eq_puts, setHeaderWord_eq_puts, ← puts_append]
  rfl

/-- Setting the size is putting bytes. -/
theorem setSize_eq_puts (info : HostInfo) (memory : Memory) :
    setSize info memory = memory.puts (sizeWrites info) := by
  unfold setSize
  simp only [setHeaderByte_eq_puts, ← puts_append]
  rfl

/-- Setting the screen is putting bytes. -/
theorem setScreen_eq_puts (info : HostInfo) (memory : Memory) :
    setScreen info memory = memory.puts (screenWrites memory.version info) := by
  unfold setScreen screenWrites
  simp only [setHeaderByte_eq_puts, setHeaderWord_eq_puts, ← puts_append]
  simp only [List.append_assoc, List.cons_append, List.nil_append]

/-- The fields of the header are the flags and what is written behind them. -/
theorem setFields_eq_puts (info : HostInfo) (options : Options) (memory : Memory) :
    setFields info options memory = memory.puts (flagWrites info memory
      ++ interpreterWrites options ++ (if 4 ≤ memory.version then sizeWrites info else [])
      ++ (if 5 ≤ memory.version then screenWrites memory.version info else [])) := by
  have hsized : (setSize info (setFlags memory.version info options memory)).version
      = memory.version :=
    version_congr ((sameOff_setFlags memory.version info options memory).trans
      (sameOff_setSize info _)).story_eq
  unfold setFields
  dsimp only
  by_cases hfive : 5 ≤ memory.version
  · have hfour : 4 ≤ memory.version := by omega
    rw [if_pos hfive, if_pos hfive, if_pos hfour, setScreen_eq_puts, hsized, setSize_eq_puts,
      setFlags_eq_puts, ← puts_append, ← puts_append, List.append_assoc _ (sizeWrites info)]
  · rw [if_neg hfive, if_neg hfive, List.append_nil]
    by_cases hfour : 4 ≤ memory.version
    · rw [if_pos hfour, if_pos hfour, setSize_eq_puts, setFlags_eq_puts, ← puts_append]
    · rw [if_neg hfour, if_neg hfour, setFlags_eq_puts, List.append_nil]

/-- **Setting up the header is a row of writes**, if the extension table lies apart. -/
theorem setUp_eq_puts (hapart : memory.ExtensionApart) {info : HostInfo} {options : Options}
    (hfree : ¬Blocked info options memory) :
    Memory.setUp info options memory = memory.puts (writes info options memory) := by
  obtain ⟨hforeground, hbackground⟩ := not_or.mp hfree
  have hwrites {middle : Memory} (hmiddle : middle.extension = memory.extension)
      (field : ExtensionField) (value : Word) :
      extensionWrites middle field value = extensionWrites memory field value := by
    unfold extensionWrites extensionAddress?
    rw [hmiddle]
  unfold Memory.setUp writes plainWrites
  rw [setHeaderWord_eq_puts, setBackground, setExtension_eq_puts hbackground,
    hwrites (extension_setForeground hapart info options), setForeground,
    setExtension_eq_puts hforeground, hwrites (extension_setFields hapart info options),
    setFields_eq_puts]
  simp only [← puts_append, List.append_assoc]

/-! ## The flags -/

/-- Keeping some bits and setting others can be done again. -/
theorem and_or_again (old kept set : UInt8) :
    ((old &&& kept ||| set) &&& kept) ||| set = old &&& kept ||| set := by
  apply UInt8.eq_of_toBitVec_eq
  simp only [UInt8.toBitVec_or, UInt8.toBitVec_and]
  ext i hi
  simp only [BitVec.getElem_or, BitVec.getElem_and]
  cases old.toBitVec[i] <;> cases kept.toBitVec[i] <;> cases set.toBitVec[i] <;> rfl

/-- The first flags are made of some old bits, and of others that are the host's. -/
theorem flags1_flags1 (version : Nat) (info : HostInfo) (old : UInt8) :
    flags1 version info (flags1 version info old) = flags1 version info old := by
  unfold flags1
  split
  · simp only [UInt8.or_assoc]
    exact and_or_again _ _ _
  · simp only [UInt8.or_assoc]
    exact and_or_again _ _ _

/-- The bits of the second flags that a host leaves to the story. -/
def granted (info : HostInfo) : Word :=
  mask info.pictures 0x0008 &&& mask info.undo 0x0010 &&& mask info.mouse 0x0020
    &&& mask info.colours 0x0040 &&& mask info.sound 0x0080 &&& mask info.menus 0x0100

/-- The second flags lose the bits that the host does not grant, from version 5 on. -/
theorem flags2_eq (version : Nat) (info : HostInfo) (old : Word) :
    flags2 version info old = if version ≤ 4 then old else old &&& granted info := by
  unfold flags2 granted
  simp only [UInt16.and_assoc]

/-- The second flags lose nothing more the second time. -/
theorem flags2_flags2 (version : Nat) (info : HostInfo) (old : Word) :
    flags2 version info (flags2 version info old) = flags2 version info old := by
  simp only [flags2_eq]
  split
  · rfl
  · rw [UInt16.and_assoc, UInt16.and_self]

/-- The three lowest bits are always the story's. -/
theorem granted_and_seven (info : HostInfo) : granted info &&& 7 = 7 := by
  have hmask : ∀ pictures undo mouse colours sound menus : Bool,
      (mask pictures 0x0008 &&& mask undo 0x0010 &&& mask mouse 0x0020 &&& mask colours 0x0040
        &&& mask sound 0x0080 &&& mask menus 0x0100) &&& 7 = 7 := by decide
  exact hmask _ _ _ _ _ _

/-- The three lowest of the second flags are the story's own. -/
theorem flags2_and_seven (version : Nat) (info : HostInfo) (old : Word) :
    flags2 version info old &&& 7 = old &&& 7 := by
  rw [flags2_eq]
  split
  · rfl
  · rw [UInt16.and_assoc, granted_and_seven]

/-! ## The places -/

/-- The places behind the flags: who reads them, from version 4 on the size of the screen, from
version 5 on the size of the font and the default colours, the revision, and two fields of the
extension table. -/
def PlainPlace (memory : Memory) (address : Nat) : Prop :=
  (0x1e ≤ address ∧ address ≤ 0x1f) ∨
    (4 ≤ memory.version ∧ 0x20 ≤ address ∧ address ≤ 0x21) ∨
    (5 ≤ memory.version ∧
      ((0x22 ≤ address ∧ address ≤ 0x27) ∨ (0x2c ≤ address ∧ address ≤ 0x2d))) ∨
    (0x32 ≤ address ∧ address ≤ 0x33) ∨
    ∃ field, (field = .trueForeground ∨ field = .trueBackground) ∧
      ∃ start, memory.extensionAddress? field = some start ∧
        (address = start ∨ address = start + 1)

/-- All places that setting up the header may change. -/
def SetUpPlace (memory : Memory) (address : Nat) : Prop :=
  address = 0x01 ∨ (0x10 ≤ address ∧ address ≤ 0x11) ∨ PlainPlace memory address

/-- The places of two rows are those of either. -/
theorem placed_append {writes others : List (Nat × UInt8)} {address : Nat} :
    Placed (writes ++ others) address ↔ Placed writes address ∨ Placed others address := by
  unfold Placed
  rw [List.map_append, List.mem_append]

/-- The places of two writes are these two. -/
theorem placed_pair {first second address : Nat} {value other : UInt8} :
    Placed [(first, value), (second, other)] address ↔ address = first ∨ address = second := by
  unfold Placed
  simp only [List.map_cons, List.map_nil, List.mem_cons, List.not_mem_nil, or_false]

/-- An extension field is written in its two places. -/
theorem placed_extensionWrites {field : ExtensionField} {value : Word} {address : Nat}
    (h : Placed (extensionWrites memory field value) address) :
    ∃ start, memory.extensionAddress? field = some start ∧
      (address = start ∨ address = start + 1) := by
  unfold extensionWrites at h
  split at h
  case h_1 start hstart => exact ⟨start, hstart, placed_pair.mp h⟩
  case h_2 => exact nomatch h

/-- The two bytes of the font size change places in version 6. -/
theorem placed_screenWrites {version : Nat} {info : HostInfo} {address : Nat}
    (h : Placed (screenWrites version info) address) :
    (0x22 ≤ address ∧ address ≤ 0x27) ∨ (0x2c ≤ address ∧ address ≤ 0x2d) := by
  have hplaces : address ∈ [0x22, 0x23, 0x24, 0x25, 0x26, 0x27, 0x2c, 0x2d] ∨
      address ∈ [0x22, 0x23, 0x24, 0x25, 0x27, 0x26, 0x2c, 0x2d] := by
    unfold screenWrites at h
    by_cases hsix : version = 6
    · simp only [if_pos hsix] at h
      exact .inr h
    · simp only [if_neg hsix] at h
      exact .inl h
  simp only [List.mem_cons, List.not_mem_nil, or_false] at hplaces
  omega

/-- What is written behind the flags is written in plain places. -/
theorem placed_plainWrites {info : HostInfo} {options : Options} {address : Nat}
    (h : Placed (plainWrites info options memory) address) : PlainPlace memory address := by
  unfold plainWrites at h
  simp only [placed_append] at h
  rcases h with ((((hwho | hsize) | hscreen) | hforeground) | hbackground) | hrevision
  · have := placed_pair.mp hwho
    simp only [HeaderField.address] at this
    exact .inl (by omega)
  · split at hsize
    case isTrue hfour =>
      have := placed_pair.mp hsize
      simp only [HeaderField.address] at this
      exact .inr (.inl (by omega))
    case isFalse => exact nomatch hsize
  · split at hscreen
    case isTrue hfive => exact .inr (.inr (.inl ⟨hfive, placed_screenWrites hscreen⟩))
    case isFalse => exact nomatch hscreen
  · exact .inr (.inr (.inr (.inr ⟨_, .inl rfl, placed_extensionWrites hforeground⟩)))
  · exact .inr (.inr (.inr (.inr ⟨_, .inr rfl, placed_extensionWrites hbackground⟩)))
  · have := placed_pair.mp hrevision
    simp only [HeaderField.address] at this
    exact .inr (.inr (.inr (.inl (by omega))))

/-- **Everything is written in places that setting up may change.** -/
theorem placed_writes {info : HostInfo} {options : Options} {address : Nat}
    (h : Placed (writes info options memory) address) : SetUpPlace memory address := by
  rcases placed_append.mp h with hflags | hplain
  · have hplaces : address ∈ [0x01, 0x10, 0x11] := hflags
    simp only [List.mem_cons, List.not_mem_nil, or_false] at hplaces
    unfold SetUpPlace
    omega
  · exact .inr (.inr (placed_plainWrites hplain))

/-- All of them come behind the flags, if the extension table lies apart. -/
theorem PlainPlace.le (hapart : memory.ExtensionApart) {address : Nat}
    (h : PlainPlace memory address) : 0x1e ≤ address := by
  rcases h with hwho | hsize | hscreen | hrevision | ⟨field, -, start, hstart, hplace⟩
  · omega
  · omega
  · omega
  · omega
  · obtain ⟨table, words, htable, -, rfl⟩ := extensionAddress?_eq_some.mp hstart
    have hbehind := hapart.le_start htable
    omega

/-- The places that setting up may change are those of the header and the extension. -/
theorem SetUpPlace.touched {address : Nat} (h : SetUpPlace memory address) :
    Touched memory address := by
  rcases h with hfirst | hsecond | hwho | hsize | hscreen | hrevision | hfield
  · exact .inl (by unfold SetUpByte; omega)
  · exact .inl (by unfold SetUpByte; omega)
  · exact .inl (by unfold SetUpByte; omega)
  · exact .inl (by unfold SetUpByte; omega)
  · exact .inl (by unfold SetUpByte; omega)
  · exact .inl (by unfold SetUpByte; omega)
  · obtain ⟨field, -, start, hstart, hplace⟩ := hfield
    exact touched_of_extensionAddress? hstart hplace

/-! ## Twice -/

/-- Putting the flags is setting their two fields. -/
theorem puts_flagWrites (info : HostInfo) (memory : Memory) :
    memory.puts (flagWrites info memory)
      = (memory.setHeaderByte .flags1
          (flags1 memory.version info (memory.headerByte .flags1))).setHeaderWord .flags2
          (flags2 memory.version info (memory.headerWord .flags2)) := by
  rw [setHeaderWord_eq_puts, setHeaderByte_eq_puts, ← puts_append]
  rfl

/-- The first flags are computed from what they were. -/
theorem headerByte_flagWrites (info : HostInfo) (memory : Memory) :
    (memory.puts (flagWrites info memory)).headerByte .flags1
      = flags1 memory.version info (memory.headerByte .flags1) := by
  have hword (middle : Memory) (value : Word) :
      (middle.setHeaderWord .flags2 value).headerByte .flags1 = middle.headerByte .flags1 := by
    have hsame : SameOff (0x10 ≤ ·) middle (middle.setHeaderWord .flags2 value) :=
      sameOff_setHeaderWord .flags2 value (by decide) (by decide)
    exact hsame.byteAt_eq _ (by decide)
  rw [puts_flagWrites, hword]
  exact byteAt_set_self _ _ _ _

/-- The second flags are computed from what they were. -/
theorem headerWord_flagWrites (info : HostInfo) (memory : Memory) :
    (memory.puts (flagWrites info memory)).headerWord .flags2
      = flags2 memory.version info (memory.headerWord .flags2) := by
  rw [puts_flagWrites]
  exact wordAt_setWord _ _

/-- Nothing that is written behind the flags touches them. -/
theorem sameOff_plainWrites (hapart : memory.ExtensionApart) (info : HostInfo) (options : Options) :
    SameOff (0x1e ≤ ·) (memory.puts (flagWrites info memory))
      (memory.puts (writes info options memory)) := by
  unfold writes
  rw [puts_append]
  exact (sameOff_puts _ _).mono fun _ h => (placed_plainWrites h).le hapart

/-- The first flags are left by what comes behind them. -/
theorem headerByte_writes (hapart : memory.ExtensionApart) (info : HostInfo) (options : Options) :
    (memory.puts (writes info options memory)).headerByte .flags1
      = flags1 memory.version info (memory.headerByte .flags1) :=
  ((sameOff_plainWrites hapart info options).byteAt_eq _ (by decide)).trans
    (headerByte_flagWrites info memory)

/-- The second flags are left by what comes behind them. -/
theorem headerWord_writes (hapart : memory.ExtensionApart) (info : HostInfo) (options : Options) :
    (memory.puts (writes info options memory)).headerWord .flags2
      = flags2 memory.version info (memory.headerWord .flags2) :=
  ((sameOff_plainWrites hapart info options).wordAt_eq (by decide) (by decide)).trans
    (headerWord_flagWrites info memory)

/-- Setting up changes memory in its places only. -/
theorem sameOff_writes (info : HostInfo) (options : Options) (memory : Memory) :
    SameOff (SetUpPlace memory) memory (memory.puts (writes info options memory)) :=
  (sameOff_puts memory _).mono fun _ => placed_writes

/-- Setting up leaves where the extension table is. -/
theorem extension_writes (hapart : memory.ExtensionApart) (info : HostInfo) (options : Options) :
    (memory.puts (writes info options memory)).extension = memory.extension :=
  extension_eq_of_sameOff hapart
    ((sameOff_writes info options memory).mono fun _ h => h.touched)

/-- The second row of writes is the first one. -/
theorem writes_writes (hapart : memory.ExtensionApart) (info : HostInfo) (options : Options) :
    writes info options (memory.puts (writes info options memory)) = writes info options memory := by
  have hversion := version_congr (sameOff_writes info options memory).story_eq
  have hflags : flagWrites info (memory.puts (writes info options memory))
      = flagWrites info memory := by
    unfold flagWrites
    rw [hversion, headerByte_writes hapart, headerWord_writes hapart, flags1_flags1, flags2_flags2]
  have hplain : plainWrites info options (memory.puts (writes info options memory))
      = plainWrites info options memory := by
    unfold plainWrites extensionWrites extensionAddress?
    rw [hversion, extension_writes hapart]
  rw [writes, hflags, hplain, ← writes]

/-! ## What is kept -/

/-- The words of the header that belong to the story: its release, the places of its tables, its
length and checksum, and where it begins. -/
def keptWords : List HeaderField :=
  [.release, .highMemory, .initialPC, .dictionary, .objectTable, .globalTable, .staticMemory,
    .abbreviationsTable, .fileLength, .checksum, .routinesOffset, .stringsOffset, .terminatorTable,
    .outputStream3Width, .alphabetTable, .extensionTable]

/-- What a story has said about itself is still there. -/
structure Kept (memory after : Memory) : Prop where
  version_eq : after.version = memory.version
  versionByte_eq : after.headerByte .version = memory.headerByte .version
  word_eq : ∀ field ∈ keptWords, after.headerWord field = memory.headerWord field
  serial_eq : after.serial = memory.serial
  /-- Transcript, fixed pitch and redrawing are the story's own. -/
  flags_eq : after.headerWord .flags2 &&& 7 = memory.headerWord .flags2 &&& 7

/-- The rest of the header is left alone, if the extension table lies apart. -/
theorem not_setUpPlace_of_lt (hapart : memory.ExtensionApart) {address : Nat} (hlt : address < 64)
    (h : ¬SetUpByte address) : ¬SetUpPlace memory address :=
  fun hplace => not_touched_of_lt hapart hlt h hplace.touched

/-- **Setting up leaves what a story has said about itself.** -/
theorem kept_writes (hapart : memory.ExtensionApart) (info : HostInfo) (options : Options) :
    Kept memory (memory.puts (writes info options memory)) := by
  have hsame := sameOff_writes info options memory
  have hoff {address : Nat} (hlt : address < 64) (h : ¬SetUpByte address) :
      (memory.puts (writes info options memory)).byteAt address = memory.byteAt address :=
    hsame.byteAt_eq address (not_setUpPlace_of_lt hapart hlt h)
  have hwords : ∀ field ∈ keptWords, ¬SetUpByte field.address ∧ ¬SetUpByte (field.address + 1) := by
    decide
  refine ⟨version_congr hsame.story_eq, hoff (by decide) (by decide), fun field hfield => ?_, ?_, ?_⟩
  · obtain ⟨hfirst, hsecond⟩ := hwords field hfield
    have hbound := field.address_lt
    exact hsame.wordAt_eq (not_setUpPlace_of_lt hapart (by omega) hfirst)
      (not_setUpPlace_of_lt hapart hbound hsecond)
  · rw [Snapshot.serial_eq_map, Snapshot.serial_eq_map]
    refine List.map_congr_left fun i hi => hoff ?_ ?_
    · have := List.mem_range.mp hi
      omega
    · have := List.mem_range.mp hi
      unfold SetUpByte
      omega
  · rw [headerWord_writes hapart, flags2_and_seven]

/-- **Setting up the header again changes nothing,** and setting it up changes nothing but the
places that are set up in the version of the story.  What the story has said about itself is kept.
The table has not moved, so nothing is in the way the second time. -/
theorem set_up_again (hapart : memory.ExtensionApart) {info : HostInfo} {options : Options}
    {draft : Draft} (h : (setUp info options).run memory = (.ok (), draft)) :
    (∃ notices, (setUp info options).run draft.memory
        = (.ok (), { memory := draft.memory, notices })) ∧
      SameOff (SetUpPlace memory) memory draft.memory ∧ Kept memory draft.memory := by
  obtain ⟨notices, hrun⟩ := on_setUp info options memory
  have hfree : ¬Blocked info options memory := by
    intro hblocked
    rw [if_pos hblocked, h] at hrun
    exact nomatch hrun
  have hmemory : draft.memory = memory.puts (writes info options memory) := by
    rw [if_neg hfree, h] at hrun
    rw [(Prod.mk.inj hrun).2]
    exact setUp_eq_puts hapart hfree
  have hstory := (sameOff_writes info options memory).story_eq
  have hextension := extension_writes hapart info options
  rw [hmemory]
  refine ⟨?_, sameOff_writes info options memory, kept_writes hapart info options⟩
  have hapart' : (memory.puts (writes info options memory)).ExtensionApart := by
    have hpointer := (kept_writes hapart info options).word_eq .extensionTable (by decide)
    unfold ExtensionApart
    rw [hpointer, version_congr hstory]
    exact hapart
  have hfree' : ¬Blocked info options (memory.puts (writes info options memory)) := by
    rw [blocked_iff hapart', straddling_congr hstory hextension, straddling_congr hstory hextension,
      ← blocked_iff hapart info options]
    exact hfree
  obtain ⟨notices', hrun'⟩ := on_setUp info options (memory.puts (writes info options memory))
  rw [if_neg hfree', setUp_eq_puts hapart' hfree', writes_writes hapart, puts_puts] at hrun'
  exact ⟨notices', hrun'⟩

/-- A version 6 story with an extension table at 72, and all bits of the flags set. -/
def tabled : Array UInt8 :=
  (([6, 255, 0, 7, 0, 0, 0, 96, 0, 0, 0, 0, 0, 64, 0, 96, 255, 255] : List UInt8)
    ++ List.replicate 36 0 ++ [0, 72] ++ List.replicate 16 0 ++ [0, 6]
    ++ List.replicate 22 0).toArray

def tabledMemory : Memory :=
  ((Memory.ofImage tabled).toOption).get (by decide +kernel)

/-- The flags and both colours are set up, and stay so. -/
theorem set_up_again_tabled :
    tabledMemory.ExtensionApart ∧ ∃ draft, (setUp {} {}).run tabledMemory = (.ok (), draft) ∧
      draft.memory.headerByte .flags1 = 0xdc ∧ draft.memory.headerWord .flags2 = 0xfe17 ∧
      draft.memory.wordAt 82 = 0x7fff ∧ draft.memory.wordAt 84 = 0 ∧
      ((setUp {} {}).run draft.memory).2.memory = draft.memory := by
  have hapart : tabledMemory.ExtensionApart := .inr (.inr (by decide +kernel))
  have hok : ((setUp {} {}).run tabledMemory).1.toOption = some () := by decide +kernel
  obtain ⟨⟨notices, hagain⟩, -, -⟩ := set_up_again hapart (eq_of_toOption hok)
  refine ⟨hapart, _, eq_of_toOption hok, by decide +kernel, by decide +kernel, by decide +kernel,
    by decide +kernel, ?_⟩
  rw [hagain]

end Header

end StoryMachine
