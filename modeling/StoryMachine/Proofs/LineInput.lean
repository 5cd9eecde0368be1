import StoryMachine.Proofs.Reading
import StoryMachine.Proofs.TableCapture

/-!
# A typed line in its buffer

What a player types is put in lower case, rid of control characters, written in the codes
of the story and cut to the room of the text buffer: these are `lineCodes`.  A story has
at most 97 extra characters (`Supplied.size_le`), so that all codes that come out of this
are codes of text, and the last filter of the reader has nothing left to do
(`inputCodes_eq`).

**Writing and reading a buffer** are opposites (`on_writeText`), in both layouts: before
version 5 the text ends with a zero, which no code of text is, and later its length comes
before it.  Neither layout needs a byte outside the buffer, whose last byte is `lastByte`.
-/

namespace StoryMachine

/-! ## Writing bytes -/

/-- Bytes that fit into dynamic memory are written there, and nothing else is. -/
theorem Edit.on_writeBytes_of_le {draft : Draft} {address : Nat} {bytes : List UInt8}
    (h : address + bytes.length ≤ draft.memory.dynamicCeiling) :
    ∃ memory, Work.on (Edit.writeBytes address bytes) draft = (.ok (), { draft with memory }) ∧
      memory.Holds address bytes ∧
      Memory.SameOff (fun place => address ≤ place ∧ place < address + bytes.length)
        draft.memory memory := by
  induction bytes generalizing address draft with
  | nil => exact ⟨draft.memory, rfl, trivial, .refl _ _⟩
  | cons b rest ih =>
      rw [List.length_cons] at h
      have hfirst : address < draft.memory.dynamicCeiling := by omega
      obtain ⟨memory, hrest, hholds, hsame⟩ :=
        @ih { draft with memory := draft.memory.set address b hfirst } (address + 1) (by
          show address + 1 + rest.length ≤ draft.memory.dynamicCeiling
          omega)
      have hwrite : Work.on (Edit.writeByte address b) draft = _ := Edit.on_writeByte_of_lt hfirst b
      have hb : memory.byteAt address = b := by
        rw [hsame.byteAt_eq address (by omega)]
        exact draft.memory.byteAt_set_self address b hfirst
      have hsize : address < memory.size := by
        rw [Memory.size_congr hsame.story_eq]
        have hceiling := (draft.memory.set address b hfirst).ceiling_le_size
        exact Nat.lt_of_lt_of_le hfirst hceiling
      refine ⟨memory, ?_, ⟨Memory.readByte_eq_ok.mpr ⟨hsize, hb⟩, hholds⟩, ?_⟩
      · rw [writeBytes, Work.on_bind_of_ok hwrite, hrest]
      · refine (Memory.sameOff_set b hfirst ?_).trans (hsame.mono fun place hplace => ?_)
        · rw [List.length_cons]
          omega
        · rw [List.length_cons]
          omega

/-- Bytes and then a byte apart from them are written, and nothing else is. -/
theorem Edit.on_writeBytes_byte {draft : Draft} {address place : Nat} {bytes : List UInt8}
    (value : UInt8) (h : address + bytes.length ≤ draft.memory.dynamicCeiling)
    (hplace : place < draft.memory.dynamicCeiling)
    (hapart : place < address ∨ address + bytes.length ≤ place) :
    ∃ memory, Work.on (do Edit.writeBytes address bytes; Edit.writeByte place value) draft
        = (.ok (), { draft with memory }) ∧
      memory.Holds address bytes ∧ memory.readByte place = .ok value ∧
      Memory.SameOff
        (fun other => other = place ∨ (address ≤ other ∧ other < address + bytes.length))
        draft.memory memory := by
  obtain ⟨middle, hwrite, hholds, hsame⟩ := Edit.on_writeBytes_of_le h
  have hmiddle : place < middle.dynamicCeiling := by
    rw [hsame.dynamicCeiling_eq]
    exact hplace
  have hset : Memory.SameOff (· = place) middle (middle.set place value hmiddle) :=
    Memory.sameOff_set value hmiddle rfl
  refine ⟨middle.set place value hmiddle, ?_, hholds.of_sameOff hset ?_, ?_, ?_⟩
  · rw [Work.on_bind_of_ok hwrite]
    exact @Edit.on_writeByte_of_lt { draft with memory := middle } place hmiddle value
  · intro i hi
    omega
  · rw [Memory.readByte_eq_ok, Memory.size_set]
    have hsize := middle.ceiling_le_size
    exact ⟨by omega, middle.byteAt_set_self place value hmiddle⟩
  · exact (hsame.mono fun _ hother => .inr hother).trans (hset.mono fun _ hother => .inl hother)

/-! ## The codes of a typed line -/

namespace UnicodeTable

/-- A table that a story can have: the standard one, or one that is read from memory. -/
def Supplied (table : UnicodeTable) : Prop :=
  table = .standard ∨ ∃ bytes address, load bytes address = .ok table

/-- A table that a story can have has at most 97 extra characters. -/
theorem Supplied.size_le {table : UnicodeTable} (h : table.Supplied) : table.extras.size ≤ 97 := by
  obtain rfl | ⟨bytes, address, hload⟩ := h
  · rw [standard, Array.size_map]
    decide
  · unfold load at hload
    cases hcount : bytes[address]? with
    | none =>
        rw [hcount] at hload
        exact nomatch hload
    | some count =>
        rw [hcount] at hload
        dsimp only at hload
        by_cases hmany : 97 < count
        · rw [if_pos hmany] at hload
          exact nomatch hload
        · rw [if_neg hmany] at hload
          obtain ⟨entries, hentries, heq⟩ := bind_eq_ok.mp hload
          obtain rfl := Except.ok.inj heq
          have hlength := (mapM_eq_ok hentries).1
          rw [List.length_range] at hlength
          have hle : count.toNat ≤ 97 := UInt8.le_iff_toNat_le.mp (UInt8.not_lt.mp hmany)
          rw [List.size_toArray, hlength]
          exact hle

end UnicodeTable

/-- A character in lower case is itself, or stands 32 places later. -/
theorem toNat_lowerCase (c : Char) :
    (lowerCase c).toNat = c.toNat ∨ (lowerCase c).toNat = c.toNat + 0x20 := by
  unfold lowerCase
  by_cases hcapital : ('A' ≤ c ∧ c ≤ 'Z') ∨ ('\u00c0' ≤ c ∧ c ≤ '\u00de' ∧ c ≠ '\u00d7')
  · rw [if_pos hcapital]
    have hle : c.toNat ≤ 0xde := by
      rcases hcapital with ⟨-, hle⟩ | ⟨-, hle, -⟩
      · exact Nat.le_trans (Char.le_def.mp hle) (by decide)
      · exact Char.le_def.mp hle
    have hvalid : (c.toNat + 0x20).isValidChar := .inl (by omega)
    rw [Char.ofNat, dif_pos hvalid]
    right
    rfl
  · rw [if_neg hcapital]
    left
    rfl

namespace TextBuffer

/-- Typed text as a story gets it: in lower case and without control characters. -/
def typedText (text : String) : String :=
  String.ofList ((text.toList.filter fun c => !isControl c).map lowerCase)

variable {unicode : UnicodeTable} {memory : Memory} {address room : Nat}

/-- The codes of text are the printable ones and those of extra characters. -/
theorem isTextCode_iff {code : Word} :
    isTextCode code = true ↔ 32 ≤ code ∧ code ≤ 126 ∨ 155 ≤ code ∧ code ≤ 251 := by
  unfold isTextCode
  simp

/-- A character of typed text has a code of text. -/
theorem isTextCode_of_char (hunicode : unicode.Supplied) {c : Char} (hc : isControl c = false) :
    isTextCode ((unicode.ofChar? (lowerCase c)).getD questionMark) = true := by
  have hprintable : 32 ≤ (lowerCase c).toNat := by
    unfold isControl at hc
    have := toNat_lowerCase c
    simp only [Bool.or_eq_false_iff, decide_eq_false_iff_not] at hc
    omega
  have hline : ¬(lowerCase c = '\n' ∨ lowerCase c = '\r') := by
    rintro (heq | heq) <;> rw [heq] at hprintable <;> exact absurd hprintable (by decide)
  rw [isTextCode_iff]
  unfold UnicodeTable.ofChar?
  rw [if_neg hline]
  split
  case isTrue hascii =>
    left
    have hle : (lowerCase c).toNat ≤ 126 := Char.le_def.mp hascii.2
    have hcode : ((lowerCase c).toNat.toUInt16).toNat = (lowerCase c).toNat :=
      UInt16.toNat_ofNat_of_lt' (Nat.lt_of_le_of_lt hle (by decide))
    rw [Option.getD_some, UInt16.le_iff_toNat_le, UInt16.le_iff_toNat_le, hcode]
    exact ⟨hprintable, hle⟩
  case isFalse =>
    cases hplace : unicode.extras.toList.findIdx? (· = lowerCase c) with
    | none => exact .inl (by decide)
    | some i =>
        right
        obtain ⟨hi, -⟩ := List.findIdx?_eq_some_iff_getElem.mp hplace
        have hsize := hunicode.size_le
        rw [Array.length_toList] at hi
        have hcode : ((UnicodeTable.firstExtra + i).toUInt16).toNat = 155 + i :=
          UInt16.toNat_ofNat_of_lt' (by
            show 155 + i < 65536
            omega)
        rw [Option.map_some, Option.getD_some, UInt16.le_iff_toNat_le, UInt16.le_iff_toNat_le,
          hcode]
        constructor
        · exact Nat.le_add_right 155 i
        · show 155 + i ≤ 251
          omega

/-- Typed text is written in codes of text. -/
theorem isTextCode_of_mem_encode (hunicode : unicode.Supplied) {text : String} :
    ∀ code ∈ unicode.encode (typedText text), isTextCode code = true := by
  intro code hcode
  rw [UnicodeTable.encode, typedText, String.toList_ofList, List.map_map] at hcode
  obtain ⟨c, hc, rfl⟩ := List.mem_map.mp hcode
  have hkept := (List.mem_filter.mp hc).2
  exact isTextCode_of_char hunicode (by simpa using hkept)

/-- **What a line is read as**: the codes of the typed text, as many as there is room for. -/
theorem inputCodes_eq (hunicode : unicode.Supplied) (text : String) (room : Nat) :
    inputCodes unicode text room = (unicode.encode (typedText text)).take room := by
  have hall := @isTextCode_of_mem_encode unicode hunicode text
  have hencode : unicode.encode (typedText text)
      = (text.toList.filter fun c => !isControl c).map
        fun c => (unicode.ofChar? (lowerCase c)).getD questionMark := by
    rw [UnicodeTable.encode, typedText, String.toList_ofList, List.map_map]
    rfl
  rw [hencode] at hall ⊢
  rw [inputCodes, List.filter_eq_self.mpr hall]

/-! ## The buffer -/

/-- How many characters a text buffer has room for. -/
def roomAt (memory : Memory) (text : Nat) : Nat :=
  if memory.version ≤ 4 then (memory.byteAt text).toNat - 1 else (memory.byteAt text).toNat

/-- The last byte of a text buffer.  From version 5 on there is a count before the characters. -/
def lastByte (memory : Memory) (text : Nat) : Nat :=
  if memory.version ≤ 4 then text + (memory.byteAt text).toNat
  else text + 1 + (memory.byteAt text).toNat

/-- A text buffer that lies in dynamic memory, with room for what ends a text. -/
structure Writable (memory : Memory) (text : Nat) : Prop where
  last_lt : lastByte memory text < memory.dynamicCeiling
  size_pos : memory.version ≤ 4 → 0 < (memory.byteAt text).toNat

/-- The codes that a buffer takes of a typed line. -/
def lineCodes (unicode : UnicodeTable) (memory : Memory) (text : Nat) (typed : String) :
    List Word :=
  (unicode.encode (typedText typed)).take (roomAt memory text)

/-- The room of a text buffer in memory is read from its first byte. -/
theorem capacity_eq {text : Nat} (h : text < memory.size) :
    capacity memory text = .ok (roomAt memory text) := by
  unfold capacity
  rw [Memory.readByte, if_pos h]
  rfl

/-- Bytes other than zero are read up to the zero behind them, or as far as there is room. -/
theorem readUntilZero_of_holds {bytes : List UInt8} (h : memory.Holds address bytes)
    (hzero : bytes.length < room → memory.readByte (address + bytes.length) = .ok 0)
    (hroom : bytes.length ≤ room) (hbytes : ∀ b ∈ bytes, b ≠ 0) :
    readUntilZero memory room address = .ok (bytes.map (·.toUInt16)) := by
  induction bytes generalizing address room with
  | nil =>
      cases room with
      | zero => rfl
      | succ left =>
          have hread : memory.readByte address = .ok 0 := hzero (Nat.zero_lt_succ left)
          unfold readUntilZero
          rw [hread]
          rfl
  | cons b rest ih =>
      obtain ⟨hread, hrest⟩ := h
      cases room with
      | zero => exact absurd hroom (Nat.not_succ_le_zero _)
      | succ left =>
          have hb : b ≠ 0 := hbytes b List.mem_cons_self
          have hnext := ih hrest (fun hlt => by
              rw [Nat.add_assoc, Nat.add_comm 1]
              exact hzero (Nat.succ_lt_succ hlt))
            (Nat.le_of_succ_le_succ hroom) fun other hother => hbytes other (.tail b hother)
          unfold readUntilZero
          rw [hread]
          simp only [bind, Except.bind, if_neg hb]
          rw [hnext]
          rfl

/-- Bytes are read one by one. -/
theorem mapM_readByte_of_holds {bytes : List UInt8} (h : memory.Holds address bytes) :
    (List.range bytes.length).mapM (fun i => memory.readByte (address + i)) = .ok bytes := by
  induction bytes generalizing address with
  | nil => rfl
  | cons b rest ih =>
      obtain ⟨hread, hrest⟩ := h
      have hnext := ih hrest
      rw [List.length_cons, List.range_succ_eq_map, List.mapM_cons, List.mapM_map]
      have hshift : ((fun i => memory.readByte (address + i)) ∘ Nat.succ)
          = fun i => memory.readByte (address + 1 + i) :=
        funext fun i => congrArg memory.readByte (by
          show address + (i + 1) = address + 1 + i
          omega)
      rw [hshift, hnext]
      show (memory.readByte address >>= _) = _
      rw [hread]
      rfl

/-- A code of text is the byte that stands for it. -/
theorem toUInt16_toUInt8_of_isTextCode {code : Word} (h : isTextCode code = true) :
    code.toUInt8.toUInt16 = code ∧ code.toUInt8 ≠ 0 := by
  rw [isTextCode_iff, UInt16.le_iff_toNat_le, UInt16.le_iff_toNat_le, UInt16.le_iff_toNat_le,
    UInt16.le_iff_toNat_le] at h
  have hbound : 32 ≤ code.toNat ∧ code.toNat ≤ 251 := by
    rcases h with ⟨hlow, hhigh⟩ | ⟨hlow, hhigh⟩
    · exact ⟨hlow, Nat.le_trans hhigh (by decide)⟩
    · exact ⟨Nat.le_trans (by decide) hlow, hhigh⟩
  have hbyte : code.toUInt8.toNat = code.toNat := by
    rw [UInt16.toNat_toUInt8]
    omega
  constructor
  · apply UInt16.toNat_inj.mp
    rw [UInt8.toNat_toUInt16, hbyte]
  · intro hzero
    rw [hzero] at hbyte
    have : (0 : UInt8).toNat = 0 := rfl
    omega

/-- The size of a buffer and the version of the story decide how much room there is. -/
theorem roomAt_congr {touched : Nat → Prop} {after : Memory} {text : Nat}
    (h : Memory.SameOff touched memory after) (hoff : ¬touched text) :
    roomAt after text = roomAt memory text := by
  rw [roomAt, roomAt, Memory.version, Memory.version, h.story_eq, h.byteAt_eq text hoff]

/-- Before version 5 a text ends with a zero, if there is room for one behind it. -/
theorem readText_of_zero {text : Nat} {bytes : List UInt8} (hversion : memory.version ≤ 4)
    (hholds : memory.Holds (text + 1) (bytes ++ [0]))
    (hroom : bytes.length ≤ roomAt memory text) (hbytes : ∀ b ∈ bytes, b ≠ 0) :
    readText memory text = .ok (bytes.map (·.toUInt16)) := by
  rw [Memory.holds_append, Memory.holds_singleton] at hholds
  have hsize : text < memory.size := by
    have hzero := (Memory.readByte_eq_ok.mp hholds.2).1
    omega
  unfold readText
  rw [capacity_eq hsize]
  simp only [bind, Except.bind, if_pos hversion]
  exact readUntilZero_of_holds hholds.1 (fun _ => hholds.2) hroom hbytes

/-- From version 5 on a text has its length in front of it. -/
theorem readText_of_length {text : Nat} {bytes : List UInt8} {length : UInt8}
    (hversion : ¬memory.version ≤ 4) (hholds : memory.Holds (text + 1) (length :: bytes))
    (hlength : length.toNat = bytes.length) (hroom : bytes.length ≤ roomAt memory text) :
    readText memory text = .ok (bytes.map (·.toUInt16)) := by
  obtain ⟨hread, hholds⟩ := hholds
  have hsize : text < memory.size := Nat.lt_of_succ_lt (Memory.readByte_eq_ok.mp hread).1
  unfold readText
  rw [capacity_eq hsize]
  simp only [bind, Except.bind, if_neg hversion, hread]
  rw [hlength, Nat.min_eq_left hroom, mapM_readByte_of_holds hholds]
  rfl

/-- Codes of text come back from the bytes that stand for them, none of which is zero. -/
theorem toBytes_of_isTextCode {codes : List Word} (h : ∀ code ∈ codes, isTextCode code = true) :
    (codes.map (·.toUInt8)).map (·.toUInt16) = codes ∧ ∀ b ∈ codes.map (·.toUInt8), b ≠ 0 := by
  constructor
  · rw [List.map_map]
    refine (List.map_congr_left fun code hcode => ?_).trans (List.map_id codes)
    exact (toUInt16_toUInt8_of_isTextCode (h code hcode)).1
  · exact List.forall_mem_map.mpr fun code hcode =>
      (toUInt16_toUInt8_of_isTextCode (h code hcode)).2

/-- **Text that a buffer has room for is written into it, and read back.**  The zero behind the
text is the last byte of the buffer at most. -/
theorem on_writeText {draft : Draft} {text : Nat} {codes : List Word}
    (h : Writable draft.memory text) (hroom : codes.length ≤ roomAt draft.memory text)
    (hcodes : ∀ code ∈ codes, isTextCode code = true) :
    ∃ memory, Work.on (writeText text codes) draft = (.ok (), { draft with memory }) ∧
      memory.Holds (text + textOffset draft.memory.version) (codes.map (·.toUInt8)) ∧
      readText memory text = .ok codes ∧
      Memory.SameOff (fun place => text < place ∧ place ≤ lastByte draft.memory text)
        draft.memory memory := by
  obtain ⟨hlast, hpos⟩ := h
  obtain ⟨hback, hnonzero⟩ := toBytes_of_isTextCode hcodes
  have hlength : (codes.map (·.toUInt8)).length = codes.length := List.length_map _
  have hbyte : (draft.memory.byteAt text).toNat < 256 := (draft.memory.byteAt text).toNat_lt
  have hceiling := draft.memory.ceiling_le_size
  unfold writeText
  rw [Work.on_bind_of_ok (Edit.on_view draft _)]
  generalize codes.map (·.toUInt8) = bytes at hback hnonzero hlength ⊢
  have hroomBytes : bytes.length ≤ roomAt draft.memory text := by omega
  by_cases hold : draft.memory.version ≤ 4
  · have hpos := hpos hold
    rw [lastByte, if_pos hold] at hlast
    have hfits : bytes.length + 1 ≤ (draft.memory.byteAt text).toNat := by
      rw [roomAt, if_pos hold] at hroomBytes
      omega
    rw [textOffset, if_pos hold, lastByte, if_pos hold, if_pos hold, ← hlength]
    obtain ⟨memory, hwrite, hholds, hzero, hsame⟩ :=
      @Edit.on_writeBytes_byte draft (text + 1) (text + 1 + bytes.length) bytes 0 (by omega)
        (by omega) (by omega)
    refine ⟨memory, hwrite, hholds, ?_, hsame.mono (by omega)⟩
    have hversion : memory.version = draft.memory.version :=
      congrArg Story.version hsame.story_eq
    have hread := readText_of_zero (hversion ▸ hold)
      (Memory.holds_append.mpr ⟨hholds, Memory.holds_singleton.mpr hzero⟩)
      (by rwa [roomAt_congr hsame (by omega)]) hnonzero
    rwa [hback] at hread
  · rw [lastByte, if_neg hold] at hlast
    have hfits : bytes.length ≤ (draft.memory.byteAt text).toNat := by
      rwa [roomAt, if_neg hold] at hroomBytes
    rw [textOffset, if_neg hold, lastByte, if_neg hold, if_neg hold, ← hlength]
    obtain ⟨memory, hwrite, hholds, hcount, hsame⟩ :=
      @Edit.on_writeBytes_byte draft (text + 2) (text + 1) bytes bytes.length.toUInt8 (by omega)
        (by omega) (by omega)
    refine ⟨memory, hwrite, hholds, ?_, hsame.mono (by omega)⟩
    have hversion : memory.version = draft.memory.version :=
      congrArg Story.version hsame.story_eq
    have htoNat : bytes.length.toUInt8.toNat = bytes.length := by
      rw [Nat.toUInt8_eq, UInt8.toNat_ofNat']
      omega
    have hread := readText_of_length (hversion ▸ hold) ⟨hcount, hholds⟩ htoNat
      (by rwa [roomAt_congr hsame (by omega)])
    rwa [hback] at hread

end TextBuffer

namespace Play

open Machine TextBuffer

variable {W : Type}

/-- What is left to do when the text of a line has been stored. -/
def afterText (read : LineRead) (code : Word) : Play (StateM W) Unit := do
  if read.parse ≠ 0 then
    let dictionary ← view (·.headerWord .dictionary)
    tokenise read.text read.parse dictionary.toNat false
  if isMouseClick code then recordMouse
  storeTo read.store code

/-- **A typed line stays in its buffer and reads back.**  When a line has been typed, all that is
done before the parse buffer is filled is to store the codes of the line in the text buffer: as
many as there is room for, all of them codes of text.  Reading the buffer gives them again, and
no byte outside of it has changed. -/
theorem line_reads_back {machine : Machine} {read : LineRead}
    (hbuffer : Writable machine.memory read.text) (hunicode : machine.codec.unicode.Supplied)
    (host : Host (StateM W)) (typed : String) (code : Word) (w : W) :
    ∃ memory streams v,
      machine.play host (finishLine read typed code) w
        = Machine.play { machine with memory, streams } host (afterText read code) v ∧
      memory.Holds (read.text + textOffset machine.memory.version)
        ((lineCodes machine.codec.unicode machine.memory read.text typed).map (·.toUInt8)) ∧
      readText memory read.text
        = .ok (lineCodes machine.codec.unicode machine.memory read.text typed) ∧
      (∀ stored ∈ lineCodes machine.codec.unicode machine.memory read.text typed,
        32 ≤ stored ∧ stored ≤ 126 ∨ 155 ≤ stored ∧ stored ≤ 251) ∧
      Memory.SameOff (fun place => read.text < place ∧ place ≤ lastByte machine.memory read.text)
        machine.memory memory := by
  have hcodes : inputCodes machine.codec.unicode typed (roomAt machine.memory read.text)
      = lineCodes machine.codec.unicode machine.memory read.text typed :=
    inputCodes_eq hunicode typed _
  have htext : ∀ stored ∈ lineCodes machine.codec.unicode machine.memory read.text typed,
      isTextCode stored = true :=
    fun stored hstored => isTextCode_of_mem_encode hunicode stored (List.mem_of_mem_take hstored)
  have hsize : read.text < machine.memory.size := by
    have hlast := hbuffer.last_lt
    have hceiling := machine.memory.ceiling_le_size
    unfold lastByte at hlast
    split at hlast <;> omega
  obtain ⟨streams, v, hrecord⟩ := play_recordInput host machine w typed
  obtain ⟨memory, hwrite, hholds, hread, hsame⟩ :=
    @on_writeText { memory := machine.memory } read.text _ hbuffer (List.length_take_le _ _) htext
  refine ⟨memory, streams, v, ?_, hholds, hread, fun stored hstored =>
    isTextCode_iff.mp (htext stored hstored), hsame⟩
  have hstored := @play_edit_of_ok W Unit { machine with streams } host v _ _ _ hwrite
  rw [finishLine, play_bind, play_look, capacity_eq hsize]
  dsimp only
  rw [play_bind_of_ok (play_get machine host w), hcodes, play_bind_of_ok hrecord]
  exact play_bind_of_ok hstored

/-- A version 3 story with a text buffer of four bytes behind its size. -/
def typist : Machine :=
  ((create deaf (((storyOf [0xba]).setIfInBounds 0 3).setIfInBounds 66 4) {} ()).1.toOption).get rfl

/-- Of five characters one is a control character and one has no code.  Those that are left fill
the buffer, and a zero ends them. -/
theorem line_reads_back_full :
    Writable typist.memory 66 ∧ typist.codec.unicode.Supplied ∧
      ∃ memory streams v,
        typist.play deaf (finishLine ⟨66, 0, 0, 0, none, ""⟩ "\u00c4\x07B\u263ax" 13) ()
          = Machine.play { typist with memory, streams } deaf
            (afterText ⟨66, 0, 0, 0, none, ""⟩ 13) v ∧
        memory.Holds 67 [155, 98, 63] ∧ readText memory 66 = .ok [155, 98, 63] ∧
        Memory.SameOff (fun place => 66 < place ∧ place ≤ 70) typist.memory memory := by
  have hbuffer : Writable typist.memory 66 := ⟨by decide +kernel, by decide +kernel⟩
  have hunicode : typist.codec.unicode.Supplied := .inl (by decide +kernel)
  have hcodes : lineCodes typist.codec.unicode typist.memory 66 "\u00c4\x07B\u263ax"
      = [155, 98, 63] := by decide +kernel
  obtain ⟨memory, streams, v, hplay, hholds, hread, -, hsame⟩ :=
    @line_reads_back Unit typist ⟨66, 0, 0, 0, none, ""⟩ hbuffer hunicode deaf
      "\u00c4\x07B\u263ax" 13 ()
  rw [hcodes] at hholds hread
  exact ⟨hbuffer, hunicode, memory, streams, v, hplay, hholds, hread, hsame⟩

end Play

end StoryMachine
