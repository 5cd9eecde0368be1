import Mathlib.Data.List.TakeWhile
import StoryMachine.Proofs.LineInput
import StoryMachine.Proofs.TextParts

/-!
# A text cut into a parse buffer

The lexemes of a text are written one after the other, four bytes each, behind the count of
those that are written.  Not all of them may be: the buffer has room for so many and no more,
and a place beyond 255 does not fit into its byte.  The record of an unknown lexeme may be
left as it is.

**The record of a lexeme points back at its characters** (`parse_buffer_filled`).  A place is
that of the lexeme in the text, moved by the bytes that come before the text in its buffer;
and what is read as text stands there, byte by byte (`holds_of_readText`).
-/

namespace StoryMachine

namespace Memory

/-- A part of what stands in memory stands there too. -/
theorem Holds.part {memory : Memory} {address start : Nat} {bytes : List UInt8}
    (h : memory.Holds address bytes) (hstart : start ≤ bytes.length) (length : Nat) :
    memory.Holds (address + start) ((bytes.drop start).take length) := by
  rw [← List.take_append_drop start bytes, holds_append, List.length_take,
    Nat.min_eq_left hstart] at h
  have hrest := h.2
  rw [← List.take_append_drop length (bytes.drop start), holds_append] at hrest
  exact hrest.1

end Memory

namespace Edit

variable {address : Nat} {draft : Draft}

/-- A word is written as its two bytes. -/
theorem on_writeWord_eq (value : Word) (h : address + 1 < draft.memory.dynamicCeiling) :
    Work.on (writeWord address value) draft
      = Work.on (writeBytes address value.toBytes) draft := by
  have hhigh : address < draft.memory.dynamicCeiling := Nat.lt_of_succ_lt h
  have hlow : address + 1 < (draft.memory.set address value.high hhigh).dynamicCeiling := h
  rw [on_writeWord_of_lt h, Word.toBytes, writeBytes,
    Work.on_bind_of_ok (on_writeByte_of_lt hhigh _), writeBytes,
    Work.on_bind_of_ok (@on_writeByte_of_lt
      { draft with memory := draft.memory.set address value.high hhigh } _ hlow _)]
  rfl

/-- A single byte is written as a byte. -/
theorem writeBytes_singleton (b : UInt8) : writeBytes address [b] = writeByte address b :=
  bind_pure_unit

/-- Bytes are written one part after the other. -/
theorem on_writeBytes_append {bytes others : List UInt8} :
    Work.on (writeBytes address (bytes ++ others)) draft
      = Work.on (do
          writeBytes address bytes
          writeBytes (address + bytes.length) others) draft := by
  induction bytes generalizing address draft with
  | nil => rfl
  | cons b rest ih =>
      rw [List.cons_append, writeBytes, writeBytes, bind_assoc, Work.on_bind, Work.on_bind]
      rcases Work.on (writeByte address b) draft with ⟨fault | _, middle⟩
      · rfl
      · dsimp only
        rw [ih, List.length_cons, Nat.add_right_comm, Nat.add_assoc]

end Edit

namespace TextBuffer

variable {memory : Memory} {address room text : Nat} {codes : List Word}

/-! ## What is read as text stands in the buffer -/

/-- Text that ends with a zero is read from bytes that stand there. -/
theorem holds_of_readUntilZero (h : readUntilZero memory room address = .ok codes) :
    ∃ bytes : List UInt8, codes = bytes.map (·.toUInt16) ∧ bytes.length ≤ room ∧
      memory.Holds address bytes := by
  induction room generalizing address codes with
  | zero =>
      obtain rfl := Except.ok.inj h
      exact ⟨[], rfl, Nat.le_refl 0, trivial⟩
  | succ left ih =>
      unfold readUntilZero at h
      obtain ⟨code, hread, h⟩ := bind_eq_ok.mp h
      by_cases hzero : code = 0
      · rw [if_pos hzero] at h
        obtain rfl := Except.ok.inj h
        exact ⟨[], rfl, Nat.zero_le _, trivial⟩
      · rw [if_neg hzero] at h
        obtain ⟨rest, hrest, h⟩ := bind_eq_ok.mp h
        obtain ⟨bytes, rfl, hlength, hholds⟩ := ih hrest
        obtain rfl := Except.ok.inj h
        exact ⟨code :: bytes, rfl, Nat.succ_le_succ hlength, hread, hholds⟩

/-- Text of some length is read from bytes that stand there. -/
theorem holds_of_mapM_readByte {length : Nat} {bytes : List UInt8}
    (h : (List.range length).mapM (fun i => memory.readByte (address + i)) = .ok bytes) :
    bytes.length = length ∧ memory.Holds address bytes := by
  have hlength := (mapM_eq_ok h).1
  rw [List.length_range] at hlength
  refine ⟨hlength, Memory.holds_of_byteAt fun i hi => ?_⟩
  have hplace : (List.range length)[i]? = some i := by
    rw [List.getElem?_range]
    omega
  obtain ⟨b, hread, hb⟩ := getElem?_of_mapM h hplace
  rw [List.getElem?_eq_getElem hi] at hb
  obtain rfl := Option.some.inj hb
  exact Memory.readByte_eq_ok.mp hread

/-- **The text of a buffer** stands behind the bytes that come before it, one byte for a code, and
there are no more codes than there is room for. -/
theorem holds_of_readText (h : readText memory text = .ok codes) :
    ∃ bytes : List UInt8, codes = bytes.map (·.toUInt16) ∧ bytes.length ≤ roomAt memory text ∧
      memory.Holds (text + textOffset memory.version) bytes := by
  unfold readText at h
  obtain ⟨room, hroom, h⟩ := bind_eq_ok.mp h
  obtain ⟨size, hsize, -⟩ := bind_eq_ok.mp hroom
  rw [capacity_eq (Memory.readByte_eq_ok.mp hsize).1] at hroom
  obtain rfl := Except.ok.inj hroom
  by_cases hold : memory.version ≤ 4
  · rw [if_pos hold] at h
    rw [textOffset, if_pos hold]
    exact holds_of_readUntilZero h
  · rw [if_neg hold] at h
    rw [textOffset, if_neg hold]
    obtain ⟨count, -, h⟩ := bind_eq_ok.mp h
    obtain ⟨bytes, hbytes, h⟩ := bind_eq_ok.mp h
    obtain ⟨hlength, hholds⟩ := holds_of_mapM_readByte hbytes
    exact ⟨bytes, (Except.ok.inj h).symm, hlength ▸ Nat.min_le_right _ _, hholds⟩

/-- A text buffer has room for 255 characters at the most. -/
theorem roomAt_le (memory : Memory) (text : Nat) : roomAt memory text ≤ 255 := by
  have hsize : (memory.byteAt text).toNat < 256 := (memory.byteAt text).toNat_lt
  unfold roomAt
  split <;> omega

/-- The room for characters ends with the buffer at the latest. -/
theorem textOffset_add_roomAt_le (memory : Memory) (text : Nat) :
    roomAt memory text = 0 ∨
      text + textOffset memory.version + roomAt memory text ≤ lastByte memory text + 1 := by
  unfold roomAt textOffset lastByte
  split <;> omega

/-! ## Records -/

/-- The record of a lexeme. -/
def record (offset : Nat) (lexeme : Lexeme) : List UInt8 :=
  lexeme.address.toBytes ++ [lexeme.length, (lexeme.start.toNat + offset).toUInt8]

/-- Whether the record of a lexeme is left as it is. -/
def PassedOver (skipUnknown : Bool) (lexeme : Lexeme) : Prop :=
  skipUnknown = true ∧ lexeme.address = 0

/-- A record is written unless it is passed over. -/
theorem not_skipped_iff {skipUnknown : Bool} {lexeme : Lexeme} :
    (!(skipUnknown && lexeme.address == 0)) = true ↔ ¬PassedOver skipUnknown lexeme := by
  rw [Bool.not_eq_true', ← Bool.not_eq_true, Bool.and_eq_true, beq_iff_eq]
  exact Iff.rfl

/-- The bytes of the records that are written from an address on. -/
def InRecords (skipUnknown : Bool) (address : Nat) (lexemes : List Lexeme) (place : Nat) : Prop :=
  ∃ i lexeme, lexemes[i]? = some lexeme ∧ ¬PassedOver skipUnknown lexeme ∧
    address + 4 * i ≤ place ∧ place < address + 4 * i + 4

/-- One record is written as four bytes. -/
theorem on_writeRecord {draft : Draft} (offset : Nat) (lexeme : Lexeme)
    (h : address + 4 ≤ draft.memory.dynamicCeiling) :
    ∃ memory, Work.on (do
        Edit.writeWord address lexeme.address
        Edit.writeByte (address + 2) lexeme.length
        Edit.writeByte (address + 3) (lexeme.start.toNat + offset).toUInt8) draft
        = (.ok (), { draft with memory }) ∧
      memory.Holds address (record offset lexeme) ∧
      Memory.SameOff (fun place => address ≤ place ∧ place < address + 4) draft.memory memory := by
  obtain ⟨memory, hwrite, hafter⟩ :=
    @Edit.on_writeBytes_of_le draft address (record offset lexeme) h
  refine ⟨memory, ?_, hafter⟩
  have hpair : Edit.writeBytes (address + 2)
      [lexeme.length, (lexeme.start.toNat + offset).toUInt8] = (do
        Edit.writeByte (address + 2) lexeme.length
        Edit.writeByte (address + 3) (lexeme.start.toNat + offset).toUInt8) := by
    rw [Edit.writeBytes, Edit.writeBytes_singleton]
  have htwo : lexeme.address.toBytes.length = 2 := rfl
  rw [record, Edit.on_writeBytes_append, htwo, hpair, Work.on_bind] at hwrite
  rw [Work.on_bind, Edit.on_writeWord_eq lexeme.address (by omega)]
  exact hwrite

/-- What is done for one lexeme: its record is written, or left as it is. -/
def putRecord (offset : Nat) (skipUnknown : Bool) (address : Nat) (lexeme : Lexeme) : Edit Unit :=
  if !(skipUnknown && lexeme.address == 0) then do
    Edit.writeWord address lexeme.address
    Edit.writeByte (address + 2) lexeme.length
    Edit.writeByte (address + 3) (lexeme.start.toNat + offset).toUInt8
  else pure ()

/-- Records are written one after another, four bytes apart. -/
theorem writeRecords_cons (offset : Nat) (skipUnknown : Bool) (first : Lexeme)
    (rest : List Lexeme) :
    writeRecords offset skipUnknown address (first :: rest) = (do
      putRecord offset skipUnknown address first
      writeRecords offset skipUnknown (address + 4) rest) := by
  rw [writeRecords, putRecord]
  split
  case isTrue => simp only [bind_assoc]
  case isFalse => rw [pure_bind]

/-- The record of a lexeme is put in its four bytes, or they are left. -/
theorem on_putRecord {draft : Draft} (offset : Nat) (skipUnknown : Bool) (lexeme : Lexeme)
    (h : address + 4 ≤ draft.memory.dynamicCeiling) :
    ∃ memory, Work.on (putRecord offset skipUnknown address lexeme) draft
        = (.ok (), { draft with memory }) ∧
      (¬PassedOver skipUnknown lexeme → memory.Holds address (record offset lexeme)) ∧
      Memory.SameOff (fun place => ¬PassedOver skipUnknown lexeme ∧ address ≤ place ∧
        place < address + 4) draft.memory memory := by
  unfold putRecord
  by_cases hpassed : PassedOver skipUnknown lexeme
  · rw [if_neg (mt not_skipped_iff.mp (not_not_intro hpassed))]
    exact ⟨draft.memory, rfl, fun hnot => absurd hpassed hnot, .refl _ _⟩
  · obtain ⟨memory, hwrite, hholds, hsame⟩ := @on_writeRecord address draft offset lexeme h
    rw [if_pos (not_skipped_iff.mpr hpassed)]
    exact ⟨memory, hwrite, fun _ => hholds, hsame.mono fun _ hplace => ⟨hpassed, hplace⟩⟩

/-- **All records** are written, but for those that are left as they are.  The others are behind
the first one. -/
theorem on_writeRecords {draft : Draft} (offset : Nat) (skipUnknown : Bool) {lexemes : List Lexeme}
    (h : address + 4 * lexemes.length ≤ draft.memory.dynamicCeiling) :
    ∃ memory, Work.on (writeRecords offset skipUnknown address lexemes) draft
        = (.ok (), { draft with memory }) ∧
      (∀ i lexeme, lexemes[i]? = some lexeme → ¬PassedOver skipUnknown lexeme →
        memory.Holds (address + 4 * i) (record offset lexeme)) ∧
      Memory.SameOff (InRecords skipUnknown address lexemes) draft.memory memory := by
  induction lexemes generalizing address draft with
  | nil => exact ⟨draft.memory, rfl, fun _ _ hnone => (nomatch hnone), .refl _ _⟩
  | cons first rest ih =>
      rw [List.length_cons] at h
      obtain ⟨middle, hfirst, hholds, hsame⟩ :=
        @on_putRecord address draft offset skipUnknown first (by omega)
      have hceiling : middle.dynamicCeiling = draft.memory.dynamicCeiling := hsame.dynamicCeiling_eq
      obtain ⟨memory, hrest, hothers, hsame'⟩ :=
        @ih (address + 4) { draft with memory := middle } (by
          show address + 4 + 4 * rest.length ≤ middle.dynamicCeiling
          omega)
      refine ⟨memory, ?_, fun i lexeme hlexeme hwritten => ?_,
        (hsame.mono ?_).trans (hsame'.mono ?_)⟩
      · rw [writeRecords_cons, Work.on_bind_of_ok hfirst, hrest]
      · cases i with
        | zero =>
            obtain rfl : first = lexeme := Option.some.inj hlexeme
            refine (hholds hwritten).of_sameOff hsame' fun j hj => ?_
            rintro ⟨k, -, -, -, hle, -⟩
            have hfour : (record offset first).length = 4 := rfl
            omega
        | succ i =>
            have hplace : address + 4 * (i + 1) = address + 4 + 4 * i := by omega
            rw [hplace]
            exact hothers i lexeme hlexeme hwritten
      · rintro place ⟨hwritten, hle, hlt⟩
        exact ⟨0, first, rfl, hwritten, hle, hlt⟩
      · rintro place ⟨i, lexeme, hlexeme, hwritten, hle, hlt⟩
        exact ⟨i + 1, lexeme, hlexeme, hwritten, by omega, by omega⟩

/-! ## The whole buffer -/

/-- The lexemes that are counted: their places fit into a byte, and there is room for them. -/
def counted (memory : Memory) (parse : Nat) (lexemes : List Lexeme) : List Lexeme :=
  (lexemes.takeWhile fun lexeme =>
    lexeme.start.toNat + textOffset memory.version ≤ 255).take (memory.byteAt parse).toNat

/-- At a place stands the record of a lexeme, which points back at the codes of the lexeme. -/
structure PointsBack (memory : Memory) (text : Nat) (codes : List Word) (lexeme : Lexeme)
    (place : Nat) : Prop where
  address_eq : memory.wordAt place = lexeme.address
  length_eq : memory.byteAt (place + 2) = lexeme.length
  place_eq : (memory.byteAt (place + 3)).toNat = lexeme.start.toNat + textOffset memory.version
  holds : ∃ bytes : List UInt8, bytes.length = lexeme.length.toNat ∧
    bytes.map (·.toUInt16) = lexeme.codes codes ∧
    memory.Holds (text + (memory.byteAt (place + 3)).toNat) bytes

/-- A parse buffer after a text has been cut.  It counts the lexemes with places that fit into a
byte, as many as it has room for.  Each of these has its record, unless it is passed over: then
what was there before is there still.  Nothing else has been touched. -/
structure Parsed (before after : Memory) (text parse : Nat) (codes : List Word)
    (lexemes : List Lexeme) (skipUnknown : Bool) : Prop where
  count_eq : (after.byteAt (parse + 1)).toNat
    = min (before.byteAt parse).toNat (lexemes.takeWhile fun lexeme =>
        lexeme.start.toNat + textOffset before.version ≤ 255).length
  record : ∀ i lexeme, i < (after.byteAt (parse + 1)).toNat → lexemes[i]? = some lexeme →
    ¬PassedOver skipUnknown lexeme → PointsBack after text codes lexeme (parse + 2 + 4 * i)
  passed : ∀ i lexeme, i < (after.byteAt (parse + 1)).toNat → lexemes[i]? = some lexeme →
    PassedOver skipUnknown lexeme → ∀ j, j < 4 →
      after.byteAt (parse + 2 + 4 * i + j) = before.byteAt (parse + 2 + 4 * i + j)
  same : Memory.SameOff (fun place => place = parse + 1 ∨
    ∃ i lexeme, i < (after.byteAt (parse + 1)).toNat ∧ lexemes[i]? = some lexeme ∧
      ¬PassedOver skipUnknown lexeme ∧ parse + 2 + 4 * i ≤ place ∧ place < parse + 2 + 4 * i + 4)
    before after

variable {parse : Nat} {lexemes : List Lexeme}

/-- No more lexemes are counted than there is room for. -/
theorem length_counted_le (memory : Memory) (parse : Nat) (lexemes : List Lexeme) :
    (counted memory parse lexemes).length ≤ (memory.byteAt parse).toNat :=
  List.length_take_le _ _

/-- A counted lexeme is the one of that number. -/
theorem getElem?_counted {i : Nat} (h : i < (counted memory parse lexemes).length) :
    (counted memory parse lexemes)[i]? = lexemes[i]? := by
  have hpre : counted memory parse lexemes <+: lexemes :=
    (List.take_prefix _ _).trans (List.takeWhile_prefix _)
  conv_lhs => rw [List.prefix_iff_eq_take.mp hpre]
  rw [List.getElem?_take, if_pos h]

/-- The places of counted lexemes fit in a byte. -/
theorem place_le_of_mem_counted {lexeme : Lexeme} (h : lexeme ∈ counted memory parse lexemes) :
    lexeme.start.toNat + textOffset memory.version ≤ 255 := by
  have hkept := List.mem_takeWhile_imp (List.mem_of_mem_take h)
  exact of_decide_eq_true hkept

/-- The count and the records are written.  Whether a lexeme is left over is only told to the
host. -/
theorem on_writeLexemes_eq {draft : Draft} (lexemes : List Lexeme) (skipUnknown : Bool)
    (h : parse < draft.memory.size) :
    ∃ notices, Work.on (writeLexemes parse lexemes (textOffset draft.memory.version)
        skipUnknown) draft
      = Work.on (do
          Edit.writeByte (parse + 1) (counted draft.memory parse lexemes).length.toUInt8
          writeRecords (textOffset draft.memory.version) skipUnknown (parse + 2)
            (counted draft.memory parse lexemes)) { draft with notices } := by
  have hread : draft.memory.readByte parse = .ok (draft.memory.byteAt parse) :=
    Memory.readByte_eq_ok.mpr ⟨h, rfl⟩
  unfold writeLexemes
  rw [Work.on_bind, Edit.on_look, hread]
  dsimp only
  split
  case isTrue => exact ⟨_, Work.on_bind_of_ok rfl⟩
  case isFalse => exact ⟨draft.notices, rfl⟩

/-- **A parse buffer is filled**: the count, and then the records. -/
theorem on_writeLexemes {draft : Draft} (lexemes : List Lexeme) (skipUnknown : Bool)
    (h : parse + 1 + 4 * (draft.memory.byteAt parse).toNat < draft.memory.dynamicCeiling) :
    ∃ memory notices, Work.on (writeLexemes parse lexemes (textOffset draft.memory.version)
        skipUnknown) draft = (.ok (), { memory, notices }) ∧
      (memory.byteAt (parse + 1)).toNat = (counted draft.memory parse lexemes).length ∧
      (∀ i lexeme, (counted draft.memory parse lexemes)[i]? = some lexeme →
        ¬PassedOver skipUnknown lexeme → memory.Holds (parse + 2 + 4 * i)
          (record (textOffset draft.memory.version) lexeme)) ∧
      Memory.SameOff (fun place => place = parse + 1 ∨
        InRecords skipUnknown (parse + 2) (counted draft.memory parse lexemes) place)
        draft.memory memory := by
  have hcount := length_counted_le draft.memory parse lexemes
  have hbyte : (draft.memory.byteAt parse).toNat < 256 := (draft.memory.byteAt parse).toNat_lt
  have hceiling := draft.memory.ceiling_le_size
  have hfirst : parse + 1 < draft.memory.dynamicCeiling := by omega
  obtain ⟨notices, hwritten⟩ := on_writeLexemes_eq lexemes skipUnknown
    (Nat.lt_of_lt_of_le (Nat.lt_of_succ_lt hfirst) hceiling)
  generalize counted draft.memory parse lexemes = kept at hcount hwritten ⊢
  have hset : Memory.SameOff (· = parse + 1) draft.memory _ :=
    Memory.sameOff_set kept.length.toUInt8 hfirst rfl
  have hwrite := @Edit.on_writeByte_of_lt { draft with notices } (parse + 1) hfirst
    kept.length.toUInt8
  obtain ⟨memory, hrecords, hholds, hsame⟩ := @on_writeRecords (parse + 2)
    { memory := draft.memory.set (parse + 1) kept.length.toUInt8 hfirst, notices }
    (textOffset draft.memory.version) skipUnknown kept (by
      show parse + 2 + 4 * kept.length ≤ draft.memory.dynamicCeiling
      omega)
  refine ⟨memory, notices, ?_, ?_, hholds, (hset.mono ?_).trans (hsame.mono ?_)⟩
  · rw [hwritten, Work.on_bind_of_ok hwrite, hrecords]
  · rw [hsame.byteAt_eq (parse + 1) (by rintro ⟨i, -, -, -, hle, -⟩; omega)]
    rw [Memory.byteAt_set_self, Nat.toUInt8_eq, UInt8.toNat_ofNat']
    omega
  · exact fun _ => .inl
  · exact fun _ => .inr

/-- In a text buffer, the codes of a lexeme stand where its record says. -/
theorem pointsBack_of_holds {after : Memory} {lexeme : Lexeme} {place : Nat}
    {bytes : List UInt8} (hversion : after.version = memory.version)
    (htext : after.Holds (text + textOffset memory.version) bytes)
    (hfits : lexeme.start.toNat + lexeme.length.toNat ≤ bytes.length)
    (hplace : lexeme.start.toNat + textOffset memory.version ≤ 255)
    (hrecord : after.Holds place (record (textOffset memory.version) lexeme)) :
    PointsBack after text (bytes.map (·.toUInt16)) lexeme place := by
  have hbyte (i : Nat) (hi : i < 4) := (hrecord.byteAt_eq (i := i) hi).2
  have hback : (after.byteAt (place + 3)).toNat
      = lexeme.start.toNat + textOffset memory.version := by
    rw [hbyte 3 (by decide)]
    show ((lexeme.start.toNat + textOffset memory.version).toUInt8).toNat = _
    rw [Nat.toUInt8_eq, UInt8.toNat_ofNat']
    omega
  have hzero := hbyte 0 (by decide)
  rw [Nat.add_zero] at hzero
  refine ⟨?_, hbyte 2 (by decide), by rwa [hversion], ?_⟩
  · rw [Memory.wordAt, hzero, hbyte 1 (by decide)]
    exact Word.ofBytes_high_low lexeme.address
  · refine ⟨(bytes.drop lexeme.start.toNat).take lexeme.length.toNat, ?_, ?_, ?_⟩
    · rw [List.length_take, List.length_drop]
      omega
    · rw [Lexeme.codes, List.map_take, List.map_drop]
    · have hpart := htext.part (Nat.le_trans (Nat.le_add_right _ _) hfits) lexeme.length.toNat
      rwa [hback, Nat.add_comm lexeme.start.toNat, ← Nat.add_assoc]

end TextBuffer

/-- The lexemes of a cut text are inside of it. -/
theorem Partition.stop_le {separators text : List Word} {lexemes : List Lexeme}
    (h : Partition separators text lexemes) {lexeme : Lexeme} (hin : lexeme ∈ lexemes) :
    lexeme.start.toNat + lexeme.length.toNat ≤ text.length := by
  have hpos := UInt8.lt_iff_toNat_lt.mp (h.length_pos lexeme hin)
  rw [UInt8.toNat_zero] at hpos
  have hlast := h.covered lexeme hin (lexeme.start.toNat + lexeme.length.toNat - 1) (by
    unfold Lexeme.Covers
    omega)
  have hlt := hlast.elim SeparatorAt.lt_length WordAt.lt_length
  omega

namespace Dictionary

variable {dictionary : Dictionary} {bytes : Array UInt8} {codes : List Word}

/-- A text is cut into its parts. -/
theorem cut_parts (dictionary : Dictionary) (codes : List Word) :
    Cut dictionary.separators codes 0 (dictionary.parts codes) := by
  have hopen : Open dictionary.separators codes 0 none := fun _ hlast => nomatch hlast
  exact cut_spans List.drop_zero hopen

/-- The lexemes that are found by searching are a partition of the text. -/
theorem partition_tokenise (codec : Codec) (hcodes : codes.length ≤ 255) :
    Partition dictionary.separators codes (dictionary.tokenise bytes codec codes) :=
  partition_of_cut hcodes (cut_parts dictionary codes)

/-- Each of them has the address of the first entry with its key. -/
theorem firstEntry_tokenise (codec : Codec) (hcodes : codes.length ≤ 255) :
    ∀ lexeme ∈ dictionary.tokenise bytes codec codes,
      dictionary.FirstEntry bytes (codec.encodeKey (lexeme.codes codes)) lexeme.address := by
  have hcut := cut_parts dictionary codes
  refine List.forall_mem_map.mpr fun part hin => ?_
  obtain ⟨hstart, hstop⟩ :=
    lexeme_places codec (dictionary.lookup bytes) hcodes (hcut.part_of_mem part hin)
  have hlength : (lexeme codec (dictionary.lookup bytes) codes part).length.toNat
      = part.2 - part.1 := by omega
  rw [Lexeme.codes, hstart, hlength]
  exact firstEntry_lookup (codec.encodeKey_ne_nil _)

end Dictionary

namespace TextBuffer

variable {separators : List Word} {text parse : Nat} {codes : List Word} {lexemes : List Lexeme}

/-- **The records of a text that is cut** point back at it, if the buffers are apart. -/
theorem on_writeLexemes_parsed {draft : Draft} (skipUnknown : Bool)
    (hbuffer : parse + 1 + 4 * (draft.memory.byteAt parse).toNat < draft.memory.dynamicCeiling)
    (hapart : parse + 1 + 4 * (draft.memory.byteAt parse).toNat < text ∨
      lastByte draft.memory text < parse)
    (hcodes : readText draft.memory text = .ok codes)
    (hlexemes : Partition separators codes lexemes) :
    ∃ memory notices, Work.on (writeLexemes parse lexemes (textOffset draft.memory.version)
        skipUnknown) draft = (.ok (), { memory, notices }) ∧
      Parsed draft.memory memory text parse codes lexemes skipUnknown := by
  obtain ⟨bytes, rfl, hroom, htext⟩ := holds_of_readText hcodes
  obtain ⟨memory, notices, hwrite, hcount, hholds, hsame⟩ :=
    on_writeLexemes lexemes skipUnknown hbuffer
  have hle := length_counted_le draft.memory parse lexemes
  have hlast := textOffset_add_roomAt_le draft.memory text
  have htext' : memory.Holds (text + textOffset draft.memory.version) bytes := by
    refine htext.of_sameOff hsame fun i hi => ?_
    rintro (hplace | ⟨k, lexeme, hlexeme, -, hfrom, hto⟩)
    · omega
    · have hk := (List.getElem?_eq_some_iff.mp hlexeme).1
      omega
  refine ⟨memory, notices, hwrite, ?_, ?_, ?_, ?_⟩
  · rw [hcount, counted, List.length_take]
  · intro i lexeme hi hlexeme hwritten
    rw [hcount] at hi
    rw [← getElem?_counted hi] at hlexeme
    have hin := List.mem_of_getElem? hlexeme
    have hstop := hlexemes.stop_le (List.mem_of_getElem? ((getElem?_counted hi).symm.trans hlexeme))
    rw [List.length_map] at hstop
    exact pointsBack_of_holds (congrArg Story.version hsame.story_eq) htext' hstop
      (place_le_of_mem_counted hin) (hholds i lexeme hlexeme hwritten)
  · intro i lexeme hi hlexeme hpassed j hj
    refine hsame.byteAt_eq _ ?_
    rintro (hplace | ⟨k, other, hother, hwritten, hfrom, hto⟩)
    · omega
    · obtain rfl : k = i := by omega
      have hk := (List.getElem?_eq_some_iff.mp hother).1
      rw [getElem?_counted hk, hlexeme] at hother
      exact hwritten (Option.some.inj hother ▸ hpassed)
  · refine hsame.mono fun place => Or.imp_right ?_
    rintro ⟨i, lexeme, hlexeme, hwritten, hplace⟩
    have hi := (List.getElem?_eq_some_iff.mp hlexeme).1
    exact ⟨i, lexeme, hcount ▸ hi, (getElem?_counted hi).symm.trans hlexeme, hwritten, hplace⟩

end TextBuffer

namespace Play

open Machine TextBuffer

variable {W : Type}

/-- The lexemes of a text buffer are those that a search of the dictionary gives, and they are
found unless the buffer or the dictionary cannot be read. -/
theorem tokenised_cases {machine : Machine} (hfaithful : machine.Faithful) (text dictionary : Nat) :
    (∃ fault, tokenised machine text dictionary = .error fault ∧
      (readText machine.memory text = .error fault ∨
        Dictionary.load machine.memory.bytes dictionary machine.codec.keyBytes = .error fault)) ∨
    ∃ codes shape found, readText machine.memory text = .ok codes ∧
      Dictionary.load machine.memory.bytes dictionary machine.codec.keyBytes = .ok shape ∧
      tokenised machine text dictionary = .ok found ∧
      shape.tokenise machine.memory.bytes machine.codec codes = found.lexemes := by
  have hsame : SameFrom machine.memory.dynamicCeiling machine.memory.story.image
      machine.memory.bytes := ⟨machine.memory.size_eq, machine.memory.static_eq⟩
  unfold tokenised
  cases hcodes : readText machine.memory text with
  | error fault => exact .inl ⟨fault, rfl, .inl rfl⟩
  | ok codes =>
      have hsearched := Dictionaries.tokenise_of_faithful hfaithful hsame dictionary codes
      unfold Dictionaries.search at hsearched
      cases hload : Dictionary.load machine.memory.bytes dictionary machine.codec.keyBytes with
      | error fault =>
          rw [hload] at hsearched
          rcases hsearched with ⟨found, -, hsearch, -⟩ | ⟨fault', hfault, hsearch⟩
          · exact nomatch hsearch
          · obtain rfl : fault = fault' := Except.error.inj hsearch
            exact .inl ⟨fault, hfault, .inr rfl⟩
      | ok shape =>
          rw [hload] at hsearched
          rcases hsearched with ⟨found, hfound, hsearch, -⟩ | ⟨fault, -, hsearch⟩
          · exact .inr ⟨codes, shape, found, rfl, rfl, hfound, Except.ok.inj hsearch⟩
          · exact nomatch hsearch

/-- **The records of a parse buffer point back at the text.**  A text buffer and a parse buffer in
dynamic memory are apart.  Then cutting the text fails only if the text or the dictionary cannot
be read, and changes nothing but memory and what is kept of dictionaries.  The lexemes are a
partition of the text, each with the address of its first entry; the parse buffer holds as many
of them as it has room for and as have places in a byte; and no other byte is changed. -/
theorem parse_buffer_filled {machine : Machine} {text parse : Nat} (hfaithful : machine.Faithful)
    (hbuffer : parse + 1 + 4 * (machine.memory.byteAt parse).toNat < machine.memory.dynamicCeiling)
    (hapart : parse + 1 + 4 * (machine.memory.byteAt parse).toNat < text ∨
      lastByte machine.memory text < parse)
    (host : Host (StateM W)) (dictionary : Nat) (skipUnknown : Bool) (w : W) :
    (∃ fault, machine.play host (tokenise text parse dictionary skipUnknown) w
        = ((.error fault, machine), w) ∧
      (readText machine.memory text = .error fault ∨
        Dictionary.load machine.memory.bytes dictionary machine.codec.keyBytes = .error fault)) ∨
    ∃ codes shape lexemes memory dictionaries v,
      machine.play host (tokenise text parse dictionary skipUnknown) w
        = ((.ok (), { machine with memory, dictionaries }), v) ∧
      readText machine.memory text = .ok codes ∧
      Dictionary.load machine.memory.bytes dictionary machine.codec.keyBytes = .ok shape ∧
      lexemes = shape.tokenise machine.memory.bytes machine.codec codes ∧
      Partition shape.separators codes lexemes ∧
      (∀ lexeme ∈ lexemes, shape.FirstEntry machine.memory.bytes
        (machine.codec.encodeKey (lexeme.codes codes)) lexeme.address) ∧
      Parsed machine.memory memory text parse codes lexemes skipUnknown := by
  rcases tokenised_cases hfaithful text dictionary with
    ⟨fault, hfault, hcause⟩ | ⟨codes, shape, found, hcodes, hload, hfound, hlexemes⟩
  · exact .inl ⟨fault, play_tokenise_of_error host w parse skipUnknown hfault, hcause⟩
  · obtain ⟨bytes, hbytes, hroom, -⟩ := holds_of_readText hcodes
    have hlength : codes.length ≤ 255 := by
      rw [hbytes, List.length_map]
      exact Nat.le_trans hroom (roomAt_le machine.memory text)
    have hpartition := @Dictionary.partition_tokenise shape machine.memory.bytes codes
      machine.codec hlength
    have hfirst := @Dictionary.firstEntry_tokenise shape machine.memory.bytes codes
      machine.codec hlength
    rw [hlexemes] at hpartition hfirst
    obtain ⟨v, hplay⟩ := play_tokenise_of_ok host w parse skipUnknown hfound
    obtain ⟨memory, notices, hwrite, hparsed⟩ := @on_writeLexemes_parsed _ _ _ _ _
      { memory := machine.memory } skipUnknown hbuffer hapart hcodes hpartition
    have hedit := @play_edit_of_ok W Unit { machine with dictionaries := found.dictionaries }
      host v _ _ _ hwrite
    exact .inr ⟨codes, shape, found.lexemes, memory, found.dictionaries, _, hplay.trans hedit,
      hcodes, hload, hlexemes.symm, hpartition, hfirst, hparsed⟩

/-- A version 3 story with a parse buffer for two records at 64 in dynamic memory.  Behind its
code are a text buffer with `a,q` at 81 and the dictionary of the word `a` at 90. -/
def commaStory : Array UInt8 :=
  let header : List UInt8 :=
    [3, 0, 0, 7, 0, 0, 0, 80, 0, 0, 0, 0, 0, 64, 0, 80] ++ List.replicate 48 0
  let parse := [2, 9, 1, 2, 3, 4, 5, 6, 7, 8, 0, 0, 0, 0, 0, 0]
  let text := [8, 97, 44, 113, 0, 0, 0, 0, 0]
  (header ++ parse ++ [0xba] ++ text).toArray ++ Dictionaries.single 44

/-- That story at its start. -/
def commaMachine : Machine :=
  ((create deaf commaStory {} ()).1.toOption).get rfl

/-- Of three lexemes two are counted.  The first is found and points at the first character; the
comma is not, and its record is left as it was. -/
theorem parse_buffer_filled_comma :
    commaMachine.Faithful ∧ 64 + 1 + 4 * (commaMachine.memory.byteAt 64).toNat
        < commaMachine.memory.dynamicCeiling ∧
      ∃ memory dictionaries v,
        commaMachine.play deaf (tokenise 81 64 90 true) ()
          = ((.ok (), { commaMachine with memory, dictionaries }), v) ∧
        memory.byteAt 65 = 2 ∧ memory.wordAt 66 = 95 ∧ memory.byteAt 68 = 1 ∧
        memory.Holds (81 + (memory.byteAt 69).toNat) [97] ∧
        (∀ j, j < 4 → memory.byteAt (70 + j) = commaMachine.memory.byteAt (70 + j)) := by
  have hfaithful : commaMachine.Faithful := faithful_of_empty rfl
  have hbuffer : 64 + 1 + 4 * (commaMachine.memory.byteAt 64).toNat
      < commaMachine.memory.dynamicCeiling := by decide +kernel
  have hapart : 64 + 1 + 4 * (commaMachine.memory.byteAt 64).toNat < 81 ∨
      lastByte commaMachine.memory 81 < 64 := .inl (by decide +kernel)
  have hread : readText commaMachine.memory 81 = .ok [97, 44, 113] := by decide +kernel
  have hload : Dictionary.load commaMachine.memory.bytes 90 commaMachine.codec.keyBytes
      = .ok ⟨90, [44], 4, 95, 1, true⟩ := by decide +kernel
  have htokenise : (⟨90, [44], 4, 95, 1, true⟩ : Dictionary).tokenise commaMachine.memory.bytes
      commaMachine.codec [97, 44, 113] = [⟨95, 1, 0⟩, ⟨0, 1, 1⟩, ⟨0, 1, 2⟩] := by decide +kernel
  refine ⟨hfaithful, hbuffer, ?_⟩
  rcases @parse_buffer_filled Unit commaMachine 81 64 hfaithful hbuffer hapart deaf 90 true () with
    ⟨fault, -, hfault⟩ | ⟨codes, shape, lexemes, memory, dictionaries, v, hplay, hcodes, hshape,
      rfl, -, -, hparsed⟩
  · rw [hread, hload] at hfault
    exact hfault.elim (fun h => nomatch h) fun h => nomatch h
  · obtain rfl := Except.ok.inj (hread.symm.trans hcodes)
    obtain rfl := Except.ok.inj (hload.symm.trans hshape)
    rw [htokenise] at hparsed
    have hcount : (memory.byteAt (64 + 1)).toNat = 2 := by
      rw [hparsed.count_eq]
      decide +kernel
    have hfirst := hparsed.record 0 ⟨95, 1, 0⟩ (by omega) rfl fun hpassed => nomatch hpassed.2
    have hpassed := hparsed.passed 1 ⟨0, 1, 1⟩ (by omega) rfl ⟨rfl, rfl⟩
    obtain ⟨bytes, -, hbytes, hholds⟩ := hfirst.holds
    have hcodes : bytes.map (·.toUInt16) = ([97] : List UInt8).map (·.toUInt16) := hbytes
    obtain rfl : bytes = [97] := (List.map_inj_right fun b c h => UInt8.toUInt16_inj.mp h).mp hcodes
    exact ⟨memory, dictionaries, v, hplay, UInt8.toNat_inj.mp hcount, hfirst.address_eq,
      hfirst.length_eq, hholds, hpassed⟩

end Play

end StoryMachine
