import StoryMachine.Proofs.StreamRouting

/-!
# Text that is broken into lines

A table with a width gets one record for each line.  What has been printed is always the lines so
far, each with what has been left out behind it (`Gap`), and then what waits for the end of its
line (`LineTable.printed_take`): a line ends where a new line is printed, or it is full and the
next code does not fit.  Then it is broken at its last blank, which is left out, or, if it has
none, where it is full, and nothing is left out.

**The pure table goes through the same codes** as the stream, and the stream writes it into memory
(`on_takeCodes`): at the end stand the records of its lines, and a record of length zero.
-/

namespace StoryMachine

open Memory

namespace Memory

variable {memory : Memory}

/-- Memory holds the bytes of a word where it has the word. -/
theorem holds_toBytes_iff {address : Nat} {word : Word} :
    memory.Holds address (Word.toBytes word) ↔
      address + 1 < memory.size ∧ memory.wordAt address = word := by
  rw [← readWord_eq_ok, readWord]
  split
  case isTrue hlt =>
    rw [Except.ok.injEq]
    exact (and_iff_right hlt).symm
  case isFalse hlt =>
    constructor
    · intro h
      cases h
    · intro h
      exact absurd h.1 hlt

end Memory

/-- A table that is held stands in memory as its length and its bytes. -/
theorem OpenTable.HeldBy.holds_bytes {table : OpenTable} {memory : Memory}
    (h : table.HeldBy memory) (hsize : table.address + 1 < memory.size) :
    memory.Holds table.address
      (Word.toBytes table.codes.length.toUInt16 ++ table.codes.map MemoryStream.byteOf) := by
  refine holds_append.mpr ⟨holds_toBytes_iff.mpr ⟨hsize, ?_⟩, h.holds⟩
  rw [← h.length_eq]
  exact UInt16.ofNat_toNat.symm

/-- What is left out behind a line. -/
inductive Gap where
  | newLine
  | blank
  | nothing
  deriving DecidableEq

/-- The codes that are left out. -/
def Gap.codes : Gap → List Word
  | newLine => [13]
  | blank => [32]
  | nothing => []

/-- A line of text, with what is left out behind it. -/
structure TextLine where
  codes : List Word
  gap : Gap
  deriving DecidableEq

/-- What was printed for a line. -/
def TextLine.printed (line : TextLine) : List Word :=
  line.codes ++ line.gap.codes

/-- The record of a line: its length as a word, and a byte for each code. -/
def TextLine.record (line : TextLine) : List UInt8 :=
  Word.toBytes line.codes.length.toUInt16 ++ line.codes.map MemoryStream.byteOf

/-- A table with a width: where it is, its lines so far, and the codes that wait for the end of
their line. -/
structure LineTable where
  address : Nat
  width : Nat
  lines : List TextLine := []
  waiting : List Word := []
  deriving DecidableEq

namespace LineTable

/-- The table with one more line, and with other codes that wait. -/
def emit (table : LineTable) (line : TextLine) (waiting : List Word) : LineTable :=
  { table with lines := table.lines ++ [line], waiting }

/-- What is left out in front of text that begins a line. -/
def gapBefore : List Word → Gap
  | [] => .nothing
  | code :: _ => if code = 32 then .blank else .nothing

/-- The table after one code. -/
def take (table : LineTable) (code : Word) : LineTable :=
  if code = 13 then table.emit ⟨table.waiting, .newLine⟩ []
  else
    let line := table.waiting ++ [code]
    if table.width < line.length then
      let place := MemoryStream.breakPlace table.width line
      table.emit ⟨line.take place, gapBefore (line.drop place)⟩
        (MemoryStream.dropBlank (line.drop place))
    else { table with waiting := line }

/-- The table after codes. -/
def takeAll (table : LineTable) (codes : List Word) : LineTable :=
  codes.foldl take table

/-- The table when it is closed. -/
def finish (table : LineTable) : LineTable :=
  if table.waiting.isEmpty then table else table.emit ⟨table.waiting, .nothing⟩ []

/-- The closed table of a text. -/
def layOut (address width : Nat) (codes : List Word) : LineTable :=
  (({ address, width } : LineTable).takeAll codes).finish

/-- All that has been printed. -/
def printed (table : LineTable) : List Word :=
  table.lines.flatMap TextLine.printed ++ table.waiting

/-- Lines that are not too long, and behind which something is left out unless they are full. -/
structure Broken (table : LineTable) : Prop where
  waiting_le : table.waiting.length ≤ table.width
  line_le : ∀ line ∈ table.lines, line.codes.length ≤ table.width
  full : ∀ line ∈ table.lines, line.gap = .nothing → line.codes.length = table.width

variable {table : LineTable} {code : Word} {codes : List Word} {line : TextLine}
  {waiting : List Word}

/-! ## Nothing is lost -/

/-- A blank that is left out is the one that is dropped. -/
theorem gapBefore_append_dropBlank (codes : List Word) :
    (gapBefore codes).codes ++ MemoryStream.dropBlank codes = codes := by
  cases codes with
  | nil => rfl
  | cons code rest =>
      simp only [gapBefore, MemoryStream.dropBlank]
      by_cases hblank : code = 32
      · rw [if_pos hblank, if_pos hblank, hblank]
        rfl
      · rw [if_neg hblank, if_neg hblank]
        rfl

/-- A line that is emitted adds what was printed for it, and what waits. -/
theorem printed_emit (table : LineTable) (line : TextLine) (waiting : List Word) :
    (table.emit line waiting).printed
      = table.lines.flatMap TextLine.printed ++ (line.printed ++ waiting) := by
  unfold printed emit
  rw [List.flatMap_append, List.flatMap_singleton, List.append_assoc]

/-- **One code** more has been printed. -/
theorem printed_take (table : LineTable) (code : Word) :
    (table.take code).printed = table.printed ++ [code] := by
  unfold take
  by_cases hnew : code = 13
  · rw [if_pos hnew, printed_emit, hnew, TextLine.printed, Gap.codes, List.append_nil, printed,
      List.append_assoc]
  · rw [if_neg hnew]
    dsimp only
    by_cases hlong : table.width < (table.waiting ++ [code]).length
    · rw [if_pos hlong, printed_emit, TextLine.printed, List.append_assoc (List.take _ _),
        gapBefore_append_dropBlank, List.take_append_drop, printed, List.append_assoc]
    · rw [if_neg hlong, printed, printed, List.append_assoc]

/-- Codes that are taken are printed. -/
theorem printed_takeAll (table : LineTable) (codes : List Word) :
    (table.takeAll codes).printed = table.printed ++ codes := by
  induction codes generalizing table with
  | nil => exact (List.append_nil _).symm
  | cons code rest ih =>
      show ((table.take code).takeAll rest).printed = _
      rw [ih, printed_take, List.append_assoc, List.singleton_append]

/-- Closing prints nothing more and leaves nothing waiting. -/
theorem printed_finish (table : LineTable) :
    table.finish.printed = table.printed ∧ table.finish.waiting = [] := by
  unfold finish
  cases hwaiting : table.waiting with
  | nil => exact ⟨rfl, hwaiting⟩
  | cons code rest =>
      refine ⟨?_, rfl⟩
      rw [List.isEmpty_cons, if_neg Bool.false_ne_true, printed_emit, printed, hwaiting,
        TextLine.printed, Gap.codes, List.append_nil, List.append_nil]

/-! ## Where lines end -/

/-- The last blank of a line is a blank in it. -/
theorem lastBlank?_eq_some {codes : List Word} {place : Nat}
    (h : MemoryStream.lastBlank? codes = some place) :
    place < codes.length ∧ codes[place]? = some 32 := by
  unfold MemoryStream.lastBlank? at h
  obtain ⟨i, hi, rfl⟩ := Option.map_eq_some_iff.mp h
  obtain ⟨hlt, hblank, -⟩ := List.findIdx?_eq_some_iff_getElem.mp hi
  rw [List.length_reverse] at hlt
  refine ⟨by omega, ?_⟩
  rw [List.getElem_reverse] at hblank
  rw [List.getElem?_eq_getElem (by omega), of_decide_eq_true hblank]

/-- A line that is one code too long is broken at a blank or where it is full. -/
theorem breakPlace_spec {codes : List Word} {width : Nat} (hwidth : 1 ≤ width)
    (hlength : codes.length = width + 1) :
    1 ≤ MemoryStream.breakPlace width codes ∧ MemoryStream.breakPlace width codes ≤ width ∧
      (codes[MemoryStream.breakPlace width codes]? = some 32 ∨
        MemoryStream.breakPlace width codes = width) := by
  unfold MemoryStream.breakPlace
  cases hlast : MemoryStream.lastBlank? codes with
  | none => exact ⟨hwidth, Nat.le_refl _, .inr rfl⟩
  | some place =>
      obtain ⟨hlt, hblank⟩ := lastBlank?_eq_some hlast
      dsimp only
      by_cases hpos : 0 < place
      · rw [if_pos hpos]
        exact ⟨hpos, by omega, .inl hblank⟩
      · rw [if_neg hpos]
        exact ⟨hwidth, Nat.le_refl _, .inr rfl⟩

/-- A line that is not too long, and full unless something is left out behind it, may be emitted.
-/
theorem Broken.emit (h : Broken table) (hwaiting : waiting.length ≤ table.width)
    (hline : line.codes.length ≤ table.width)
    (hfull : line.gap = .nothing → line.codes.length = table.width) :
    Broken (table.emit line waiting) := by
  refine ⟨hwaiting, fun other hother => ?_, fun other hother hnothing => ?_⟩
  · rcases List.mem_append.mp hother with hother | hother
    · exact h.line_le other hother
    · obtain rfl := List.mem_singleton.mp hother
      exact hline
  · rcases List.mem_append.mp hother with hother | hother
    · exact h.full other hother hnothing
    · obtain rfl := List.mem_singleton.mp hother
      exact hfull hnothing

/-- Where nothing is left out in front of text, it does not begin with a blank. -/
theorem gapBefore_eq_nothing {codes : List Word} (h : codes ≠ [])
    (hgap : gapBefore codes = .nothing) : codes[0]? ≠ some 32 := by
  cases codes with
  | nil => exact absurd rfl h
  | cons code rest =>
      intro hblank
      obtain rfl := Option.some.inj hblank
      exact nomatch hgap

/-- Dropping a blank makes a line no longer. -/
theorem length_dropBlank_le (codes : List Word) :
    (MemoryStream.dropBlank codes).length ≤ codes.length := by
  have hlength := congrArg List.length (gapBefore_append_dropBlank codes)
  rw [List.length_append] at hlength
  omega

/-- **One code** more, and lines are as long as they may be.  Where nothing is left out, it was not
at a blank that the line was broken. -/
theorem Broken.take (h : Broken table) (hwidth : 1 ≤ table.width) (code : Word) :
    Broken (table.take code) := by
  unfold LineTable.take
  by_cases hnew : code = 13
  · rw [if_pos hnew]
    exact h.emit (Nat.zero_le _) h.waiting_le fun hgap => nomatch hgap
  · rw [if_neg hnew]
    dsimp only
    have hlength : (table.waiting ++ [code]).length = table.waiting.length + 1 :=
      List.length_append
    generalize table.waiting ++ [code] = line at hlength
    have hwaiting := h.waiting_le
    by_cases hlong : table.width < line.length
    · rw [if_pos hlong]
      have hover : line.length = table.width + 1 := by omega
      obtain ⟨hpos, hle, hplace⟩ := breakPlace_spec hwidth hover
      generalize MemoryStream.breakPlace table.width line = place at hpos hle hplace
      have htake : (line.take place).length = place := by
        rw [List.length_take]
        omega
      have hdrop : (line.drop place).length = line.length - place := List.length_drop
      have hrest := length_dropBlank_le (line.drop place)
      refine h.emit (by omega) (Nat.le_trans (Nat.le_of_eq htake) hle) fun hgap => ?_
      rcases hplace with hblank | hfull
      · have hne : line.drop place ≠ [] := List.ne_nil_of_length_pos (by omega)
        refine absurd ?_ (gapBefore_eq_nothing hne hgap)
        rw [List.getElem?_drop, Nat.add_zero]
        exact hblank
      · exact htake.trans hfull
    · rw [if_neg hlong]
      exact ⟨Nat.le_of_not_lt hlong, h.line_le, h.full⟩

/-- Taking a code leaves the table where it is, with its width. -/
theorem place_take (table : LineTable) (code : Word) :
    (table.take code).address = table.address ∧ (table.take code).width = table.width := by
  unfold take
  split
  · exact ⟨rfl, rfl⟩
  · dsimp only
    split <;> exact ⟨rfl, rfl⟩

/-- Taking codes leaves the table where it is, with its width. -/
theorem place_takeAll (table : LineTable) (codes : List Word) :
    (table.takeAll codes).address = table.address ∧
      (table.takeAll codes).width = table.width := by
  induction codes generalizing table with
  | nil => exact ⟨rfl, rfl⟩
  | cons code rest ih =>
      obtain ⟨haddress, hwidth⟩ := place_take table code
      obtain ⟨haddress', hwidth'⟩ := ih (table.take code)
      exact ⟨haddress'.trans haddress, hwidth'.trans hwidth⟩

/-- **Lines stay broken over any text.** -/
theorem Broken.takeAll (h : Broken table) (hwidth : 1 ≤ table.width) (codes : List Word) :
    Broken (table.takeAll codes) := by
  induction codes generalizing table with
  | nil => exact h
  | cons code rest ih => exact ih (h.take hwidth code) ((place_take table code).2 ▸ hwidth)

/-- The lines of a closed table are not too long.  Where nothing is left out behind one, it is full
or the last. -/
theorem Broken.finish (h : Broken table) :
    (∀ line ∈ table.finish.lines, line.codes.length ≤ table.width) ∧
      ∀ i line, table.finish.lines[i]? = some line → line.gap = .nothing →
        line.codes.length = table.width ∨ i + 1 = table.finish.lines.length := by
  unfold LineTable.finish
  by_cases hempty : table.waiting.isEmpty = true
  · rw [if_pos hempty]
    exact ⟨h.line_le, fun i line hline hgap => .inl (h.full line (List.mem_of_getElem? hline) hgap)⟩
  · rw [if_neg hempty]
    refine ⟨fun line hline => ?_, fun i line hline hgap => ?_⟩
    · rcases List.mem_append.mp hline with hline | hline
      · exact h.line_le line hline
      · obtain rfl := List.mem_singleton.mp hline
        exact h.waiting_le
    · have hlength : (table.emit ⟨table.waiting, .nothing⟩ []).lines.length
          = table.lines.length + 1 := List.length_append
      have hi := (List.getElem?_eq_some_iff.mp hline).1
      by_cases hlast : i = table.lines.length
      · right
        omega
      · left
        have hbefore : i < table.lines.length := by omega
        rw [LineTable.emit, List.getElem?_append_left hbefore] at hline
        exact h.full line (List.mem_of_getElem? hline) hgap

/-! ## A whole text -/

/-- A table without lines is broken. -/
theorem broken_start (address width : Nat) : Broken { address, width } :=
  ⟨Nat.zero_le _, List.forall_mem_nil _, List.forall_mem_nil _⟩

/-- **Nothing of a text is lost.** -/
theorem flatMap_printed_layOut (address width : Nat) (codes : List Word) :
    (layOut address width codes).lines.flatMap TextLine.printed = codes := by
  obtain ⟨hprinted, hwaiting⟩ := printed_finish (({ address, width } : LineTable).takeAll codes)
  rw [printed_takeAll] at hprinted
  have hall : (layOut address width codes).printed = codes := hprinted
  rw [printed] at hall
  have hnone : (layOut address width codes).waiting = [] := hwaiting
  rwa [hnone, List.append_nil] at hall

/-- Closing leaves the table where it is. -/
theorem address_finish (table : LineTable) : table.finish.address = table.address := by
  unfold finish
  split <;> rfl

/-- A text is laid out where its table is. -/
theorem address_layOut (address width : Nat) (codes : List Word) :
    (layOut address width codes).address = address :=
  (address_finish _).trans (place_takeAll { address, width } codes).1

/-! ## The records in memory -/

/-- The records of a table, one after the other. -/
def records (table : LineTable) : List UInt8 :=
  table.lines.flatMap TextLine.record

/-- Where the next record begins. -/
def next (table : LineTable) : Nat :=
  table.address + table.records.length

/-- The bytes of memory that have been written, with the length of the next record. -/
def Covers (table : LineTable) (address : Nat) : Prop :=
  table.address ≤ address ∧ address < table.next + 2

/-- Memory has the records of a table, and behind them a length of zero. -/
def HeldBy (table : LineTable) (memory : Memory) : Prop :=
  memory.Holds table.address (table.records ++ [0, 0])

/-- The stream that writes the table. -/
def stream (table : LineTable) : MemoryStream :=
  { table := table.address, width := some table.width, record := table.next, line := table.waiting }

/-- A record takes two bytes more than its line has codes. -/
theorem length_record (line : TextLine) : line.record.length = 2 + line.codes.length := by
  rw [TextLine.record, List.length_append, List.length_map]
  rfl

/-- A line that is emitted adds its record. -/
theorem records_emit (table : LineTable) (line : TextLine) (waiting : List Word) :
    (table.emit line waiting).records = table.records ++ line.record := by
  rw [records, emit, List.flatMap_append, List.flatMap_singleton, records]

/-- The next record begins behind the line that was emitted. -/
theorem next_emit (table : LineTable) (line : TextLine) (waiting : List Word) :
    (table.emit line waiting).next = table.next + 2 + line.codes.length := by
  rw [next, records_emit, List.length_append, length_record, next]
  show table.address + _ = _
  omega

/-- The length of a line fits into the word of its record, if the records fit into memory. -/
theorem length_lt_of_mem {line : TextLine} (hline : line ∈ table.lines) :
    line.codes.length < table.records.length := by
  obtain ⟨before, later, hsplit⟩ := List.append_of_mem hline
  rw [records, hsplit, List.flatMap_append, List.flatMap_cons, List.length_append,
    List.length_append, length_record]
  omega

/-- Records are never taken away. -/
theorem next_le_take (table : LineTable) (code : Word) : table.next ≤ (table.take code).next := by
  unfold take
  split
  · rw [next_emit]
    omega
  · dsimp only
    split
    · rw [next_emit]
      omega
    · exact Nat.le_refl _

/-- Taking codes moves the next record on, if anywhere. -/
theorem next_le_takeAll (table : LineTable) (codes : List Word) :
    table.next ≤ (table.takeAll codes).next := by
  induction codes generalizing table with
  | nil => exact Nat.le_refl _
  | cons code rest ih => exact Nat.le_trans (next_le_take table code) (ih (table.take code))

/-- Closing moves the next record on, if anywhere. -/
theorem next_le_finish (table : LineTable) : table.next ≤ table.finish.next := by
  unfold finish
  split
  · exact Nat.le_refl _
  · rw [next_emit]
    omega

/-- What has been written stays written. -/
theorem Covers.mono {later : LineTable} {place : Nat} (h : table.Covers place)
    (haddress : later.address = table.address) (hnext : table.next ≤ later.next) :
    later.Covers place :=
  ⟨haddress ▸ h.1, Nat.lt_of_lt_of_le h.2 (Nat.add_le_add_right hnext 2)⟩

/-- Behind the records there is an empty table for the next one. -/
theorem HeldBy.openTable (h : table.HeldBy memory) :
    ({ address := table.next } : OpenTable).HeldBy memory := by
  have hzero : memory.Holds table.next (Word.toBytes 0) := (holds_append.mp h).2
  refine ⟨?_, trivial⟩
  show (memory.wordAt table.next).toNat = 0
  rw [(holds_toBytes_iff.mp hzero).2]
  rfl

/-- Records, and then a zero behind them: that is a table. -/
theorem heldBy_of_records {after : Memory} (hrecords : memory.Holds table.address table.records)
    (hword : table.next + 1 < memory.dynamicCeiling)
    (hafter : memory.setWord table.next 0 hword = after) :
    table.HeldBy after ∧ SameOff table.Covers memory after := by
  subst hafter
  have hsame : SameOff (fun place => place = table.next ∨ place = table.next + 1) memory _ :=
    sameOff_setWord 0 hword (.inl rfl) (.inr rfl)
  have hnext : table.next = table.address + table.records.length := rfl
  have hceiling := memory.ceiling_le_size
  constructor
  · refine holds_append.mpr ⟨hrecords.of_sameOff hsame fun i hi => by omega, ?_⟩
    refine holds_toBytes_iff.mpr ⟨?_, wordAt_setWord 0 hword⟩
    rw [size_congr hsame.story_eq]
    show table.next + 1 < memory.size
    omega
  · refine hsame.mono fun place hplace => ?_
    unfold Covers
    omega

/-- **A line that has been written** behind the others makes one more record. -/
theorem HeldBy.holds_emit {middle : Memory} (h : table.HeldBy memory) (line : TextLine)
    (waiting : List Word)
    (hline : (({ address := table.next } : OpenTable).push line.codes).HeldBy middle)
    (hsame : SameOff (({ address := table.next } : OpenTable).push line.codes).Covers memory middle)
    (hsize : table.next + 1 < middle.size) :
    middle.Holds (table.emit line waiting).address (table.emit line waiting).records := by
  have hnext : table.next = table.address + table.records.length := rfl
  rw [records_emit, holds_append]
  refine ⟨(holds_append.mp h).1.of_sameOff hsame fun i hi hcovers => ?_, hline.holds_bytes hsize⟩
  have hle : table.next ≤ table.address + i := hcovers.1
  omega

end LineTable

namespace MemoryStream

open Work

variable {draft : Draft} {table : LineTable}

/-- The next record is begun behind the current one, with length zero. -/
theorem on_nextRecord (stream : MemoryStream)
    (h : stream.record + 2 + stream.length + 1 < draft.memory.dynamicCeiling) :
    on nextRecord { stream, draft } = (.ok (), {
      stream := { stream with record := stream.record + 2 + stream.length, length := 0 }
      draft := { draft with
        memory := draft.memory.setWord (stream.record + 2 + stream.length) 0 h } }) := by
  unfold nextRecord
  rw [on_bind_of_ok (on_change _ _), on_bind_of_ok (on_get _), on_onMemory]
  dsimp only
  rw [Edit.on_writeWord_of_lt h]

/-- **A line is emitted** as one more record. -/
theorem on_emitLine (line : TextLine) (waiting : List Word) (hheld : table.HeldBy draft.memory)
    (hfit : (table.emit line waiting).next + 2 ≤ draft.memory.dynamicCeiling) :
    ∃ memory, on (emitLine line.codes)
        { stream := { table.stream with line := waiting }, draft }
        = (.ok (), { stream := (table.emit line waiting).stream, draft := { draft with memory } }) ∧
      (table.emit line waiting).HeldBy memory ∧
      SameOff (table.emit line waiting).Covers draft.memory memory := by
  have hnext := LineTable.next_emit table line waiting
  have hlimit : (({ address := table.next } : OpenTable).push line.codes).limit
      = (table.emit line waiting).next := hnext.symm
  obtain ⟨middle, hwrite, hline, hsame⟩ := on_writeCodes { table.stream with line := waiting }
    line.codes hheld.openTable (by omega)
  have hceiling : middle.dynamicCeiling = draft.memory.dynamicCeiling := hsame.dynamicCeiling_eq
  have hword : (table.emit line waiting).next + 1 < middle.dynamicCeiling := by omega
  have hsize : table.next + 1 < middle.size := by
    have hle := middle.ceiling_le_size
    omega
  obtain ⟨hafter, hsame'⟩ :=
    LineTable.heldBy_of_records (hheld.holds_emit line waiting hline hsame hsize) hword rfl
  have hplaces : ∀ place, (({ address := table.next } : OpenTable).push line.codes).Covers place →
      (table.emit line waiting).Covers place := by
    intro place hcovers
    have hle : table.address ≤ table.next := Nat.le_add_right _ _
    have hlt : place < (table.emit line waiting).next := hlimit ▸ hcovers.2
    exact ⟨Nat.le_trans hle hcovers.1, Nat.lt_of_lt_of_le hlt (Nat.le_add_right _ _)⟩
  refine ⟨_, ?_, hafter, (hsame.mono hplaces).trans hsame'⟩
  have hrecord : table.next + 2 + line.codes.length + 1 < middle.dynamicCeiling := hnext ▸ hword
  have hstart : on (writeCodes line.codes)
      { stream := { table.stream with line := waiting }, draft }
      = (.ok (), { stream := { table.stream with line := waiting, length := line.codes.length }
                   draft := { draft with memory := middle } }) := hwrite
  have hrest := @on_nextRecord { draft with memory := middle }
    { table.stream with line := waiting, length := line.codes.length } hrecord
  rw [emitLine, on_bind_of_ok hstart, hrest]
  simp only [LineTable.stream, hnext]
  rfl

/-- **One code** is taken: it waits, or a line is emitted. -/
theorem on_takeCode (code : Word) (hheld : table.HeldBy draft.memory)
    (hfit : (table.take code).next + 2 ≤ draft.memory.dynamicCeiling) :
    ∃ memory, on (takeCode table.width code) { stream := table.stream, draft }
        = (.ok (), { stream := (table.take code).stream, draft := { draft with memory } }) ∧
      (table.take code).HeldBy memory ∧
      SameOff (table.take code).Covers draft.memory memory := by
  unfold takeCode LineTable.take at *
  by_cases hnew : code = 13
  · rw [if_pos hnew] at hfit ⊢
    rw [if_pos hnew]
    obtain ⟨memory, hemit, hafter⟩ := on_emitLine ⟨table.waiting, .newLine⟩ [] hheld hfit
    refine ⟨memory, ?_, hafter⟩
    rw [on_bind_of_ok (on_get _), on_bind_of_ok (on_change _ _)]
    exact hemit
  · rw [if_neg hnew] at hfit ⊢
    rw [if_neg hnew, on_bind_of_ok (on_get _)]
    dsimp only at hfit ⊢
    have hwaiting : table.stream.line = table.waiting := rfl
    rw [hwaiting]
    generalize table.waiting ++ [code] = line at hfit ⊢
    by_cases hlong : table.width < line.length
    · rw [if_pos hlong] at hfit ⊢
      rw [if_pos hlong, on_bind_of_ok (on_change _ _)]
      generalize breakPlace table.width line = place at hfit ⊢
      obtain ⟨memory, hemit, hheld', hsame⟩ :=
        on_emitLine ⟨line.take place, LineTable.gapBefore (line.drop place)⟩ (line.drop place)
          hheld hfit
      refine ⟨memory, ?_, hheld', hsame⟩
      rw [on_bind_of_ok hemit]
      rfl
    · rw [if_neg hlong, if_neg hlong]
      exact ⟨draft.memory, rfl, hheld, .refl _ _⟩

/-- **All codes** are taken, one after the other. -/
theorem on_takeCodes (codes : List Word) (hheld : table.HeldBy draft.memory)
    (hfit : (table.takeAll codes).next + 2 ≤ draft.memory.dynamicCeiling) :
    ∃ memory, on (takeCodes table.width codes) { stream := table.stream, draft }
        = (.ok (), { stream := (table.takeAll codes).stream, draft := { draft with memory } }) ∧
      (table.takeAll codes).HeldBy memory ∧
      SameOff (table.takeAll codes).Covers draft.memory memory := by
  induction codes generalizing table draft with
  | nil => exact ⟨draft.memory, rfl, hheld, .refl _ _⟩
  | cons code rest ih =>
      have hle := LineTable.next_le_takeAll (table.take code) rest
      have hall : (table.takeAll (code :: rest)) = (table.take code).takeAll rest := rfl
      rw [hall] at hfit ⊢
      obtain ⟨middle, htake, hmiddle, hsame⟩ := on_takeCode code hheld (by omega)
      have hceiling : middle.dynamicCeiling = draft.memory.dynamicCeiling := hsame.dynamicCeiling_eq
      obtain ⟨memory, hrest, hmemory, hsame'⟩ :=
        @ih { draft with memory := middle } (table.take code) hmiddle (hceiling ▸ hfit)
      rw [(LineTable.place_take table code).2] at hrest
      have haddress := (LineTable.place_takeAll (table.take code) rest).1
      refine ⟨memory, ?_, hmemory,
        (hsame.mono fun _ hcovers => hcovers.mono haddress hle).trans hsame'⟩
      rw [takeCodes, on_bind_of_ok htake, hrest]

/-- **A print** takes its codes into the table. -/
theorem on_print_lines (codes : List Word) (hheld : table.HeldBy draft.memory)
    (hfit : (table.takeAll codes).next + 2 ≤ draft.memory.dynamicCeiling) :
    ∃ memory, on (table.stream.run (print codes)) draft
        = (.ok (.ok (), (table.takeAll codes).stream), { draft with memory }) ∧
      (table.takeAll codes).HeldBy memory ∧
      SameOff (table.takeAll codes).Covers draft.memory memory := by
  obtain ⟨memory, htake, hafter⟩ := on_takeCodes codes hheld hfit
  refine ⟨memory, ?_, hafter⟩
  have hprint : on (print codes) { stream := table.stream, draft } = _ := htake
  rw [on_run, hprint]

/-- What is done with codes that still wait when a table is closed. -/
def emitRest (waiting : List Word) : Capture Unit :=
  if waiting.isEmpty then pure () else do
    change fun stream => { stream with line := [] }
    emitLine waiting

/-- Codes that wait are written as a last line. -/
theorem on_emitRest (hheld : table.HeldBy draft.memory)
    (hfit : table.finish.next + 2 ≤ draft.memory.dynamicCeiling) :
    ∃ memory, on (emitRest table.waiting) { stream := table.stream, draft }
        = (.ok (), { stream := table.finish.stream, draft := { draft with memory } }) ∧
      table.finish.HeldBy memory ∧ SameOff table.finish.Covers draft.memory memory := by
  unfold emitRest
  by_cases hempty : table.waiting.isEmpty = true
  · have hfinish : table.finish = table := if_pos hempty
    rw [hfinish, if_pos hempty]
    exact ⟨draft.memory, rfl, hheld, .refl _ _⟩
  · have hfinish : table.finish = table.emit ⟨table.waiting, .nothing⟩ [] := if_neg hempty
    rw [hfinish] at hfit ⊢
    obtain ⟨memory, hemit, hafter⟩ := on_emitLine ⟨table.waiting, .nothing⟩ [] hheld hfit
    refine ⟨memory, ?_, hafter⟩
    rw [if_neg hempty, on_bind_of_ok (on_change _ _)]
    exact hemit

/-- The record of length zero that ends a table, and the notice that it is closed. -/
def endTable (table : Nat) : Capture Unit := do
  onMemory (Edit.writeWord (← get).stream.record 0)
  onMemory (Edit.note (.remark s!"closed memory stream at {Numeral.marked 4 table}"))

/-- A table ends with a record of length zero. -/
theorem on_endTable (address : Nat) (stream : MemoryStream)
    (h : stream.record + 1 < draft.memory.dynamicCeiling) :
    ∃ notices, on (endTable address) { stream, draft } = (.ok (), {
      stream, draft := { memory := draft.memory.setWord stream.record 0 h, notices } }) := by
  unfold endTable
  rw [on_bind_of_ok (on_get _), on_bind, on_onMemory]
  dsimp only
  rw [Edit.on_writeWord_of_lt h]
  exact ⟨_, rfl⟩

/-- A table of lines is closed in two steps. -/
theorem on_close_eq (table : LineTable) (draft : Draft) :
    on close { stream := table.stream, draft }
      = on (do emitRest table.waiting; endTable table.address)
        { stream := table.stream, draft } := by
  unfold close emitRest endTable
  rw [on_bind_of_ok (on_get _)]
  dsimp only [LineTable.stream, Option.isSome_some, if_true]
  cases table.waiting.isEmpty <;> rfl

/-- **Closing** emits what still waits, and ends the table. -/
theorem on_close_lines (hheld : table.HeldBy draft.memory)
    (hfit : table.finish.next + 2 ≤ draft.memory.dynamicCeiling) :
    ∃ memory notices, on (table.stream.run close) draft
        = (.ok (.ok (), table.finish.stream), { memory, notices }) ∧
      table.finish.HeldBy memory ∧ SameOff table.finish.Covers draft.memory memory := by
  obtain ⟨middle, hrest, hmiddle, hsame⟩ := on_emitRest hheld hfit
  have hword : table.finish.next + 1 < middle.dynamicCeiling := by
    have hceiling : middle.dynamicCeiling = draft.memory.dynamicCeiling := hsame.dynamicCeiling_eq
    omega
  obtain ⟨notices, hend⟩ :=
    @on_endTable { draft with memory := middle } table.address table.finish.stream hword
  obtain ⟨hafter, hsame'⟩ :=
    LineTable.heldBy_of_records (holds_append.mp hmiddle).1 hword rfl
  refine ⟨_, notices, ?_, hafter, hsame.trans hsame'⟩
  rw [on_run, on_close_eq, on_bind_of_ok hrest, hend]
  rfl

end MemoryStream

namespace Streams

open StreamWork MemoryStream

variable {W : Type} {host : Host (StateM W)}

/-- **All prints** go into the innermost table, if it is one of lines. -/
theorem on_makeAll_print (unicode : UnicodeTable) (prints : List (List Word)) {desk : Desk}
    {table : LineTable} {outer : List MemoryStream}
    (hopen : desk.streams.tables = table.stream :: outer) (hheld : table.HeldBy desk.memory)
    (hfit : (table.takeAll prints.flatten).next + 2 ≤ desk.memory.dynamicCeiling) (w : W) :
    ∃ memory, (StreamCall.makeAll unicode (prints.map .print)).on host desk w = ((.ok (), {
        memory
        streams := { desk.streams with
          tables := (table.takeAll prints.flatten).stream :: outer } }), w) ∧
      (table.takeAll prints.flatten).HeldBy memory ∧
      SameOff (table.takeAll prints.flatten).Covers desk.memory memory := by
  induction prints generalizing desk table with
  | nil =>
      refine ⟨desk.memory, ?_, hheld, .refl _ _⟩
      have hnil : table.takeAll [].flatten = table := rfl
      rw [hnil, ← hopen]
      rfl
  | cons codes rest ih =>
      have hall : table.takeAll (codes :: rest).flatten
          = (table.takeAll codes).takeAll rest.flatten := List.foldl_append
      have hle := LineTable.next_le_takeAll (table.takeAll codes) rest.flatten
      rw [hall] at hfit ⊢
      obtain ⟨middle, hprint, hmiddle, hsame⟩ :=
        @on_print_lines { memory := desk.memory } table codes hheld (by
          show (table.takeAll codes).next + 2 ≤ desk.memory.dynamicCeiling
          omega)
      have hceiling : middle.dynamicCeiling = desk.memory.dynamicCeiling := hsame.dynamicCeiling_eq
      have hcall := @on_print_of_cons W host unicode codes desk _ _ outer middle hopen hprint w
      obtain ⟨memory, hrest, hmemory, hsame'⟩ := @ih
        { memory := middle
          streams := { desk.streams with tables := (table.takeAll codes).stream :: outer } }
        (table.takeAll codes) rfl hmiddle (hceiling ▸ hfit)
      have haddress := (LineTable.place_takeAll (table.takeAll codes) rest.flatten).1
      refine ⟨memory, ?_, hmemory,
        (hsame.mono fun _ hcovers => hcovers.mono haddress hle).trans hsame'⟩
      rw [List.map_cons, StreamCall.makeAll]
      exact (on_bind_of_ok hcall).trans hrest

/-- A table with a width is opened in front of the others. -/
theorem on_select_lines {table : Word} {width : Int} (hwidth : width ≠ 0) {desk : Desk}
    (hroom : desk.streams.tables.length < maxTables)
    (hword : table.toNat + 1 < desk.memory.dynamicCeiling) (host : Host (StateM W))
    (unicode : UnicodeTable) (w : W) :
    ((StreamCall.select 3 (some table) (some width)).make unicode).on host desk w = ((.ok (), {
      memory := desk.memory.setWord table.toNat 0 hword
      streams := { desk.streams with
        tables := ({ address := table.toNat, width := width.natAbs } : LineTable).stream
          :: desk.streams.tables } }), w) := by
  have hfilter : ((some width).map Int.natAbs).filter (0 < ·) = some width.natAbs := by
    have hpos : 0 < width.natAbs := Int.natAbs_pos.mpr hwidth
    simp [hpos]
  have hopen := @on_openTable_of_room W host table (some width) desk hroom hword w
  rw [hfilter] at hopen
  exact on_bind_of_ok (on_bind_of_ok hopen)

/-- The innermost table is closed. -/
theorem on_select_close {desk : Desk} {table : LineTable} {outer : List MemoryStream}
    (hopen : desk.streams.tables = table.stream :: outer) (hheld : table.HeldBy desk.memory)
    (hfit : table.finish.next + 2 ≤ desk.memory.dynamicCeiling) (host : Host (StateM W))
    (unicode : UnicodeTable) (w : W) :
    ∃ memory v, ((StreamCall.select (-3) none none).make unicode).on host desk w
        = ((.ok (), { memory, streams := { desk.streams with tables := outer } }), v) ∧
      table.finish.HeldBy memory ∧ SameOff table.finish.Covers desk.memory memory := by
  obtain ⟨memory, notices, hclose, hafter⟩ :=
    @on_close_lines { memory := desk.memory } table hheld hfit
  obtain ⟨v, hcall⟩ := @on_closeTable_of_ok W host desk _ _ outer _ hopen hclose w
  exact ⟨memory, v, on_bind_of_ok (on_bind_of_ok hcall), hafter⟩

/-- **A table is opened, printed to and closed**: then memory has the lines of the text. -/
theorem on_makeAll_lines {table : Word} {width : Int} (hwidth : width ≠ 0) {desk : Desk}
    (hroom : desk.streams.tables.length < maxTables) {prints : List (List Word)}
    (hfit : (LineTable.layOut table.toNat width.natAbs prints.flatten).next + 2
      ≤ desk.memory.dynamicCeiling)
    (host : Host (StateM W)) (unicode : UnicodeTable) (w : W) :
    ∃ memory v, (StreamCall.makeAll unicode (.select 3 (some table) (some width) ::
        (prints.map .print ++ [.select (-3) none none]))).on host desk w
        = ((.ok (), { desk with memory }), v) ∧
      (LineTable.layOut table.toNat width.natAbs prints.flatten).HeldBy memory ∧
      SameOff (LineTable.layOut table.toNat width.natAbs prints.flatten).Covers
        desk.memory memory := by
  let start : LineTable := { address := table.toNat, width := width.natAbs }
  have htake := LineTable.next_le_takeAll start prints.flatten
  have hfinish := LineTable.next_le_finish (start.takeAll prints.flatten)
  have hstart : start.next = table.toNat := rfl
  have hlayOut : LineTable.layOut table.toNat width.natAbs prints.flatten
      = (start.takeAll prints.flatten).finish := rfl
  rw [hlayOut] at hfit ⊢
  have hword : table.toNat + 1 < desk.memory.dynamicCeiling := by omega
  have hselect := on_select_lines hwidth hroom hword host unicode w
  obtain ⟨hopened, hsame⟩ := @LineTable.heldBy_of_records start desk.memory _ trivial hword rfl
  obtain ⟨middle, hprint, hmiddle, hsame'⟩ := @on_makeAll_print W host unicode prints
    { memory := desk.memory.setWord table.toNat 0 hword
      streams := { desk.streams with tables := start.stream :: desk.streams.tables } }
    start desk.streams.tables rfl hopened (by
      show (start.takeAll prints.flatten).next + 2 ≤ desk.memory.dynamicCeiling
      omega) w
  have hceiling : middle.dynamicCeiling = desk.memory.dynamicCeiling :=
    congrArg Story.dynamicCeiling (hsame'.story_eq.trans hsame.story_eq)
  obtain ⟨memory, v, hclose, hheld, hsame''⟩ := @on_select_close W
    { memory := middle
      streams := { desk.streams with
        tables := (start.takeAll prints.flatten).stream :: desk.streams.tables } }
    (start.takeAll prints.flatten) desk.streams.tables rfl hmiddle (hceiling ▸ hfit) host unicode w
  refine ⟨memory, v, ?_, hheld, ?_⟩
  · rw [StreamCall.makeAll, on_bind_of_ok hselect,
      StreamCall.on_makeAll_append [.select (-3) none none] hprint]
    exact on_bind_of_ok hclose
  · have haddress := (LineTable.place_takeAll start prints.flatten).1
    have haddress' := LineTable.address_finish (start.takeAll prints.flatten)
    have hsecond := hsame'.mono fun _ hcovers => hcovers.mono haddress' hfinish
    have hfirst := hsame.mono fun _ hcovers =>
      (hcovers.mono haddress htake).mono haddress' hfinish
    exact hfirst.trans (hsecond.trans hsame'')

/-- **A table with a width loses nothing.**  Text is printed to it piece by piece, at any width.
When it is closed, memory has a record for each line and then one of length zero; no line is longer
than the width; and the text is there again when behind each line is put what has been left out:
a new line, a blank, or nothing, and nothing only if the line is full or the last one. -/
theorem lines_recovered {table : Word} {width : Int} (hwidth : width ≠ 0) {desk : Desk}
    (hroom : desk.streams.tables.length < maxTables) {prints : List (List Word)}
    (hfit : (LineTable.layOut table.toNat width.natAbs prints.flatten).next + 2
      ≤ desk.memory.dynamicCeiling)
    (host : Host (StateM W)) (unicode : UnicodeTable) (w : W) :
    ∃ memory lines v,
      (StreamCall.makeAll unicode (.select 3 (some table) (some width) ::
        (prints.map .print ++ [.select (-3) none none]))).on host desk w
        = ((.ok (), { desk with memory }), v) ∧
      lines = (LineTable.layOut table.toNat width.natAbs prints.flatten).lines ∧
      memory.Holds table.toNat (lines.flatMap TextLine.record ++ [0, 0]) ∧
      (∀ line ∈ lines, line.codes.length ≤ width.natAbs ∧
        line.codes.length.toUInt16.toNat = line.codes.length) ∧
      prints.flatten.map byteOf
        = lines.flatMap (fun line => line.codes.map byteOf ++ line.gap.codes.map byteOf) ∧
      (∀ i line, lines[i]? = some line → line.gap = .nothing →
        line.codes.length = width.natAbs ∨ i + 1 = lines.length) ∧
      Memory.SameOff (fun place => table.toNat ≤ place ∧
          place < table.toNat + (lines.flatMap TextLine.record).length + 2)
        desk.memory memory := by
  obtain ⟨memory, v, hcalls, hheld, hsame⟩ := on_makeAll_lines hwidth hroom hfit host unicode w
  have haddress := LineTable.address_layOut table.toNat width.natAbs prints.flatten
  have hprinted := LineTable.flatMap_printed_layOut table.toNat width.natAbs prints.flatten
  have hbroken := (LineTable.broken_start table.toNat width.natAbs).takeAll
    (Int.natAbs_pos.mpr hwidth) prints.flatten
  have hwidths := (LineTable.place_takeAll { address := table.toNat, width := width.natAbs }
    prints.flatten).2
  obtain ⟨hshort, hfull⟩ := hbroken.finish
  rw [hwidths] at hshort hfull
  refine ⟨memory, _, v, hcalls, rfl, ?_, fun line hline => ⟨hshort line hline, ?_⟩, ?_, hfull, ?_⟩
  · rw [LineTable.HeldBy, haddress] at hheld
    exact hheld
  · have hlength := LineTable.length_lt_of_mem hline
    have hceiling := desk.memory.dynamicCeiling_lt
    unfold LineTable.next at hfit
    exact UInt16.toNat_ofNat_of_lt' (by
      show line.codes.length < 65536
      omega)
  · have hbytes := congrArg (List.map byteOf) hprinted
    rw [List.map_flatMap] at hbytes
    simp only [TextLine.printed, List.map_append] at hbytes
    exact hbytes.symm
  · refine hsame.mono fun place hcovers => ?_
    unfold LineTable.Covers LineTable.next at hcovers
    rw [haddress] at hcovers
    exact hcovers

/-- Two pieces of text: a word that goes on in the second, and two new lines. -/
def pieces : List (List Word) := [[97, 98, 32, 99, 100], [101, 102, 103, 13, 13, 120]]

/-- A desk with a page on which nothing is open. -/
def emptyDesk : Desk := { memory := StreamCall.page, streams := {} }

/-- At four codes to a line, the first line is broken at a blank, the second where it is full, and
the fourth is empty. -/
theorem lines_recovered_pieces :
    ∃ memory v, (StreamCall.makeAll .standard (.select 3 (some 64) (some (-4)) ::
        (pieces.map .print ++ [.select (-3) none none]))).on StreamCall.scribe emptyDesk ("", [])
        = ((.ok (), { emptyDesk with memory }), v) ∧
      memory.Holds 64
        [0, 2, 97, 98, 0, 4, 99, 100, 101, 102, 0, 1, 103, 0, 0, 0, 1, 120, 0, 0] := by
  have hroom : emptyDesk.streams.tables.length < maxTables := by decide
  have hfit : (LineTable.layOut (64 : Word).toNat (-4 : Int).natAbs pieces.flatten).next + 2
      ≤ emptyDesk.memory.dynamicCeiling := by decide +kernel
  have hrecords : (LineTable.layOut (64 : Word).toNat (-4 : Int).natAbs pieces.flatten).records
      = [0, 2, 97, 98, 0, 4, 99, 100, 101, 102, 0, 1, 103, 0, 0, 0, 1, 120] := by decide +kernel
  obtain ⟨memory, lines, v, hcalls, hlines, hholds, -⟩ :=
    lines_recovered (by decide : (-4 : Int) ≠ 0) hroom hfit StreamCall.scribe .standard ("", [])
  unfold LineTable.records at hrecords
  rw [hlines, hrecords] at hholds
  exact ⟨memory, v, hcalls, hholds⟩

end Streams

end StoryMachine
