import StoryMachine.Proofs.CheckedDictionary
import StoryMachine.Proofs.StreamLaws

/-!
# Streams with checked addresses

A stream into memory writes behind the record that it has begun, so its addresses are
sums of where the record is and how long it is.  A line that is too long is cut at a
position in it.

What bounds the sums is where a stream has got to (`MemoryStream.stop`).  A code that has
been written lies in dynamic memory, so the next place is not far.  A record that cannot
be begun leaves the stream two bytes further on all the same, and that fault ends the
work: hence `Recording.upkeep` and `Desk.upkeep`, in which a fault may cost two bytes.
-/

namespace StoryMachine

open Checked CheckedEdit

variable {W α β : Type}

namespace MemoryStream

/-- Where the next code goes. -/
def stop (stream : MemoryStream) : Nat :=
  stream.record + 2 + stream.length

end MemoryStream

/-- A stream at work has got no further than a bound, or two bytes further at a fault. -/
def Recording.upkeep (b : Nat) : Upkeep Recording where
  during recording := recording.draft.memory.Addressable ∧ recording.stream.stop ≤ b
  atFault recording := recording.draft.memory.Addressable ∧ recording.stream.stop ≤ b + 2
  imp := fun _ h => ⟨h.1, Nat.le_add_right_of_le h.2⟩

namespace CheckedStream

/-! ## Capturing text -/

/-- Work on memory alone. -/
def onMemory (work : CheckedWork Draft α) : CheckedWork Recording α :=
  ExceptT.mk fun recording =>
    (work.on recording.draft).map fun result => (result.1, { recording with draft := result.2 })

/-- Writes one code at the end of the record. -/
def writeCode (code : Word) : CheckedWork Recording Unit := do
  let recording ← get
  let first ← sum recording.stream.record 2
  let address ← sum first recording.stream.length
  onMemory (writeByte address (MemoryStream.byteOf code))
  let length ← sum recording.stream.length 1
  CheckedWork.whole (MemoryStream.change fun stream => { stream with length })
  onMemory (writeWord recording.stream.record length.toUInt16)

/-- Writes codes at the end of the record. -/
def writeCodes : List Word → CheckedWork Recording Unit
  | [] => pure ()
  | code :: rest => do
    writeCode code
    writeCodes rest

/-- Starts a new record after the current one. -/
def nextRecord : CheckedWork Recording Unit := do
  let recording ← get
  let step ← sum 2 recording.stream.length
  let record ← sum recording.stream.record step
  CheckedWork.whole (MemoryStream.change fun stream => { stream with record, length := 0 })
  onMemory (writeWord record 0)

/-- Writes a line as the record and starts a new one. -/
def emitLine (line : List Word) : CheckedWork Recording Unit := do
  writeCodes line
  nextRecord

/-- Sets what waits for the end of its line. -/
def setLine (f : List Word → List Word) : CheckedWork Recording Unit :=
  CheckedWork.whole (MemoryStream.change fun stream => { stream with line := f stream.line })

/-- Takes one code of text that is broken into lines. -/
def takeCode (width : Nat) (code : Word) : CheckedWork Recording Unit := do
  if code = 13 then
    let recording ← get
    setLine fun _ => []
    emitLine recording.stream.line
  else
    let recording ← get
    let line := recording.stream.line ++ [code]
    if width < line.length then
      let place := MemoryStream.breakPlace width line
      let rest ← cut line place line.length
      let first ← cut line 0 place
      setLine fun _ => rest
      emitLine first
      setLine MemoryStream.dropBlank
    else setLine fun _ => line

/-- Takes codes of text that is broken into lines. -/
def takeCodes (width : Nat) : List Word → CheckedWork Recording Unit
  | [] => pure ()
  | code :: rest => do
    takeCode width code
    takeCodes width rest

/-- Prints codes. -/
def print (codes : List Word) : CheckedWork Recording Unit := do
  let recording ← get
  match recording.stream.width with
  | none => writeCodes codes
  | some width => takeCodes width codes

/-- Writes what waits, and the record that ends a table of lines. -/
def close : CheckedWork Recording Unit := do
  let recording ← get
  let stream := recording.stream
  if stream.width.isSome then
    if !stream.line.isEmpty then
      setLine fun _ => []
      emitLine stream.line
    let recording ← get
    onMemory (writeWord recording.stream.record 0)
  onMemory (CheckedWork.whole
    (Edit.note (.remark s!"closed memory stream at {Numeral.marked 4 stream.table}")))

section

variable {b : Nat} {P : α → Prop}

/-- Work on memory alone, from the outside. -/
theorem on_onMemory (work : CheckedWork Draft α) (recording : Recording) :
    (onMemory work).on recording
      = (work.on recording.draft).map fun result =>
          (result.1, { recording with draft := result.2 }) := rfl

/-- Work on memory leaves the stream where it is. -/
theorem follows_onMemory {checked : CheckedWork Draft α} {work : Edit α}
    (h : Follows Draft.upkeep checked work P) :
    Follows (Recording.upkeep b) (onMemory checked) (MemoryStream.onMemory work) P := by
  intro recording hkeep
  obtain ⟨hsame, hleaves⟩ := h recording.draft hkeep.1
  rw [on_onMemory, hsame, MemoryStream.on_onMemory]
  refine ⟨rfl, ?_⟩
  rcases hwork : Work.on work recording.draft with ⟨fault | a, draft⟩ <;> rw [hwork] at hleaves
  · exact ⟨hleaves, Nat.le_add_right_of_le hkeep.2⟩
  · exact ⟨⟨hleaves.1, hkeep.2⟩, hleaves.2⟩

/-- What waits is no matter of addresses. -/
theorem follows_setLine (f : List Word → List Word) :
    Follows (Recording.upkeep b) (setLine f)
      (MemoryStream.change fun stream => { stream with line := f stream.line }) :=
  .whole fun _ hkeep => ⟨hkeep, trivial⟩

/-- **A code that is written leaves the stream in dynamic memory.** -/
theorem follows_writeCode (hlow : 0x10000 ≤ b) (hhigh : b < 2 ^ 63) (code : Word) :
    Follows (Recording.upkeep b) (writeCode code) (MemoryStream.writeCode code) := by
  intro recording hkeep
  have hstop : recording.stream.record + 2 + recording.stream.length ≤ b := hkeep.2
  rw [writeCode, CheckedWork.on_get_bind, sum_of_lt (by omega), pure_bind, sum_of_lt (by omega),
    pure_bind, CheckedWork.on_bind, on_onMemory, MemoryStream.writeCode, Work.on_bind, Work.on_get]
  dsimp only
  rw [Work.on_bind, MemoryStream.on_onMemory]
  obtain ⟨hsame, hleaves⟩ := follows_writeByte
    (recording.stream.record + 2 + recording.stream.length) (MemoryStream.byteOf code)
    recording.draft hkeep.1
  rw [hsame]
  rcases hwrite : Work.on (Edit.writeByte (recording.stream.record + 2 + recording.stream.length)
    (MemoryStream.byteOf code)) recording.draft with ⟨fault | _, draft⟩ <;> rw [hwrite] at hleaves
  · exact ⟨rfl, hleaves, Nat.le_add_right_of_le hkeep.2⟩
  · obtain ⟨hroom, hlt⟩ := hleaves
    dsimp only [Option.map_some, Option.bind_some]
    rw [sum_of_lt (by omega), pure_bind]
    have hnext : recording.stream.record + 2 + (recording.stream.length + 1) ≤ b := by omega
    have hlength : Follows (Recording.upkeep b)
        (onMemory (writeWord recording.stream.record (recording.stream.length + 1).toUInt16))
        (MemoryStream.onMemory
          (Edit.writeWord recording.stream.record (recording.stream.length + 1).toUInt16)) :=
      (follows_onMemory (follows_writeWord (by omega) _)).imp fun _ _ => trivial
    exact hlength ⟨{ recording.stream with length := recording.stream.length + 1 }, draft⟩
      ⟨hroom, hnext⟩

/-- Codes are put into a record with its addresses in their range. -/
theorem follows_writeCodes (hlow : 0x10000 ≤ b) (hhigh : b < 2 ^ 63) (codes : List Word) :
    Follows (Recording.upkeep b) (writeCodes codes) (MemoryStream.writeCodes codes) := by
  induction codes with
  | nil => exact .pure trivial
  | cons code rest ih => exact (follows_writeCode hlow hhigh code).bind fun _ _ => ih

/-- A record that is begun lies in dynamic memory; one that cannot be begun is two bytes on. -/
theorem begun (hlow : 0x10000 ≤ b) (hhigh : b < 2 ^ 63) (recording : Recording)
    (hroom : recording.draft.memory.Addressable) (hlength : recording.stream.length = 0)
    (hrecord : recording.stream.record ≤ b) :
    (onMemory (writeWord recording.stream.record 0)).on recording
        = some (Work.on (MemoryStream.onMemory (Edit.writeWord recording.stream.record 0))
            recording) ∧
      (Recording.upkeep b).Leaves (fun _ => True)
        (Work.on (MemoryStream.onMemory (Edit.writeWord recording.stream.record 0)) recording) := by
  have hnext : recording.stream.record + 1 < 2 ^ 64 := by omega
  obtain ⟨hsame, hleaves⟩ := follows_writeWord hnext 0 recording.draft hroom
  rw [on_onMemory, hsame, MemoryStream.on_onMemory]
  refine ⟨rfl, ?_⟩
  rcases hwork : Work.on (Edit.writeWord recording.stream.record 0) recording.draft
    with ⟨fault | _, draft⟩ <;> rw [hwork] at hleaves
  · refine ⟨hleaves, ?_⟩
    simp only [MemoryStream.stop, hlength]
    omega
  · obtain ⟨hroom', hlt⟩ := hleaves
    refine ⟨⟨hroom', ?_⟩, trivial⟩
    simp only [MemoryStream.stop, hlength]
    omega

/-- The next record is begun at an address in its range. -/
theorem follows_nextRecord (hlow : 0x10000 ≤ b) (hhigh : b < 2 ^ 63) :
    Follows (Recording.upkeep b) nextRecord MemoryStream.nextRecord := by
  intro recording hkeep
  have hstop : recording.stream.record + 2 + recording.stream.length ≤ b := hkeep.2
  rw [nextRecord, CheckedWork.on_get_bind, sum_of_lt (by omega), pure_bind, sum_of_lt (by omega),
    pure_bind, ← Nat.add_assoc]
  exact begun hlow hhigh ⟨{ recording.stream with
    record := recording.stream.record + 2 + recording.stream.length, length := 0 }, recording.draft⟩
    hkeep.1 rfl hstop

/-- A line is sent off with its addresses in their range. -/
theorem follows_emitLine (hlow : 0x10000 ≤ b) (hhigh : b < 2 ^ 63) (line : List Word) :
    Follows (Recording.upkeep b) (emitLine line) (MemoryStream.emitLine line) :=
  (follows_writeCodes hlow hhigh line).bind fun _ _ => follows_nextRecord hlow hhigh

/-- A line is broken within it. -/
theorem breakPlace_le {width : Nat} {line : List Word} (h : width < line.length) :
    MemoryStream.breakPlace width line ≤ line.length := by
  unfold MemoryStream.breakPlace
  cases hblank : MemoryStream.lastBlank? line with
  | none => exact Nat.le_of_lt h
  | some place =>
      unfold MemoryStream.lastBlank? at hblank
      obtain ⟨i, -, rfl⟩ := Option.map_eq_some_iff.mp hblank
      dsimp only
      split <;> omega

/-- A code of broken text is taken with the place of the break in the line. -/
theorem follows_takeCode (hlow : 0x10000 ≤ b) (hhigh : b < 2 ^ 63) (width : Nat) (code : Word) :
    Follows (Recording.upkeep b) (takeCode width code) (MemoryStream.takeCode width code) := by
  refine .ite (fun _ => ?_) fun _ => ?_
  · exact Follows.get.bind fun recording _ => (follows_setLine fun _ => []).bind fun _ _ =>
      follows_emitLine hlow hhigh _
  · refine Follows.get.bind fun recording _ => .ite (fun hlong => ?_) fun _ => follows_setLine _
    have hplace := breakPlace_le hlong
    dsimp only
    rw [cut_of_le hplace (Nat.le_refl _), pure_bind, cut_of_le (Nat.zero_le _) hplace, pure_bind,
      List.take_of_length_le (by rw [List.length_drop])]
    exact (follows_setLine _).bind fun _ _ => (follows_emitLine hlow hhigh _).bind fun _ _ =>
      follows_setLine MemoryStream.dropBlank

/-- Codes of broken text are taken with addresses in their range. -/
theorem follows_takeCodes (hlow : 0x10000 ≤ b) (hhigh : b < 2 ^ 63) (width : Nat)
    (codes : List Word) :
    Follows (Recording.upkeep b) (takeCodes width codes) (MemoryStream.takeCodes width codes) := by
  induction codes with
  | nil => exact .pure trivial
  | cons code rest ih => exact (follows_takeCode hlow hhigh width code).bind fun _ _ => ih

/-- **Printing into a table stays in range.** -/
theorem follows_print (hlow : 0x10000 ≤ b) (hhigh : b < 2 ^ 63) (codes : List Word) :
    Follows (Recording.upkeep b) (print codes) (MemoryStream.print codes) := by
  refine Follows.get.bind fun recording _ => ?_
  cases recording.stream.width with
  | none => exact follows_writeCodes hlow hhigh codes
  | some width => exact follows_takeCodes hlow hhigh width codes

/-- A stream is closed with its addresses in their range. -/
theorem follows_close (hlow : 0x10000 ≤ b) (hhigh : b < 2 ^ 63) :
    Follows (Recording.upkeep b) close MemoryStream.close := by
  have hnote (text : String) : Follows (Recording.upkeep b)
      (onMemory (CheckedWork.whole (Edit.note (.remark text))))
      (MemoryStream.onMemory (Edit.note (.remark text))) :=
    follows_onMemory (follows_whole (Edit.keepsStory_note _))
  have hend (text : String) : Follows (Recording.upkeep b)
      (do
        let recording ← get
        onMemory (writeWord recording.stream.record 0)
        onMemory (CheckedWork.whole (Edit.note (.remark text))))
      (do
        MemoryStream.onMemory (Edit.writeWord (← get).stream.record 0)
        MemoryStream.onMemory (Edit.note (.remark text))) := by
    refine Follows.get.bind fun recording hkeep => ?_
    have hstop : recording.stream.record + 2 + recording.stream.length ≤ b := hkeep.2
    exact (follows_onMemory (follows_writeWord (by omega) 0)).bind fun _ _ => hnote text
  refine Follows.get.bind fun recording _ => .ite (fun _ => ?_) fun _ => hnote _
  refine .ite (fun _ => ?_) fun _ => hend _
  exact (follows_setLine fun _ => []).bind fun _ _ =>
    (follows_emitLine hlow hhigh _).bind fun _ _ => hend _

end

end CheckedStream

/-! ## Streams with a host -/

/-- Memory that leaves room, and streams into it that have got no further than a bound. -/
structure Desk.Roomy (b : Nat) (desk : Desk) : Prop where
  memory : desk.memory.Addressable
  tables : ∀ stream ∈ desk.streams.tables, stream.stop ≤ b

/-- A desk with room has room for more. -/
theorem Desk.Roomy.mono {b c : Nat} {desk : Desk} (h : desk.Roomy b) (hle : b ≤ c) :
    desk.Roomy c :=
  ⟨h.memory, fun stream hstream => Nat.le_trans (h.tables stream hstream) hle⟩

/-- A fault may cost a stream two bytes. -/
def Desk.upkeep (b : Nat) : Upkeep Desk where
  during := Desk.Roomy b
  atFault := Desk.Roomy (b + 2)
  imp := fun _ h => h.mono (Nat.le_add_right _ _)

namespace CheckedStreams

/-- Works on memory. -/
def edit (work : CheckedWork Draft α) : CheckedHosted Desk W α := fun host =>
  ExceptT.mk fun desk w =>
  (work.on { memory := desk.memory }).map fun result =>
    ((result.1, { desk with memory := result.2.memory }),
      ((result.2.notices.forM host.note : StateM W PUnit) w).2)

/-- Does the work of a stream: its outcome, and the stream afterwards. -/
def run (stream : MemoryStream) (work : CheckedWork Recording α) :
    CheckedWork Draft (Except Fault α × MemoryStream) :=
  ExceptT.mk fun draft =>
    (work.on { stream, draft }).map fun result => (.ok (result.1, result.2.stream), result.2.draft)

/-- Opens a stream into memory. -/
def openTable (table : Option Word) (width : Option Int) : CheckedHosted Desk W Unit := do
  let desk ← get
  if Streams.maxTables ≤ desk.streams.tables.length then
    throw { kind := .badStream, detail := s!"MORE THAN {Streams.maxTables} MEMORY STREAMS" }
  match table with
  | none => throw { kind := .badOperands, detail := "STREAM 3 WITHOUT A TABLE" }
  | some table =>
    let table := table.toNat
    edit (writeWord table 0)
    let width := (width.map Int.natAbs).filter (0 < ·)
    CheckedHosted.whole (StreamWork.change fun streams =>
      { streams with tables := { table, width, record := table } :: streams.tables })

/-- Closes the innermost stream into memory. -/
def closeTable : CheckedHosted Desk W Bool := do
  let desk ← get
  match desk.streams.tables with
  | [] => return false
  | stream :: outer =>
    CheckedHosted.whole (StreamWork.change fun streams => { streams with tables := outer })
    let result ← edit (run stream CheckedStream.close)
    CheckedHosted.compute (inRange result.1)
    return true

/-- Turns an output stream on or off. -/
def turn (number : Int) (table : Option Word) (width : Option Int) :
    CheckedHosted Desk W (Option String) :=
  match number with
  | 0 => pure none
  | 1 => do
    CheckedHosted.whole (StreamWork.change fun streams => { streams with screen := true })
    return none
  | -1 => do
    CheckedHosted.whole (StreamWork.change fun streams => { streams with screen := false })
    return none
  | 2 => do
    let on ← CheckedHosted.whole Streams.openTranscript
    CheckedHosted.whole (StreamWork.change fun streams => { streams with transcriptOn := on })
    return none
  | -2 => do
    CheckedHosted.whole (StreamWork.change fun streams => { streams with transcriptOn := false })
    return none
  | 3 => do
    openTable table width
    return none
  | -3 => do
    if !(← closeTable) then return some "closing memory stream when none is open"
    else return none
  | 4 => do
    CheckedHosted.whole Streams.openCommands
    return none
  | -4 => do
    CheckedHosted.whole (StreamWork.change fun streams => { streams with commandsOn := false })
    return none
  | number => return some s!"output stream {number} does not exist"

/-- What is done after a stream was turned on or off, whichever it was: its absolute value is
taken to see whether it is the transcript. -/
def showIfTranscript (number : Int) (warning : Option String) :
    CheckedHosted Desk W (Option String) := do
  let stream ← magnitude number
  if stream = 2 then CheckedHosted.whole Streams.showTranscriptFlag
  return warning

/-- Selects an output stream, or deselects it by the negated number. -/
def select (number : Int) (table : Option Word) (width : Option Int) :
    CheckedHosted Desk W (Option String) := do
  let warning ← turn number table width
  showIfTranscript number warning

/-- Prints codes. -/
def print (unicode : UnicodeTable) (codes : List Word) : CheckedHosted Desk W Unit := do
  let desk ← get
  match desk.streams.tables with
  | stream :: outer =>
    let result ← edit (run stream (CheckedStream.print codes))
    CheckedHosted.whole (StreamWork.change fun streams =>
      { streams with tables := result.2 :: outer })
    CheckedHosted.compute (inRange result.1)
  | [] =>
    let text ← CheckedHosted.compute (CheckedCodes.decode unicode codes)
    CheckedHosted.whole do
      if (← get).streams.screen then StreamWork.ask (·.print text)
      Streams.writeTranscript text

section

variable {b : Nat} {P : α → Prop}

/-- Work on memory leaves the streams where they are. -/
theorem accompanies_edit {checked : CheckedWork Draft α} {work : Edit α}
    (h : Follows Draft.upkeep checked work P) :
    Accompanies (Desk.upkeep b) (edit checked : CheckedHosted Desk W α)
      (StreamWork.edit work) P := by
  intro host desk w hroomy
  obtain ⟨hsame, hleaves⟩ := h { memory := desk.memory } hroomy.memory
  have hchecked : (edit checked).on host desk w
      = some (StreamWork.on (StreamWork.edit work) host desk w) := by
    rw [StreamWork.on_edit, Edit.run_eq_on]
    show (checked.on { memory := desk.memory }).map _ = _
    rw [hsame]
    rfl
  refine ⟨hchecked, ?_⟩
  change (Desk.upkeep b).Leaves P (StreamWork.on (StreamWork.edit work) host desk w).1
  rw [StreamWork.on_edit, Edit.run_eq_on]
  rcases hwork : Work.on work { memory := desk.memory } with ⟨fault | a, draft⟩ <;>
    rw [hwork] at hleaves
  · exact ⟨hleaves, fun stream hstream => Nat.le_add_right_of_le (hroomy.tables stream hstream)⟩
  · exact ⟨⟨hleaves.1, hroomy.tables⟩, hleaves.2⟩

/-- A stream that is worked on has got no further than the bound, or two bytes further at a
fault. -/
theorem follows_run {checked : CheckedWork Recording α} {work : Capture α} {stream : MemoryStream}
    (hstop : stream.stop ≤ b) (h : Follows (Recording.upkeep b) checked work) :
    Follows Draft.upkeep (run stream checked) (stream.run work) fun result =>
      result.2.stop ≤ b + 2 ∧ ((∃ a, result.1 = .ok a) → result.2.stop ≤ b) := by
  intro draft hroom
  obtain ⟨hsame, hleaves⟩ := h { stream, draft } ⟨hroom, hstop⟩
  have hchecked : (run stream checked).on draft = some (Work.on (stream.run work) draft) := by
    rw [MemoryStream.on_run]
    show (checked.on { stream, draft }).map _ = _
    rw [hsame]
    rfl
  refine ⟨hchecked, ?_⟩
  rw [MemoryStream.on_run]
  rcases hwork : Work.on work { stream, draft } with ⟨fault | a, recording⟩ <;>
    rw [hwork] at hleaves
  · refine ⟨hleaves.1, hleaves.2, ?_⟩
    rintro ⟨a, ha⟩
    exact nomatch ha
  · exact ⟨hleaves.1.1, Nat.le_add_right_of_le hleaves.1.2, fun _ => hleaves.1.2⟩

/-- A stream that has been printed to is put back, even if it met a fault. -/
theorem accompanies_putBack {outer : List MemoryStream} {result : Except Fault Unit × MemoryStream}
    (houter : ∀ stream ∈ outer, stream.stop ≤ b) (hstop : result.2.stop ≤ b + 2)
    (hok : (∃ a, result.1 = .ok a) → result.2.stop ≤ b) :
    Accompanies (Desk.upkeep b)
      (do
        CheckedHosted.whole (StreamWork.change fun streams =>
          { streams with tables := result.2 :: outer })
        CheckedHosted.compute (inRange result.1) : CheckedHosted Desk W Unit)
      (do
        StreamWork.change fun streams => { streams with tables := result.2 :: outer }
        MonadExcept.ofExcept result.1) := by
  obtain ⟨outcome, stream⟩ := result
  intro host desk w hroomy
  cases outcome with
  | error fault =>
      refine ⟨rfl, hroomy.memory, fun other hother => ?_⟩
      rcases List.mem_cons.mp hother with rfl | hother
      · exact hstop
      · exact Nat.le_add_right_of_le (houter other hother)
  | ok _ =>
      refine ⟨rfl, ⟨hroomy.memory, fun other hother => ?_⟩, trivial⟩
      rcases List.mem_cons.mp hother with rfl | hother
      · exact hok ⟨_, rfl⟩
      · exact houter other hother

/-! ## What is left whole -/

/-- Asking the host leaves the streams roomy. -/
theorem maintains_ask (f : Host (StateM W) → StateM W α) :
    Hosted.Maintains (Desk.Roomy b) (StreamWork.ask f) := .of_eq fun _ _ _ => rfl

/-- The streams into memory stay where they are. -/
theorem maintains_change {f : Streams → Streams}
    (h : ∀ streams, (f streams).tables = streams.tables) :
    Hosted.Maintains (Desk.Roomy b) (StreamWork.change f : StreamWork (StateM W) Unit) :=
  fun _ desk _ hroomy => ⟨hroomy.memory, (h desk.streams).symm ▸ hroomy.tables⟩

/-- Opening the transcript leaves the streams roomy. -/
theorem maintains_openTranscript :
    Hosted.Maintains (Desk.Roomy b) (Streams.openTranscript : StreamWork (StateM W) Bool) := by
  refine .bind .get fun desk => .ite (.pure true) (.bind (maintains_ask _) fun file => ?_)
  cases file with
  | none => exact .bind (maintains_ask _) fun _ => .pure false
  | some file =>
      refine .bind (maintains_ask _) fun stamp => .bind (maintains_ask _) fun written => ?_
      cases written with
      | error text => exact .bind (maintains_ask _) fun _ => .pure false
      | ok _ => exact .bind (maintains_change fun _ => rfl) fun _ => .pure true

/-- Writing to the transcript leaves them roomy. -/
theorem maintains_writeTranscript (text : String) :
    Hosted.Maintains (Desk.Roomy b)
      (Streams.writeTranscript text : StreamWork (StateM W) Unit) := by
  refine .bind .get fun desk => ?_
  dsimp only
  cases desk.streams.transcript with
  | none => exact .pure ()
  | some file =>
      refine .ite (.bind (maintains_ask _) fun written => ?_) (.pure ())
      cases written with
      | error text => exact .bind (maintains_ask _) fun _ => maintains_change fun _ => rfl
      | ok _ => exact .pure ()

/-- Opening the record of commands leaves them roomy. -/
theorem maintains_openCommands :
    Hosted.Maintains (Desk.Roomy b) (Streams.openCommands : StreamWork (StateM W) Unit) := by
  have hend : Hosted.Maintains (Desk.Roomy b) (do
      StreamWork.change fun streams => { streams with commandsOn := streams.commands.isSome }
      if !(← get).streams.commandsOn then
        StreamWork.note (.warning "command record could not be opened") :
          StreamWork (StateM W) Unit) :=
    .bind (maintains_change fun _ => rfl) fun _ => .bind .get fun _ =>
      .ite (maintains_ask _) (.pure ())
  refine .bind .get fun desk => .ite ?_ hend
  exact .bind (maintains_ask _) fun _ => .bind (maintains_change fun _ => rfl) fun _ => hend

/-- Showing the flag leaves them roomy. -/
theorem maintains_showTranscriptFlag :
    Hosted.Maintains (Desk.Roomy b) (Streams.showTranscriptFlag : StreamWork (StateM W) Unit) :=
  .bind .get fun _ => fun _ _ _ hroomy => ⟨.congr hroomy.memory rfl, hroomy.tables⟩

/-- Recording a typed line leaves them roomy. -/
theorem maintains_recordInput (text : String) :
    Hosted.Maintains (Desk.Roomy b) (Streams.recordInput text : StreamWork (StateM W) Unit) := by
  refine .bind .get fun desk => .ite (.pure ()) ?_
  refine .bind (maintains_writeTranscript _) fun _ => .bind (maintains_writeTranscript _) fun _ =>
    .bind .get fun desk => ?_
  dsimp only
  cases desk.streams.commands with
  | none => exact .pure ()
  | some file =>
      refine .ite (.bind (maintains_ask _) fun written => ?_) (.pure ())
      cases written with
      | error text => exact .bind (maintains_ask _) fun _ => maintains_change fun _ => rfl
      | ok _ => exact .pure ()

/-- Selecting an input stream leaves them roomy. -/
theorem maintains_selectInput (number : Word) :
    Hosted.Maintains (Desk.Roomy b)
      (Streams.selectInput number : StreamWork (StateM W) (Option String)) := by
  refine .ite (.bind (maintains_change fun _ => rfl) fun _ => .pure none) ?_
  refine .ite (.bind (maintains_ask _) fun file => ?_) (.pure _)
  cases file with
  | none => exact .bind (maintains_ask _) fun _ => .pure none
  | some file => exact .bind (maintains_change fun _ => rfl) fun _ => .pure none

/-- Replaying a command leaves them roomy. -/
theorem maintains_replayLine :
    Hosted.Maintains (Desk.Roomy b)
      (Streams.replayLine : StreamWork (StateM W) (Option String)) := by
  refine .bind .get fun desk => ?_
  cases desk.streams.replay with
  | none => exact .pure none
  | some file =>
      refine .bind (maintains_ask _) fun read => ?_
      exact .ite (.bind (maintains_change fun _ => rfl) fun _ => .pure _) (.pure _)

/-! ## The streams -/

/-- A stream into memory is opened at an address in its range. -/
theorem accompanies_openTable (hlow : 0x10000 ≤ b) (table : Option Word) (width : Option Int) :
    Accompanies (Desk.upkeep b) (openTable table width : CheckedHosted Desk W Unit)
      (Streams.openTable table width) := by
  refine Accompanies.get.bind fun desk hroomy => ?_
  cases table with
  | none =>
      exact .ite (fun _ => .bind (.throw _) fun (_ : PUnit) (_ : True) => .throw _)
        fun _ => .throw _
  | some table =>
      have htable := table.toNat_lt
      have hopen : Accompanies (Desk.upkeep b)
          (do
            edit (writeWord table.toNat 0)
            CheckedHosted.whole (StreamWork.change fun streams => { streams with tables :=
              { table := table.toNat, width := (width.map Int.natAbs).filter (0 < ·),
                record := table.toNat } :: streams.tables }) : CheckedHosted Desk W Unit)
          (do
            StreamWork.edit (Edit.writeWord table.toNat 0)
            StreamWork.change fun streams => { streams with tables :=
              { table := table.toNat, width := (width.map Int.natAbs).filter (0 < ·),
                record := table.toNat } :: streams.tables }) := by
        refine (accompanies_edit (follows_writeWord (by omega) 0)).bind fun _ hlt => .whole ?_
        refine fun _ desk _ hroomy => ⟨⟨hroomy.memory, fun stream hstream => ?_⟩, trivial⟩
        rcases List.mem_cons.mp hstream with rfl | hstream
        · exact Nat.le_trans hlt hlow
        · exact hroomy.tables stream hstream
      exact .ite (fun _ => .bind (.throw _) fun (_ : PUnit) (_ : True) => hopen) fun _ => hopen

/-- The innermost stream is closed with its addresses in their range. -/
theorem accompanies_closeTable (hlow : 0x10000 ≤ b) (hhigh : b < 2 ^ 63) :
    Accompanies (Desk.upkeep b) (closeTable : CheckedHosted Desk W Bool) Streams.closeTable := by
  refine Accompanies.get.bind fun desk hroomy => ?_
  have htables := hroomy.tables
  rcases hopen : desk.streams.tables with _ | ⟨stream, outer⟩
  · exact .pure trivial
  · rw [hopen] at htables
    refine .bind (P := fun _ => True) (.whole fun _ desk _ hroomy => ?_) fun _ _ => ?_
    · exact ⟨⟨hroomy.memory, fun other hother => htables other (List.mem_cons_of_mem _ hother)⟩,
        trivial⟩
    refine (accompanies_edit (follows_run (htables _ List.mem_cons_self)
      (CheckedStream.follows_close hlow hhigh))).bind fun result _ => ?_
    exact .bind (P := fun _ => True) (.compute rfl fun _ _ => trivial) fun _ _ => .pure trivial

/-- **Printing stays in range**, whether it goes to a table or not. -/
theorem accompanies_print (hlow : 0x10000 ≤ b) (hhigh : b < 2 ^ 63) (unicode : UnicodeTable)
    (codes : List Word) :
    Accompanies (Desk.upkeep b) (print unicode codes : CheckedHosted Desk W Unit)
      (Streams.print unicode codes) := by
  refine Accompanies.get.bind fun desk hroomy => ?_
  have htables := hroomy.tables
  rcases hopen : desk.streams.tables with _ | ⟨stream, outer⟩
  · refine .computed (CheckedCodes.decode_eq unicode codes) (.maintained ?_)
    exact .bind .get fun _ => .ite (.bind (maintains_ask _) fun _ => maintains_writeTranscript _)
      (maintains_writeTranscript _)
  · rw [hopen] at htables
    refine (accompanies_edit (follows_run (htables _ List.mem_cons_self)
      (CheckedStream.follows_print hlow hhigh codes))).bind fun result hresult => ?_
    exact accompanies_putBack (fun other hother => htables other (List.mem_cons_of_mem _ hother))
      hresult.1 hresult.2

/-- A stream that is not the transcript shows nothing in the header. -/
theorem accompanies_other {number : Int} (hnumber : number.natAbs < 2 ^ 15)
    (hother : number.natAbs ≠ 2) {table : Option Word} {width : Option Int}
    {work : StreamWork (StateM W) (Option String)}
    (h : Accompanies (Desk.upkeep b) (turn number table width) work) :
    Accompanies (Desk.upkeep b) (select number table width) work := by
  have hnothing (warning : Option String) :
      (showIfTranscript number warning : CheckedHosted Desk W (Option String)) = pure warning := by
    rw [showIfTranscript, magnitude_of_lt hnumber, pure_bind, if_neg hother]
  have hselect : (select number table width : CheckedHosted Desk W (Option String))
      = turn number table width := by
    rw [select]
    simp only [hnothing, bind_pure]
  rw [hselect]
  exact h

/-- **Selecting a stream stays in range**, unless it is the lowest number there is. -/
theorem accompanies_select (hlow : 0x10000 ≤ b) (hhigh : b < 2 ^ 63) {number : Int}
    (hnumber : number.natAbs < 2 ^ 15) (table : Option Word) (width : Option Int) :
    Accompanies (Desk.upkeep b) (select number table width : CheckedHosted Desk W (Option String))
      (Streams.select number table width) := by
  have hchange (f : Streams → Streams) (h : ∀ streams, (f streams).tables = streams.tables) :
      Accompanies (Desk.upkeep b)
        (CheckedHosted.whole (StreamWork.change f) : CheckedHosted Desk W Unit)
        (StreamWork.change f) := .maintained (maintains_change h)
  have hset (f : Streams → Streams) (h : ∀ streams, (f streams).tables = streams.tables) :
      Accompanies (Desk.upkeep b)
        (do
          CheckedHosted.whole (StreamWork.change f)
          return none : CheckedHosted Desk W (Option String))
        (do
          StreamWork.change f
          return none) := (hchange f h).bind fun _ _ => .pure trivial
  have hshow (number : Int) (htwo : number.natAbs = 2) :
      Accompanies (Desk.upkeep b)
        (showIfTranscript number none : CheckedHosted Desk W (Option String))
        (do
          Streams.showTranscriptFlag
          return none) := by
    rw [showIfTranscript, magnitude_of_lt (by omega), pure_bind, if_pos htwo]
    exact (Accompanies.maintained maintains_showTranscriptFlag).bind fun _ _ => .pure trivial
  unfold Streams.select
  split
  · exact accompanies_other hnumber (by decide) (.pure trivial)
  · exact accompanies_other hnumber (by decide) (hset _ fun _ => rfl)
  · exact accompanies_other hnumber (by decide) (hset _ fun _ => rfl)
  · simp only [select, turn, bind_assoc, pure_bind]
    exact (Accompanies.maintained maintains_openTranscript).bind fun on _ =>
      .bind (hchange _ fun _ => rfl) fun _ _ => hshow 2 rfl
  · simp only [select, turn, bind_assoc, pure_bind]
    exact .bind (hchange _ fun _ => rfl) fun _ _ => hshow (-2) rfl
  · exact accompanies_other hnumber (by decide)
      ((accompanies_openTable hlow table width).bind fun _ _ => .pure trivial)
  · exact accompanies_other hnumber (by decide) ((accompanies_closeTable hlow hhigh).bind fun _ _ =>
      .ite (fun _ => .pure trivial) fun _ => .pure trivial)
  · exact accompanies_other hnumber (by decide)
      ((Accompanies.maintained maintains_openCommands).bind fun _ _ => .pure trivial)
  · exact accompanies_other hnumber (by decide) (hset _ fun _ => rfl)
  · exact absurd hnumber (by decide)
  · rename_i h0 h1 h1' h2 h2' h3 h3' h4 h4' _
    have hturn : (turn number table width : CheckedHosted Desk W (Option String))
        = pure (some s!"output stream {number} does not exist") := by
      unfold turn
      split <;> first | contradiction | rfl
    refine accompanies_other hnumber (fun htwo => ?_) (hturn ▸ .pure trivial)
    rcases Int.natAbs_eq number with heq | heq <;> rw [htwo] at heq
    · exact h2 heq
    · exact h2' heq

end

end CheckedStreams

end StoryMachine
