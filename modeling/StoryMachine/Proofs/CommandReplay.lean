import StoryMachine.Proofs.LineBytes
import StoryMachine.Proofs.Reading
import StoryMachine.Proofs.StreamRouting

/-!
# Commands that are recorded and replayed

The record of commands is a file to which each line is written with a line feed behind it, and from
which lines are read up to the next line feed.  How a host keeps such a file is said by
`Host.KeepsLog`: `log` is what has been written, and `ahead` what a reader of it has still to come.

**One line** adds its own bytes to the record (`log_recordInput`), whatever has happened since the
line before it, so the record is that of all lines one after the other (`Recorded.log_eq`).  **One
command** that is replayed takes these bytes from the reader and nothing else
(`on_replayLine_of_line`), so the lines come back in their order and then none (`replays_of_ahead`).
Empty lines count: they are not the end of the record, for they have a line feed.
-/

namespace StoryMachine

variable {W : Type}

/-- That a host keeps the record of commands in a file.  What is written to the file comes behind
what is there, and the record can be read from its beginning, line by line. -/
structure Host.KeepsLog (host : Host (StateM W)) (file : Writer) (log : W → List UInt8)
    (ahead : Reader → W → List UInt8) : Prop where
  writes : host.Writes
  log_write : ∀ bytes w, log (host.write file bytes w).2 = log w ++ bytes
  log_write_other : ∀ other bytes w, other ≠ file → log (host.write other bytes w).2 = log w
  open_log : ∀ w, ∃ reader v,
    host.openForRead .commandLog w = (some reader, v) ∧ ahead reader v = log w
  read_line : ∀ reader w, ∃ v,
    host.readLineBytes reader w = (.ok (splitLine (ahead reader w)).1, v) ∧
      ahead reader v = (splitLine (ahead reader w)).2

/-- A desk with another record that is being replayed, or with none. -/
def Desk.replaying (desk : Desk) (replay : Option Reader) : Desk :=
  { desk with streams := { desk.streams with replay } }

namespace Streams

open StreamWork

variable {host : Host (StateM W)} {file : Writer} {log : W → List UInt8}
  {ahead : Reader → W → List UInt8} {reader : Reader} {desk : Desk} {line : String}
  {lines past : List String} {rest : List UInt8} {w : W}

/-! ## Recording -/

/-- That commands are recorded in a file: the record is on, no table is open, and the transcript is
another file. -/
structure RecordsTo (streams : Streams) (file : Writer) : Prop where
  tables_eq : streams.tables = []
  commandFile_eq : streams.commandFile = some file
  transcriptFile_ne : streams.transcriptFile ≠ some file

/-- **A line is added to the record** as its own bytes, and the streams go on as they are. -/
theorem log_recordInput (h : host.KeepsLog file log ahead) (hdesk : RecordsTo desk.streams file)
    (line : String) (w : W) :
    ∃ v, (recordInput line).on host desk w = ((.ok (), desk), v) ∧
      log v = log w ++ recordBytes line := by
  have hkeep (text : String) (v : W) :
      log (host.written desk.streams.transcriptFile text v) = log v := by
    cases htranscript : desk.streams.transcriptFile with
    | none => rfl
    | some other =>
        apply h.log_write_other
        rintro rfl
        exact hdesk.transcriptFile_ne htranscript
  have hopen : desk.streams.isRedirected = false := by
    rw [isRedirected, hdesk.tables_eq]
    rfl
  refine ⟨_, on_recordInput h.writes line desk w, ?_⟩
  rw [hopen, if_neg Bool.false_ne_true, hdesk.commandFile_eq]
  calc log (host.written (some file) (line ++ "\n") _)
      = log (host.written _ "\n" (host.written _ line w)) ++ recordBytes line := h.log_write _ _
    _ = log w ++ recordBytes line := by rw [hkeep, hkeep]

/-- That lines, and nothing else, have been recorded in a file so far.  Between two lines anything
may happen to the streams and outside, except to the record. -/
inductive Recorded (host : Host (StateM W)) (file : Writer) (log : W → List UInt8) :
    List String → Desk → W → Prop where
  | none {desk : Desk} {w : W} : log w = [] → Recorded host file log [] desk w
  | line {past : List String} {line : String} {desk after : Desk} {w v : W}
      {outcome : Except Fault Unit} : Recorded host file log past desk w →
    RecordsTo desk.streams file → (recordInput line).on host desk w = ((outcome, after), v) →
    Recorded host file log (past ++ [line]) after v
  | meanwhile {past : List String} {desk after : Desk} {w v : W} :
    Recorded host file log past desk w → log v = log w → Recorded host file log past after v

/-- The record is that of all lines, one after the other. -/
theorem Recorded.log_eq (h : host.KeepsLog file log ahead)
    (hrecorded : Recorded host file log lines desk w) : log w = lines.flatMap recordBytes := by
  induction hrecorded with
  | none hempty => exact hempty
  | @line past line desk after w v outcome _ hdesk hrecord ih =>
      obtain ⟨v', hgoes, hlog⟩ := log_recordInput h hdesk line w
      obtain rfl : v' = v := congrArg Prod.snd (hgoes.symm.trans hrecord)
      rw [hlog, ih, List.flatMap_append, List.flatMap_singleton]
  | meanwhile _ hsame ih => rw [hsame, ih]

/-- Any further lines can be recorded. -/
theorem Recorded.forM (h : host.KeepsLog file log ahead) (hdesk : RecordsTo desk.streams file)
    (hpast : Recorded host file log past desk w) (lines : List String) :
    ∃ v, (lines.forM recordInput).on host desk w = ((.ok (), desk), v) ∧
      Recorded host file log (past ++ lines) desk v := by
  induction lines generalizing past w with
  | nil =>
      rw [List.append_nil]
      exact ⟨w, rfl, hpast⟩
  | cons line lines ih =>
      obtain ⟨middle, hline, -⟩ := log_recordInput h hdesk line w
      obtain ⟨v, hlines, hrecorded⟩ := ih (hpast.line hdesk hline)
      rw [List.append_assoc] at hrecorded
      exact ⟨v, (on_bind_of_ok hline).trans hlines, hrecorded⟩

/-! ## Replaying -/

/-- What is replayed is the line that is split off from what is ahead.  If it is none, replaying
stops. -/
theorem on_replayLine (h : host.KeepsLog file log ahead) (hreplay : desk.streams.replay = some reader)
    (w : W) :
    ∃ v, ahead reader v = (splitLine (ahead reader w)).2 ∧
      replayLine.on host desk w = ((.ok (lineOf? (splitLine (ahead reader w)).1),
        if (lineOf? (splitLine (ahead reader w)).1).isNone then desk.replaying none else desk), v) := by
  obtain ⟨v, hread, hahead⟩ := h.read_line reader w
  refine ⟨v, hahead, ?_⟩
  unfold replayLine
  rw [on_bind_of_ok (on_get host desk w), hreplay]
  dsimp only
  rw [on_bind_of_ok (on_ask host desk w _), hread]
  dsimp only
  by_cases hend : (lineOf? (splitLine (ahead reader w)).1).isNone
  · rw [if_pos hend, if_pos hend]
    exact on_bind_of_ok (on_change host desk v _)
  · rw [if_neg hend, if_neg hend]
    rfl

/-- **A recorded line is replayed** and taken from what is ahead. -/
theorem on_replayLine_of_line (h : host.KeepsLog file log ahead)
    (hreplay : desk.streams.replay = some reader) (hline : Recordable line)
    (hahead : ahead reader w = recordBytes line ++ rest) :
    ∃ v, replayLine.on host desk w = ((.ok (some line), desk), v) ∧ ahead reader v = rest := by
  obtain ⟨v, hrest, hread⟩ := on_replayLine h hreplay w
  rw [hahead, splitLine_recordBytes hline] at hrest hread
  rw [lineOf?_recordBytes hline] at hread
  exact ⟨v, hread, hrest⟩

/-- **At the end** there is no line, and replaying stops. -/
theorem on_replayLine_of_end (h : host.KeepsLog file log ahead)
    (hreplay : desk.streams.replay = some reader) (hahead : ahead reader w = []) :
    ∃ v, replayLine.on host desk w = ((.ok none, desk.replaying none), v) := by
  obtain ⟨v, -, hread⟩ := on_replayLine h hreplay w
  rw [hahead] at hread
  exact ⟨v, hread⟩

/-- That lines are replayed in their order, and that then there is none and replaying stops.  Between
two lines anything may happen to the streams and outside, except to what is replayed. -/
def Replays (host : Host (StateM W)) (ahead : Reader → W → List UInt8) (reader : Reader) :
    List String → Desk → W → Prop
  | [], desk, w =>
    ahead reader w = [] ∧ ∃ v, replayLine.on host desk w = ((.ok none, desk.replaying none), v)
  | line :: rest, desk, w =>
    ∃ v, replayLine.on host desk w = ((.ok (some line), desk), v) ∧
      ∀ after v', after.streams.replay = some reader → ahead reader v' = ahead reader v →
        Replays host ahead reader rest after v'

/-- Recorded lines that are ahead are replayed. -/
theorem replays_of_ahead (h : host.KeepsLog file log ahead)
    (hreplay : desk.streams.replay = some reader) (hlines : ∀ line ∈ lines, Recordable line)
    (hahead : ahead reader w = lines.flatMap recordBytes) :
    Replays host ahead reader lines desk w := by
  induction lines generalizing desk w with
  | nil => exact ⟨hahead, on_replayLine_of_end h hreplay hahead⟩
  | cons line rest ih =>
      rw [List.flatMap_cons] at hahead
      obtain ⟨v, hread, hrest⟩ :=
        on_replayLine_of_line h hreplay (hlines line List.mem_cons_self) hahead
      refine ⟨v, hread, ?_⟩
      intro after v' hstill hsame
      apply ih hstill
      · intro later hlater
        exact hlines later (List.mem_cons_of_mem line hlater)
      · exact hsame.trans hrest

/-- Selecting the record as input replays it from its beginning. -/
theorem on_selectInput (h : host.KeepsLog file log ahead) (desk : Desk) (w : W) :
    ∃ reader v, (selectInput 1).on host desk w = ((.ok none, desk.replaying (some reader)), v) ∧
      ahead reader v = log w := by
  obtain ⟨reader, v, hopen, hahead⟩ := h.open_log w
  refine ⟨reader, v, ?_, hahead⟩
  unfold selectInput
  rw [if_neg (by decide), if_pos rfl, on_bind_of_ok (on_ask host desk w _), hopen]
  exact on_bind_of_ok (on_change host desk v _)

end Streams

/-! ## Reads -/

namespace Play

open Machine

variable {host : Host (StateM W)} {file : Writer} {log : W → List UInt8}
  {ahead : Reader → W → List UInt8} {reader : Reader} {machine : Machine} {read : LineRead}
  {asked : LineRequest} {w v : W}

/-- **The read that finds the end** of the record asks the host, as all reads do from then on. -/
theorem play_lineRead_of_end (h : host.KeepsLog file log ahead)
    (hreplay : machine.streams.replay = some reader)
    (hprepare : machine.play host (prepare read) w = ((.ok asked, machine), v))
    (hahead : ahead reader v = []) :
    ∃ v', machine.play host (lineRead read) w
      = { machine with streams := { machine.streams with replay := none } }.play host
          (request asked >>= settle read) v' := by
  obtain ⟨v', hline⟩ := @Streams.on_replayLine_of_end W host file log ahead reader
    { memory := machine.memory, streams := machine.streams } v h hreplay hahead
  refine ⟨v', ?_⟩
  have hstreams : machine.play host (onStreams Streams.replayLine) v
      = ((.ok none, { machine with streams := { machine.streams with replay := none } }), v') := by
    rw [play_onStreams, hline]
    rfl
  rw [lineRead_eq, play_bind_of_ok hprepare, play_bind_of_ok hstreams]
  rfl

end Play

namespace Streams

variable {host : Host (StateM W)} {file : Writer} {log : W → List UInt8}
  {ahead : Reader → W → List UInt8} {desk : Desk} {lines : List String} {w : W}

/-- **Recorded commands are replayed as they were typed.**  The record of commands has been written
to a file of its own, from nothing, and none of its lines has a line feed or ends in a carriage
return.  Then selecting it as input goes well, and it gives just these lines in their order, then
none.  The read that finds no line any more asks the host, and so do all reads that follow until
commands are replayed again. -/
theorem commands_replayed (h : host.KeepsLog file log ahead)
    (hrecorded : Recorded host file log lines desk w) (hlines : ∀ line ∈ lines, Recordable line) :
    log w = lines.flatMap recordBytes ∧
    (∃ reader v, (selectInput 1).on host desk w = ((.ok none, desk.replaying (some reader)), v) ∧
      Replays host ahead reader lines (desk.replaying (some reader)) v) ∧
    (∀ (reader : Reader) (machine : Machine) (read : LineRead) (asked : LineRequest) (u v : W),
      machine.streams.replay = some reader →
      machine.play host (Play.prepare read) u = ((.ok asked, machine), v) → ahead reader v = [] →
      ∃ v', machine.play host (Play.lineRead read) u
        = { machine with streams := { machine.streams with replay := none } }.play host
            (Play.request asked >>= Play.settle read) v') ∧
    ∀ (machine : Machine) (read : LineRead) (v : W), machine.streams.replay = none →
      machine.play host (Play.lineRead read) v
        = machine.play host (Play.inquire (.line read) >>= Play.settle read) v := by
  have hlog := hrecorded.log_eq h
  refine ⟨hlog, ?_, ?_, ?_⟩
  · obtain ⟨reader, v, hselect, hahead⟩ := on_selectInput h desk w
    exact ⟨reader, v, hselect, replays_of_ahead h rfl hlines (hahead.trans hlog)⟩
  · intro reader machine read asked u v hreplay hprepare hahead
    exact Play.play_lineRead_of_end h hreplay hprepare hahead
  · intro machine read v hreplay
    exact Play.play_lineRead hreplay read v

/-- A host whose world is a record of commands, and what is ahead of its reader. -/
def diary : Host (StateM (List UInt8 × List UInt8)) :=
  { Host.plain (fun _ => pure ()) (fun _ _ _ _ => pure (.done "" 13)) (fun _ => pure (.key 13)) with
    openForRead := fun _ => do
      modify fun (log, _) => (log, log)
      return some ⟨0⟩
    readLineBytes := fun _ => do
      let (log, rest) ← get
      set (log, (splitLine rest).2)
      return .ok (splitLine rest).1
    openForWrite := fun purpose => pure (some (if purpose = .commandLog then ⟨0⟩ else ⟨1⟩))
    write := fun file bytes => do
      if file = ⟨0⟩ then modify fun (log, rest) => (log ++ bytes, rest)
      return .ok () }

/-- The host keeps its record: what is written comes behind what is there, and the reader begins
at its beginning. -/
theorem keepsLog_diary : diary.KeepsLog ⟨0⟩ Prod.fst (fun _ => Prod.snd) where
  writes := by
    intro file bytes w
    by_cases hfile : file = ⟨0⟩
    · rw [hfile]
      rfl
    · simp only [diary, if_neg hfile]
      rfl
  log_write bytes w := rfl
  log_write_other := by
    intro other bytes w hother
    simp only [diary, if_neg hother]
    rfl
  open_log w := ⟨⟨0⟩, (w.1, w.1), rfl, rfl⟩
  read_line reader w := ⟨(w.1, (splitLine w.2).2), rfl, rfl⟩

/-- A command, an empty line and a command that is not in English. -/
def typed : List String :=
  ["look", "", "öffne die Tür"]

/-- A desk where commands are recorded and a transcript is made. -/
def lectern : Desk where
  memory := StreamCall.page
  streams := { transcript := some ⟨1⟩, transcriptOn := true, commands := some ⟨0⟩, commandsOn := true }

theorem commands_replayed_typed :
    diary.KeepsLog ⟨0⟩ Prod.fst (fun _ => Prod.snd) ∧ (∀ line ∈ typed, Recordable line) ∧
      ∃ w, Recorded diary ⟨0⟩ Prod.fst typed lectern w ∧
        w.1 = Utf8.encode "look\n\nöffne die Tür\n" ∧
        ∃ reader v, (selectInput 1).on diary lectern w
            = ((.ok none, lectern.replaying (some reader)), v) ∧
          Replays diary (fun _ => Prod.snd) reader typed (lectern.replaying (some reader)) v := by
  have hlines : ∀ line ∈ typed, Recordable line := by decide
  have hdesk : RecordsTo lectern.streams ⟨0⟩ := ⟨rfl, rfl, by decide⟩
  have hempty : Recorded diary ⟨0⟩ Prod.fst [] lectern ([], []) := .none rfl
  obtain ⟨w, -, hrecorded⟩ := hempty.forM keepsLog_diary hdesk typed
  obtain ⟨hlog, hreplays, -⟩ := commands_replayed keepsLog_diary hrecorded hlines
  refine ⟨keepsLog_diary, hlines, w, hrecorded, ?_, hreplays⟩
  rw [hlog]
  decide +kernel

end Streams

end StoryMachine
