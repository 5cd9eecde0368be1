import StoryMachine.Proofs.TableCapture

/-!
# Laws of the streams

What each piece of work of the streams does with a host that writes whatever it is given
(`Host.Writes`): the outcome, the desk afterwards and the world.  `Host.shown` and
`Host.written` are the two ways in which text reaches the world.  With the laws of the
single steps, `on_get` to `on_edit`, later proofs need not look into the streams.

Printing has two laws, one for text that goes into a table (`on_print_of_cons`) and one
for text that does not (`on_print_of_nil`).  The host may refuse to open a file, so the
law of opening the transcript says what is open afterwards (`on_openTranscript`).
-/

namespace StoryMachine

variable {W α β : Type}

namespace StreamWork

variable (host : Host (StateM W)) (desk : Desk) (w : W)

theorem on_get : on (get : StreamWork (StateM W) Desk) host desk w = ((.ok desk, desk), w) := rfl

theorem on_ask (f : Host (StateM W) → StateM W α) :
    on (ask f) host desk w = ((.ok (f host w).1, desk), (f host w).2) := rfl

theorem on_change (f : Streams → Streams) :
    on (change f : StreamWork (StateM W) Unit) host desk w
      = ((.ok (), { desk with streams := f desk.streams }), w) := rfl

/-- Work on memory leaves its notices with the host. -/
theorem on_edit (work : Edit α) :
    on (edit work : StreamWork (StateM W) α) host desk w
      = (((work.run desk.memory).1, { desk with memory := (work.run desk.memory).2.memory }),
        (((work.run desk.memory).2.notices.forM host.note : StateM W PUnit) w).2) := rfl

variable {desk}

/-- Work on memory that goes well tells the host its notices. -/
theorem on_edit_of_ok {work : Edit α} {a : α} {draft : Draft}
    (h : Work.on work { memory := desk.memory } = (.ok a, draft)) :
    on (edit work : StreamWork (StateM W) α) host desk w
      = ((.ok a, { desk with memory := draft.memory }),
        ((draft.notices.forM host.note : StateM W PUnit) w).2) := by
  rw [on_edit, Edit.run_eq_on, h]

/-- Work without notices is not seen by the host. -/
theorem on_edit_of_silent {work : Edit α} {a : α} {memory : Memory}
    (h : Work.on work { memory := desk.memory } = (.ok a, { memory })) :
    on (edit work : StreamWork (StateM W) α) host desk w = ((.ok a, { desk with memory }), w) :=
  on_edit_of_ok host w h

end StreamWork

/-- That the host writes whatever it is given to write. -/
def Host.Writes (host : Host (StateM W)) : Prop :=
  ∀ file bytes w, (host.write file bytes w).1 = .ok ()

namespace Host

variable (host : Host (StateM W))

/-- The world after text has been shown on the screen, if that is on. -/
def shown (on : Bool) (text : String) (w : W) : W :=
  if on then (host.print text w).2 else w

/-- The world after text has been written to a file, if there is one. -/
def written (file : Option Writer) (text : String) (w : W) : W :=
  match file with
  | some file => (host.write file (Utf8.encode text) w).2
  | none => w

end Host

namespace Streams

open StreamWork

/-- The file of the transcript, if it is on. -/
def transcriptFile (streams : Streams) : Option Writer :=
  if streams.transcriptOn then streams.transcript else none

/-- The file of the record of commands, if it is on. -/
def commandFile (streams : Streams) : Option Writer :=
  if streams.commandsOn then streams.commands else none

variable {host : Host (StateM W)}

/-- What is written to the transcript goes to its file, if it is on. -/
theorem on_writeTranscript (hwrites : host.Writes) (text : String) (desk : Desk) (w : W) :
    (writeTranscript text).on host desk w
      = ((.ok (), desk), host.written desk.streams.transcriptFile text w) := by
  unfold writeTranscript transcriptFile
  rw [on_bind_of_ok (on_get host desk w)]
  dsimp only
  cases desk.streams.transcript with
  | none =>
      cases desk.streams.transcriptOn <;> rfl
  | some file =>
      cases desk.streams.transcriptOn with
      | false => rfl
      | true =>
          have hwrite := hwrites file (Utf8.encode text) w
          simp only [if_true]
          rw [on_bind_of_ok (on_ask host desk w _), hwrite]
          rfl

/-- Text goes to the screen and to the transcript if no table is open. -/
theorem on_print_of_nil (hwrites : host.Writes) (unicode : UnicodeTable) (codes : List Word)
    {desk : Desk} (hclosed : desk.streams.tables = []) (w : W) :
    (print unicode codes).on host desk w = ((.ok (), desk),
      host.written desk.streams.transcriptFile (unicode.decode codes)
        (host.shown desk.streams.screen (unicode.decode codes) w)) := by
  unfold print Host.shown
  rw [on_bind_of_ok (on_get host desk w), hclosed]
  dsimp only
  rw [on_bind_of_ok (on_get host desk w)]
  cases desk.streams.screen with
  | true =>
      simp only [if_true]
      rw [on_bind_of_ok (on_ask host desk w _), on_writeTranscript hwrites]
  | false =>
      simp only [Bool.false_eq_true, if_false]
      exact on_writeTranscript hwrites _ desk w

/-- Text goes to the innermost table if there is one, and nowhere else. -/
theorem on_print_of_cons (unicode : UnicodeTable) (codes : List Word) {desk : Desk}
    {stream after : MemoryStream} {outer : List MemoryStream} {memory : Memory}
    (hopen : desk.streams.tables = stream :: outer)
    (hprint : Work.on (stream.run (MemoryStream.print codes)) { memory := desk.memory }
      = (.ok (.ok (), after), { memory })) (w : W) :
    (print unicode codes).on host desk w
      = ((.ok (), { memory, streams := { desk.streams with tables := after :: outer } }), w) := by
  unfold print
  rw [on_bind_of_ok (on_get host desk w), hopen]
  dsimp only
  rw [on_bind_of_ok (on_edit_of_silent host w hprint)]
  rfl

/-- A table is opened in front of the others, if there is room for one more. -/
theorem on_openTable_of_room {table : Word} (width : Option Int) {desk : Desk}
    (hroom : desk.streams.tables.length < maxTables)
    (hword : table.toNat + 1 < desk.memory.dynamicCeiling) (w : W) :
    (openTable (some table) width).on host desk w = ((.ok (), {
      memory := desk.memory.setWord table.toNat 0 hword
      streams := { desk.streams with
        tables :=
          { table := table.toNat
            width := (width.map Int.natAbs).filter (0 < ·)
            record := table.toNat } :: desk.streams.tables } }), w) := by
  unfold openTable
  rw [on_bind_of_ok (on_get host desk w), if_neg (Nat.not_le.mpr hroom)]
  dsimp only
  have hwrite : Work.on (Edit.writeWord table.toNat 0) { memory := desk.memory }
      = (.ok (), { memory := desk.memory.setWord table.toNat 0 hword }) :=
    @Edit.on_writeWord_of_lt { memory := desk.memory } table.toNat hword 0
  rw [on_bind_of_ok (on_edit_of_silent host w hwrite)]
  exact on_change host _ w _

/-- Without a width, it is a table for codes one after the other. -/
theorem on_openTable {table : Word} {width : Option Int} {desk : Desk}
    (hroom : desk.streams.tables.length < maxTables)
    (hwidth : (width.map Int.natAbs).getD 0 = 0)
    (hword : table.toNat + 1 < desk.memory.dynamicCeiling) (w : W) :
    (openTable (some table) width).on host desk w = ((.ok (), {
      memory := desk.memory.setWord table.toNat 0 hword
      streams := { desk.streams with
        tables := ({ address := table.toNat } : OpenTable).stream :: desk.streams.tables } }), w) := by
  have hnone : (width.map Int.natAbs).filter (0 < ·) = none := by
    cases width with
    | none => rfl
    | some width =>
        have hzero : width.natAbs = 0 := hwidth
        simp [hzero]
  rw [on_openTable_of_room width hroom hword, hnone]
  rfl

/-- The innermost table is closed, if that can be done. -/
theorem on_closeTable_of_ok {desk : Desk} {stream after : MemoryStream} {outer : List MemoryStream}
    {draft : Draft} (hopen : desk.streams.tables = stream :: outer)
    (hclose : Work.on (stream.run MemoryStream.close) { memory := desk.memory }
      = (.ok (.ok (), after), draft)) (w : W) :
    ∃ v, (closeTable).on host desk w = ((.ok true,
      { memory := draft.memory, streams := { desk.streams with tables := outer } }), v) := by
  unfold closeTable
  rw [on_bind_of_ok (on_get host desk w), hopen]
  dsimp only
  rw [on_bind_of_ok (on_change host desk w _),
    on_bind_of_ok (@on_edit_of_ok W _ host { desk with streams := { desk.streams with tables := outer } }
      w _ _ _ hclose)]
  exact ⟨_, rfl⟩

/-- The innermost table is closed as it is, if it is one without a width. -/
theorem on_closeTable {desk : Desk} {table : OpenTable} {outer : List MemoryStream}
    (hopen : desk.streams.tables = table.stream :: outer) (w : W) :
    ∃ v, (closeTable).on host desk w
      = ((.ok true, { desk with streams := { desk.streams with tables := outer } }), v) := by
  obtain ⟨notices, hclose⟩ := MemoryStream.on_close table { memory := desk.memory }
  exact on_closeTable_of_ok hopen hclose w

/-- Recording a line leaves the streams as they are. -/
theorem on_recordInput (hwrites : host.Writes) (text : String) (desk : Desk) (w : W) :
    (recordInput text).on host desk w = ((.ok (), desk),
      if desk.streams.isRedirected then w
      else host.written desk.streams.commandFile (text ++ "\n")
        (host.written desk.streams.transcriptFile "\n"
          (host.written desk.streams.transcriptFile text w))) := by
  unfold recordInput
  rw [on_bind_of_ok (on_get host desk w)]
  cases hredirected : desk.streams.isRedirected with
  | true =>
      simp only [if_true]
      rfl
  | false =>
      simp only [Bool.false_eq_true, if_false]
      rw [on_bind_of_ok (on_writeTranscript hwrites text desk _),
        on_bind_of_ok (on_writeTranscript hwrites "\n" desk _), on_bind_of_ok (on_get host desk _)]
      unfold commandFile
      generalize host.written _ "\n" _ = v
      cases desk.streams.commands with
      | none => cases desk.streams.commandsOn <;> rfl
      | some file =>
          cases desk.streams.commandsOn with
          | false => rfl
          | true =>
              have hwrite := hwrites file (Utf8.encode (text ++ "\n")) v
              simp only [if_true]
              rw [on_bind_of_ok (on_ask host desk v _), hwrite]
              rfl

/-- The transcript is open afterwards if it was before, or if the host gives a file. -/
theorem on_openTranscript (hwrites : host.Writes) (desk : Desk) (w : W) :
    ∃ v, (openTranscript).on host desk w
      = ((.ok (desk.streams.transcript <|> (host.openForWrite .transcript w).1).isSome,
        { desk with streams := { desk.streams with
            transcript := desk.streams.transcript <|> (host.openForWrite .transcript w).1 } }), v) := by
  unfold openTranscript
  rw [on_bind_of_ok (on_get host desk w)]
  obtain ⟨memory, screen, transcript, transcriptOn, commands, commandsOn, tables, replay⟩ := desk
  cases transcript with
  | some file => exact ⟨w, rfl⟩
  | none =>
      simp only [Option.isSome_none, Bool.false_eq_true, if_false]
      rw [on_bind_of_ok (on_ask host _ w _)]
      rcases (host.openForWrite .transcript w : Option Writer × W) with ⟨_ | file, v⟩
      · exact ⟨_, rfl⟩
      · dsimp only
        rw [on_bind_of_ok (on_ask host _ v _), on_bind_of_ok (on_ask host _ _ _), hwrites]
        exact ⟨_, rfl⟩

/-- Opening the record of commands concerns nothing else, and cannot fail. -/
theorem on_openCommands (host : Host (StateM W)) (desk : Desk) (w : W) :
    ∃ commands commandsOn v, (openCommands).on host desk w
      = ((.ok (), { desk with streams := { desk.streams with commands, commandsOn } }), v) := by
  obtain ⟨memory, screen, transcript, transcriptOn, commands, commandsOn, tables, replay⟩ := desk
  unfold openCommands
  rw [on_bind_of_ok (on_get host _ w)]
  cases commands with
  | some file => exact ⟨some file, true, w, rfl⟩
  | none =>
      simp only [Option.isNone_none, if_true]
      rw [on_bind_of_ok (on_ask host _ w _)]
      rcases (host.openForWrite .commandLog w : Option Writer × W) with ⟨_ | file, v⟩
      · exact ⟨none, false, _, rfl⟩
      · exact ⟨some file, true, v, rfl⟩

/-- The lowest flag is set as the transcript is on or off. -/
theorem on_showTranscriptFlag (desk : Desk) (w : W) :
    ∃ memory, (showTranscriptFlag).on host desk w = ((.ok (), { desk with memory }), w) ∧
      Memory.SameOff (· = 0x11) desk.memory memory ∧
      memory.byteAt 0x11 &&& 0xfe = desk.memory.byteAt 0x11 &&& 0xfe := by
  let flags := desk.memory.headerWord .flags2
  let value : Word := if desk.streams.transcriptOn then flags ||| 1 else flags &&& 0xfffe
  have hvalue : value.high = flags.high ∧ value.low &&& 0xfe = flags.low &&& 0xfe := by
    by_cases hon : desk.streams.transcriptOn
    · rw [show value = flags ||| 1 from if_pos hon, Word.high_or, Word.low_or]
      refine ⟨UInt8.or_zero, UInt8.toNat.inj ?_⟩
      rw [UInt8.toNat_and, UInt8.toNat_or, Nat.and_or_distrib_right, UInt8.toNat_and]
      exact Nat.or_zero _
    · rw [show value = flags &&& 0xfffe from if_neg hon, Word.high_and, Word.low_and]
      exact ⟨UInt8.and_neg_one, UInt8.and_assoc _ _ _⟩
  refine ⟨desk.memory.setHeaderWord .flags2 value, rfl,
    Memory.sameOff_setHeaderWord_of_high .flags2 hvalue.1, ?_⟩
  have hlow := Memory.byteAt_setHeaderWord_low desk.memory .flags2 value
  rw [show (0x11 : Nat) = HeaderField.flags2.address + 1 from rfl, hlow, hvalue.2]
  exact congrArg (· &&& 0xfe) (Word.low_ofBytes _ _)

end Streams

end StoryMachine
