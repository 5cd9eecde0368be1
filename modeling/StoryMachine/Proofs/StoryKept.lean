import StoryMachine.Proofs.Running

/-!
# Work on memory keeps the story

Memory holds the story it runs, and nothing that an instruction does to memory puts
another story there.  `Keeps` says of a piece of work that some part of its state is
the same afterwards, whether it goes well or not.  It is shown for sequencing, tests
and the single writes, and then for everything that is put together from them: the
object table, tables, buffers, extension fields and the streams into memory.
-/

namespace StoryMachine

variable {σ τ α β : Type}

/-- Work after which a fact holds if it held before, whether it goes well or not. -/
def Preserves (P : σ → Prop) (work : Work σ α) : Prop :=
  ∀ s, P s → P (work.on s).2

namespace Preserves

variable {P : σ → Prop}

/-- Giving a value preserves every fact. -/
theorem pure (a : α) : Preserves P (pure a) := fun _ h => h

/-- Looking at the state preserves every fact. -/
theorem get : Preserves P get := fun _ h => h

/-- Taking over an outcome preserves every fact, also if it is a fault. -/
theorem ofExcept (outcome : Except Fault α) : Preserves P (MonadExcept.ofExcept outcome) := by
  intro s hs
  rw [Work.on_ofExcept]
  exact hs

/-- **Work done in turn preserves what each of its parts does**, wherever it stops. -/
theorem bind {work : Work σ α} {next : α → Work σ β} (h : Preserves P work)
    (hnext : ∀ a, Preserves P (next a)) : Preserves P (work >>= next) := by
  intro s hs
  have hmiddle := h s hs
  rw [Work.on_bind]
  rcases hrun : work.on s with ⟨fault | a, middle⟩ <;> rw [hrun] at hmiddle
  · exact hmiddle
  · exact hnext a middle hmiddle

/-- A choice preserves what both sides do. -/
theorem ite {c : Prop} [Decidable c] {work other : Work σ α} (h : Preserves P work)
    (hother : Preserves P other) : Preserves P (if c then work else other) := by
  split
  · exact h
  · exact hother

end Preserves

/-- Work that leaves a part of its state alone, whether it goes well or not. -/
def Keeps (part : σ → τ) (work : Work σ α) : Prop :=
  ∀ value, Preserves (fun s => part s = value) work

namespace Keeps

variable {part : σ → τ}

/-- A part that has the same value afterwards is kept. -/
theorem of_eq {work : Work σ α} (h : ∀ s, part (work.on s).2 = part s) : Keeps part work :=
  fun _ s hs => (h s).trans hs

/-- A part that is kept has the same value afterwards. -/
theorem eq {work : Work σ α} (h : Keeps part work) (s : σ) : part (work.on s).2 = part s :=
  h (part s) s rfl

/-- Giving a value keeps every part. -/
theorem pure (a : α) : Keeps part (pure a) := fun _ => .pure a

/-- Looking at the state keeps every part. -/
theorem get : Keeps part get := fun _ => .get

/-- Taking over an outcome keeps every part. -/
theorem ofExcept (outcome : Except Fault α) : Keeps part (MonadExcept.ofExcept outcome) :=
  fun _ => .ofExcept outcome

/-- Work done in turn keeps what each of its parts does. -/
theorem bind {work : Work σ α} {next : α → Work σ β} (h : Keeps part work)
    (hnext : ∀ a, Keeps part (next a)) : Keeps part (work >>= next) :=
  fun value => (h value).bind fun a => hnext a value

/-- A choice keeps what both sides do. -/
theorem ite {c : Prop} [Decidable c] {work other : Work σ α} (h : Keeps part work)
    (hother : Keeps part other) : Keeps part (if c then work else other) :=
  fun value => (h value).ite (hother value)

end Keeps

/-- The story decides how large memory is. -/
theorem Memory.size_congr {memory after : Memory} (h : after.story = memory.story) :
    after.size = memory.size := by
  rw [size, size, after.size_eq, memory.size_eq, h]

/-- The story of a memory that is being worked on. -/
def Draft.story (draft : Draft) : Story := draft.memory.story

/-- Work on memory that keeps the story. -/
abbrev Edit.KeepsStory (edit : Edit α) : Prop := Keeps Draft.story edit

namespace Edit

/-- Looking at memory leaves it alone. -/
theorem keeps_view (f : Memory → α) : Keeps Draft.memory (view f) := .of_eq fun _ => rfl

/-- So does reading it in a way that can fail. -/
theorem keeps_look (f : Memory → Except Fault α) : Keeps Draft.memory (look f) :=
  .bind .get fun _ => .ofExcept _

/-- A notice says something about memory and leaves it alone. -/
theorem keeps_note (notice : Notice) : Keeps Draft.memory (note notice) := .of_eq fun _ => rfl

/-- Work that leaves memory alone keeps its story. -/
theorem keepsStory_of_keeps {edit : Edit α} (h : Keeps Draft.memory edit) : edit.KeepsStory :=
  .of_eq fun draft => congrArg Memory.story (h.eq draft)

theorem keepsStory_view (f : Memory → α) : (view f).KeepsStory := keepsStory_of_keeps (keeps_view f)

theorem keepsStory_look (f : Memory → Except Fault α) : (look f).KeepsStory :=
  keepsStory_of_keeps (keeps_look f)

theorem keepsStory_note (notice : Notice) : (note notice).KeepsStory :=
  keepsStory_of_keeps (keeps_note notice)

/-- A notice that is there or not keeps the story. -/
theorem keepsStory_noteIf (notice : Option Notice) : (noteIf notice).KeepsStory := by
  cases notice with
  | none => exact .pure ()
  | some notice => exact keepsStory_note notice

/-- A change of memory keeps the story if it does so of every memory. -/
theorem keepsStory_change {f : Memory → Memory} (h : ∀ memory, (f memory).story = memory.story) :
    (change f).KeepsStory := .of_eq fun draft => h draft.memory

/-- A byte that is written, or cannot be, leaves the story. -/
theorem keepsStory_writeByte (address : Nat) (value : UInt8) :
    (writeByte address value).KeepsStory := by
  refine .of_eq fun draft => ?_
  by_cases h : address < draft.memory.dynamicCeiling
  · rw [on_writeByte_of_lt h]
    rfl
  · rw [on_writeByte_of_le (Nat.not_lt.mp h)]

/-- A word that is written, or cannot be, leaves the story. -/
theorem keepsStory_writeWord (address : Nat) (value : Word) :
    (writeWord address value).KeepsStory := by
  refine .of_eq fun draft => ?_
  by_cases h : address + 1 < draft.memory.dynamicCeiling
  · rw [on_writeWord_of_lt h]
    rfl
  · obtain ⟨place, hfault⟩ := on_writeWord_of_le (Nat.not_lt.mp h) value
    rw [hfault]

/-- Bytes that are written until one cannot be leave the story. -/
theorem keepsStory_writeBytes (address : Nat) (bytes : List UInt8) :
    (writeBytes address bytes).KeepsStory := by
  induction bytes generalizing address with
  | nil => exact .pure ()
  | cons b rest ih => exact .bind (keepsStory_writeByte address b) fun _ => ih (address + 1)

end Edit

namespace ObjectTable

open Edit

variable (table : ObjectTable)

/-- Setting a link keeps the story. -/
theorem keepsStory_setLink (object : Word) (link : Link) (value : Word) :
    (table.setLink object link value).KeepsStory :=
  .bind (keepsStory_look _) fun _ =>
    .ite (keepsStory_writeByte _ _) (keepsStory_writeWord _ _)

/-- Setting or clearing an attribute keeps the story. -/
theorem keepsStory_setAttribute (object number : Word) (on : Bool) :
    (table.setAttribute object number on).KeepsStory :=
  .bind (keepsStory_look _) fun _ => .bind (keepsStory_look _) fun _ => keepsStory_writeByte _ _

/-- Taking an object out of the tree keeps the story, wherever the walk along siblings stops. -/
theorem keepsStory_remove (object : Word) : (table.remove object).KeepsStory := by
  have hend : Edit.KeepsStory (do
      table.setLink object .parent 0
      table.setLink object .sibling 0) :=
    .bind (table.keepsStory_setLink _ _ _) fun _ => table.keepsStory_setLink _ _ _
  refine .bind (keepsStory_look _) fun parent => .ite ?_ (.pure ())
  refine .bind (keepsStory_look _) fun sibling => .bind (keepsStory_look _) fun first => .ite ?_ ?_
  · exact .bind (table.keepsStory_setLink _ _ _) fun _ => hend
  · exact .bind (keepsStory_look _) fun _ => .bind (table.keepsStory_setLink _ _ _) fun _ => hend

/-- Inserting an object keeps the story. -/
theorem keepsStory_insert (object destination : Word) :
    (table.insert object destination).KeepsStory :=
  .bind (table.keepsStory_remove object) fun _ => .bind (keepsStory_look _) fun _ =>
    .bind (table.keepsStory_setLink _ _ _) fun _ =>
      .bind (table.keepsStory_setLink _ _ _) fun _ => table.keepsStory_setLink _ _ _

/-- Setting a property keeps the story. -/
theorem keepsStory_putProperty (object number value : Word) :
    (table.putProperty object number value).KeepsStory := by
  refine .bind (keepsStory_look _) fun found => ?_
  cases found with
  | none => exact .pure false
  | some found =>
      exact .ite (.bind (keepsStory_writeByte _ _) fun _ => .pure true)
        (.bind (keepsStory_writeWord _ _) fun _ => .pure true)

end ObjectTable

namespace Table

open Edit

/-- A copy made byte by byte keeps the story. -/
theorem keepsStory_copyForward (count source destination : Nat) :
    (copyForward count source destination).KeepsStory := by
  induction count generalizing source destination with
  | zero => exact .pure ()
  | succ count ih =>
      exact .bind (keepsStory_look _) fun b =>
        .bind (keepsStory_writeByte destination b) fun _ => ih (source + 1) (destination + 1)

/-- A copy keeps the story, in either direction. -/
theorem keepsStory_copy (first second size : Word) : (copy first second size).KeepsStory :=
  .ite (keepsStory_writeBytes _ _) <|
    .ite (keepsStory_copyForward _ _ _) <|
      .bind (keepsStory_look _) fun _ => keepsStory_writeBytes _ _

/-- Pushing onto a stack in memory keeps the story. -/
theorem keepsStory_pushOnto (stack : Nat) (value : Word) : (pushOnto stack value).KeepsStory :=
  .bind (keepsStory_look _) fun _ => .ite (.pure false) <|
    .bind (keepsStory_writeWord _ _) fun _ => .bind (keepsStory_writeWord _ _) fun _ => .pure true

/-- Pulling from a stack in memory keeps the story. -/
theorem keepsStory_pullFrom (stack : Nat) : (pullFrom stack).KeepsStory :=
  .bind (keepsStory_look _) fun _ => .bind (keepsStory_look _) fun _ =>
    .bind (keepsStory_writeWord _ _) fun _ => .pure _

end Table

namespace TextBuffer

open Edit

/-- The table of terminating keys is only read. -/
theorem keeps_listedKeys (left address : Nat) : Keeps Draft.memory (listedKeys left address) := by
  induction left generalizing address with
  | zero => exact keeps_look _
  | succ left ih =>
      refine .bind (keeps_look _) fun code => .ite (.pure []) <| .ite ?_ <| .ite ?_ ?_
      · exact .bind (ih (address + 1)) fun _ => .pure _
      · exact .bind (ih (address + 1)) fun _ => .pure _
      · exact .bind (keeps_note _) fun _ => ih (address + 1)

/-- Looking for the keys that end a line leaves memory as it is. -/
theorem keeps_terminators : Keeps Draft.memory terminators := by
  refine .bind (keeps_view _) fun _ => .bind (keeps_view _) fun _ => .ite (.pure _) ?_
  exact .bind (keeps_view _) fun _ => .bind (keeps_listedKeys _ _) fun _ => .pure _

theorem keepsStory_terminators : terminators.KeepsStory := keepsStory_of_keeps keeps_terminators

/-- Text put into a buffer keeps the story. -/
theorem keepsStory_writeText (address : Nat) (codes : List Word) :
    (writeText address codes).KeepsStory :=
  .bind (keepsStory_view _) fun _ => .bind (keepsStory_writeBytes _ _) fun _ =>
    .ite (keepsStory_writeByte _ _) (keepsStory_writeByte _ _)

/-- Records put into a parse buffer keep the story. -/
theorem keepsStory_writeRecords (offset : Nat) (skipUnknown : Bool) (address : Nat)
    (lexemes : List Lexeme) : (writeRecords offset skipUnknown address lexemes).KeepsStory := by
  induction lexemes generalizing address with
  | nil => exact .pure ()
  | cons lexeme rest ih =>
      refine .ite ?_ (ih (address + 4))
      exact .bind (keepsStory_writeWord _ _) fun _ => .bind (keepsStory_writeByte _ _) fun _ =>
        .bind (keepsStory_writeByte _ _) fun _ => ih (address + 4)

/-- A parse buffer that is filled keeps the story. -/
theorem keepsStory_writeLexemes (address : Nat) (lexemes : List Lexeme) (offset : Nat)
    (skipUnknown : Bool) : (writeLexemes address lexemes offset skipUnknown).KeepsStory := by
  have hwrite (count : UInt8) (kept : List Lexeme) : Edit.KeepsStory (do
      writeByte (address + 1) count
      writeRecords offset skipUnknown (address + 2) kept) :=
    .bind (keepsStory_writeByte _ _) fun _ => keepsStory_writeRecords _ _ _ _
  refine .bind (keepsStory_look _) fun room => .ite ?_ (hwrite _ _)
  exact .bind (keepsStory_note _) fun _ => hwrite _ _

end TextBuffer

namespace Header

open Edit

/-- A field of the header extension that is written keeps the story. -/
theorem keepsStory_setExtensionWord (field : ExtensionField) (value : Word) :
    (setExtensionWord field value).KeepsStory := by
  refine .bind (keepsStory_view _) fun _ => .bind (keepsStory_noteIf _) fun _ =>
    .bind (keepsStory_view _) fun place => ?_
  cases place with
  | none => exact .pure ()
  | some address =>
      exact .bind (keepsStory_view _) fun _ => .ite (keepsStory_writeWord _ _) (.pure ())

end Header

/-- The story of a memory that a stream is recording to. -/
def Recording.story (recording : Recording) : Story := recording.draft.story

namespace MemoryStream

/-- Work of a memory stream that keeps the story. -/
abbrev KeepsStory (work : Capture α) : Prop := Keeps Recording.story work

/-- A stream keeps the story as its work on memory does. -/
theorem keepsStory_onMemory {edit : Edit α} (h : edit.KeepsStory) : KeepsStory (onMemory edit) :=
  .of_eq fun recording => h.eq recording.draft

/-- Changing a stream does not touch memory. -/
theorem keepsStory_change (f : MemoryStream → MemoryStream) : KeepsStory (change f) :=
  .of_eq fun _ => rfl

/-- A code put into a record keeps the story. -/
theorem keepsStory_writeCode (code : Word) : KeepsStory (writeCode code) :=
  .bind .get fun _ => .bind (keepsStory_onMemory (Edit.keepsStory_writeByte _ _)) fun _ =>
    .bind (keepsStory_change _) fun _ => keepsStory_onMemory (Edit.keepsStory_writeWord _ _)

/-- So do codes put there one after another. -/
theorem keepsStory_writeCodes (codes : List Word) : KeepsStory (writeCodes codes) := by
  induction codes with
  | nil => exact .pure ()
  | cons code rest ih => exact .bind (keepsStory_writeCode code) fun _ => ih

/-- A line sent off keeps the story. -/
theorem keepsStory_emitLine (line : List Word) : KeepsStory (emitLine line) :=
  .bind (keepsStory_writeCodes line) fun _ => .bind (keepsStory_change _) fun _ =>
    .bind .get fun _ => keepsStory_onMemory (Edit.keepsStory_writeWord _ _)

/-- A code of broken text keeps the story, whether it waits or not. -/
theorem keepsStory_takeCode (width : Nat) (code : Word) : KeepsStory (takeCode width code) := by
  refine .ite ?_ ?_
  · exact .bind .get fun _ => .bind (keepsStory_change _) fun _ => keepsStory_emitLine _
  · refine .bind .get fun _ => .ite ?_ (keepsStory_change _)
    exact .bind (keepsStory_change _) fun _ => .bind (keepsStory_emitLine _) fun _ =>
      keepsStory_change _

/-- So do codes of broken text. -/
theorem keepsStory_takeCodes (width : Nat) (codes : List Word) :
    KeepsStory (takeCodes width codes) := by
  induction codes with
  | nil => exact .pure ()
  | cons code rest ih => exact .bind (keepsStory_takeCode width code) fun _ => ih

/-- Printing into memory keeps the story. -/
theorem keepsStory_print (codes : List Word) : KeepsStory (print codes) := by
  refine .bind .get fun recording => ?_
  cases recording.stream.width with
  | none => exact keepsStory_writeCodes codes
  | some width => exact keepsStory_takeCodes width codes

/-- Closing a stream keeps the story. -/
theorem keepsStory_close : KeepsStory close := by
  have hnote (text : String) : KeepsStory (onMemory (Edit.note (.remark text))) :=
    keepsStory_onMemory (Edit.keepsStory_note _)
  have hend (text : String) : KeepsStory (do
      onMemory (Edit.writeWord (← get).stream.record 0)
      onMemory (Edit.note (.remark text))) :=
    .bind .get fun _ => .bind (keepsStory_onMemory (Edit.keepsStory_writeWord _ _)) fun _ =>
      hnote text
  refine .bind .get fun recording => .ite (.ite ?_ (hend _)) (hnote _)
  exact .bind (keepsStory_change _) fun _ => .bind (keepsStory_emitLine _) fun _ => hend _

/-- The work of a stream keeps the story on the memory that it is done on. -/
theorem keepsStory_run {stream : MemoryStream} {work : Capture α} (h : KeepsStory work) :
    (stream.run work).KeepsStory := .of_eq fun draft => h.eq { stream, draft }

end MemoryStream

/-- Work of the streams that keeps the story, whatever the host answers. -/
def StreamWork.KeepsStory {W : Type} (work : StreamWork (StateM W) α) : Prop :=
  ∀ (host : Host (StateM W)) (desk : Desk) (w : W),
    (StateT.run (ExceptT.run (work host)) desk w).1.2.memory.story = desk.memory.story

namespace StreamWork

variable {W : Type}

/-- Giving a value keeps the story. -/
theorem keepsStory_pure (a : α) : KeepsStory (pure a : StreamWork (StateM W) α) := fun _ _ _ => rfl

/-- Stopping with a fault keeps the story. -/
theorem keepsStory_throw (fault : Fault) :
    KeepsStory (throw fault : StreamWork (StateM W) α) := fun _ _ _ => rfl

/-- Looking at the streams keeps the story. -/
theorem keepsStory_get : KeepsStory (get : StreamWork (StateM W) Desk) := fun _ _ _ => rfl

/-- Asking the host keeps the story: memory is not the host's. -/
theorem keepsStory_ask (f : Host (StateM W) → StateM W α) : KeepsStory (ask f) := fun _ _ _ => rfl

/-- Changing the streams does not touch memory. -/
theorem keepsStory_change (f : Streams → Streams) :
    KeepsStory (change f : StreamWork (StateM W) Unit) := fun _ _ _ => rfl

/-- The streams keep the story as their work on memory does. -/
theorem keepsStory_edit {work : Edit α} (h : work.KeepsStory) :
    KeepsStory (edit work : StreamWork (StateM W) α) := 
  fun _ desk _ => h.eq { memory := desk.memory }

/-- Taking over an outcome keeps the story. -/
theorem keepsStory_ofExcept (outcome : Except Fault α) :
    KeepsStory (MonadExcept.ofExcept outcome : StreamWork (StateM W) α) := by
  intro host desk w
  cases outcome <;> rfl

/-- Work with a host that is done in turn keeps the story if each of its parts does. -/
theorem keepsStory_bind {work : StreamWork (StateM W) α} {next : α → StreamWork (StateM W) β}
    (h : work.KeepsStory) (hnext : ∀ a, (next a).KeepsStory) : KeepsStory (work >>= next) := by
  intro host desk w
  have hdesk : (on work host desk w).1.2.memory.story = desk.memory.story := h host desk w
  show (on (work >>= next) host desk w).1.2.memory.story = _
  rw [on_bind]
  rcases hrun : on work host desk w with ⟨⟨fault | a, middle⟩, v⟩ <;> rw [hrun] at hdesk
  · exact hdesk
  · exact (hnext a host middle v).trans hdesk

/-- A choice keeps the story if both sides do. -/
theorem keepsStory_ite {c : Prop} [Decidable c] {work other : StreamWork (StateM W) α}
    (h : work.KeepsStory) (hother : other.KeepsStory) :
    KeepsStory (if c then work else other) := by
  split
  · exact h
  · exact hother

end StreamWork

namespace Streams

open StreamWork

variable {W : Type}

/-- Opening the transcript does not touch memory. -/
theorem keepsStory_openTranscript : (openTranscript : StreamWork (StateM W) Bool).KeepsStory := by
  refine keepsStory_bind keepsStory_get fun desk => keepsStory_ite (keepsStory_pure true) ?_
  refine keepsStory_bind (keepsStory_ask _) fun file => ?_
  cases file with
  | none => exact keepsStory_bind (keepsStory_ask _) fun _ => keepsStory_pure false
  | some file =>
      refine keepsStory_bind (keepsStory_ask _) fun stamp =>
        keepsStory_bind (keepsStory_ask _) fun written => ?_
      cases written with
      | error text => exact keepsStory_bind (keepsStory_ask _) fun _ => keepsStory_pure false
      | ok _ => exact keepsStory_bind (keepsStory_change _) fun _ => keepsStory_pure true

/-- Writing to the transcript does not touch memory. -/
theorem keepsStory_writeTranscript (text : String) :
    (writeTranscript text : StreamWork (StateM W) Unit).KeepsStory := by
  refine keepsStory_bind keepsStory_get fun desk => ?_
  dsimp only
  cases desk.streams.transcript with
  | none => exact keepsStory_pure ()
  | some file =>
      refine keepsStory_ite (keepsStory_bind (keepsStory_ask _) fun written => ?_)
        (keepsStory_pure ())
      cases written with
      | error text => exact keepsStory_bind (keepsStory_ask _) fun _ => keepsStory_change _
      | ok _ => exact keepsStory_pure ()

/-- Opening a stream into memory writes a length there and keeps the story. -/
theorem keepsStory_openTable (table : Option Word) (width : Option Int) :
    (openTable table width : StreamWork (StateM W) Unit).KeepsStory := by
  refine keepsStory_bind keepsStory_get fun desk => ?_
  cases table with
  | none =>
      exact keepsStory_ite (keepsStory_bind (keepsStory_throw _) fun _ => keepsStory_throw _)
        (keepsStory_throw _)
  | some table =>
      have hopen (streams : Streams → Streams) : KeepsStory (W := W) (do
          edit (Edit.writeWord table.toNat 0)
          change streams) :=
        keepsStory_bind (keepsStory_edit (Edit.keepsStory_writeWord _ _)) fun _ =>
          keepsStory_change streams
      exact keepsStory_ite (keepsStory_bind (keepsStory_throw _) fun _ => hopen _) (hopen _)

/-- Closing the innermost stream keeps the story. -/
theorem keepsStory_closeTable : (closeTable : StreamWork (StateM W) Bool).KeepsStory := by
  refine keepsStory_bind keepsStory_get fun desk => ?_
  cases desk.streams.tables with
  | nil => exact keepsStory_pure false
  | cons stream outer =>
      refine keepsStory_bind (keepsStory_change _) fun _ => keepsStory_bind
        (keepsStory_edit (MemoryStream.keepsStory_run MemoryStream.keepsStory_close)) fun _ => ?_
      exact keepsStory_bind (keepsStory_ofExcept _) fun _ => keepsStory_pure true

/-- Opening the record of commands does not touch memory. -/
theorem keepsStory_openCommands : (openCommands : StreamWork (StateM W) Unit).KeepsStory := by
  have hend : KeepsStory (W := W) (do
      change fun streams => { streams with commandsOn := streams.commands.isSome }
      if !(← get).streams.commandsOn then
        note (.warning "command record could not be opened")) :=
    keepsStory_bind (keepsStory_change _) fun _ => keepsStory_bind keepsStory_get fun _ =>
      keepsStory_ite (keepsStory_ask _) (keepsStory_pure ())
  refine keepsStory_bind keepsStory_get fun desk => keepsStory_ite ?_ hend
  exact keepsStory_bind (keepsStory_ask _) fun _ => keepsStory_bind (keepsStory_change _) fun _ => hend

/-- The flag shown in the header is in dynamic memory. -/
theorem keepsStory_showTranscriptFlag :
    (showTranscriptFlag : StreamWork (StateM W) Unit).KeepsStory :=
  keepsStory_bind keepsStory_get fun _ =>
    keepsStory_edit (Edit.keepsStory_change fun _ => rfl)

/-- Selecting an output stream keeps the story, whichever it is. -/
theorem keepsStory_select (number : Int) (table : Option Word) (width : Option Int) :
    (select number table width : StreamWork (StateM W) (Option String)).KeepsStory := by
  unfold select
  split
  · exact keepsStory_pure none
  · exact keepsStory_bind (keepsStory_change _) fun _ => keepsStory_pure none
  · exact keepsStory_bind (keepsStory_change _) fun _ => keepsStory_pure none
  · exact keepsStory_bind keepsStory_openTranscript fun _ => keepsStory_bind (keepsStory_change _)
      fun _ => keepsStory_bind keepsStory_showTranscriptFlag fun _ => keepsStory_pure none
  · exact keepsStory_bind (keepsStory_change _) fun _ =>
      keepsStory_bind keepsStory_showTranscriptFlag fun _ => keepsStory_pure none
  · exact keepsStory_bind (keepsStory_openTable _ _) fun _ => keepsStory_pure none
  · exact keepsStory_bind keepsStory_closeTable fun _ =>
      keepsStory_ite (keepsStory_pure _) (keepsStory_pure none)
  · exact keepsStory_bind keepsStory_openCommands fun _ => keepsStory_pure none
  · exact keepsStory_bind (keepsStory_change _) fun _ => keepsStory_pure none
  · exact keepsStory_bind (keepsStory_throw _) fun _ => keepsStory_pure none
  · exact keepsStory_pure _

/-- Printing keeps the story, on the screen or into memory. -/
theorem keepsStory_print (unicode : UnicodeTable) (codes : List Word) :
    (print unicode codes : StreamWork (StateM W) Unit).KeepsStory := by
  refine keepsStory_bind keepsStory_get fun desk => ?_
  cases desk.streams.tables with
  | nil =>
      refine keepsStory_bind keepsStory_get fun _ =>
        keepsStory_ite ?_ (keepsStory_writeTranscript _)
      exact keepsStory_bind (keepsStory_ask _) fun _ => keepsStory_writeTranscript _
  | cons stream outer =>
      refine keepsStory_bind (keepsStory_edit
        (MemoryStream.keepsStory_run (MemoryStream.keepsStory_print codes))) fun _ => ?_
      exact keepsStory_bind (keepsStory_change _) fun _ => keepsStory_ofExcept _

/-- Recording a typed line does not touch memory. -/
theorem keepsStory_recordInput (text : String) :
    (recordInput text : StreamWork (StateM W) Unit).KeepsStory := by
  refine keepsStory_bind keepsStory_get fun desk => keepsStory_ite (keepsStory_pure ()) ?_
  refine keepsStory_bind (keepsStory_writeTranscript _) fun _ =>
    keepsStory_bind (keepsStory_writeTranscript _) fun _ => keepsStory_bind keepsStory_get fun desk => ?_
  dsimp only
  cases desk.streams.commands with
  | none => exact keepsStory_pure ()
  | some file =>
      refine keepsStory_ite (keepsStory_bind (keepsStory_ask _) fun written => ?_)
        (keepsStory_pure ())
      cases written with
      | error text => exact keepsStory_bind (keepsStory_ask _) fun _ => keepsStory_change _
      | ok _ => exact keepsStory_pure ()

/-- Selecting an input stream does not touch memory. -/
theorem keepsStory_selectInput (number : Word) :
    (selectInput number : StreamWork (StateM W) (Option String)).KeepsStory := by
  refine keepsStory_ite (keepsStory_bind (keepsStory_change _) fun _ => keepsStory_pure none) ?_
  refine keepsStory_ite (keepsStory_bind (keepsStory_ask _) fun file => ?_) (keepsStory_pure _)
  cases file with
  | none => exact keepsStory_bind (keepsStory_ask _) fun _ => keepsStory_pure none
  | some file => exact keepsStory_bind (keepsStory_change _) fun _ => keepsStory_pure none

/-- Replaying a command does not touch memory. -/
theorem keepsStory_replayLine :
    (replayLine : StreamWork (StateM W) (Option String)).KeepsStory := by
  refine keepsStory_bind keepsStory_get fun desk => ?_
  cases desk.streams.replay with
  | none => exact keepsStory_pure none
  | some file =>
      refine keepsStory_bind (keepsStory_ask _) fun read => ?_
      exact keepsStory_ite (keepsStory_bind (keepsStory_change _) fun _ => keepsStory_pure _)
        (keepsStory_pure _)

end Streams

end StoryMachine
