import Mathlib.Data.List.Infix
import StoryMachine.Proofs.StreamLaws

/-!
# Where printed text goes

A story selects streams, prints and reads lines in any order it likes.  What is on at
some point, and what an open table has to hold by then, follows from the calls made
before and from nothing else: `openTables`, `screenOn` and `transcriptWanted` are read
off them.  The streams of a machine keep other records, a length and a place for every
table, a file and two switches.  `Followed` says that these agree with the calls.

**One call keeps them in agreement** and does no more than it should (`routed_of_call`,
with `Routed`): a print adds to the innermost open table and is not seen elsewhere, or
else it goes to the screen and to the transcript, if they are on.  What holds after all
calls comes from that by induction on how many there have been.

The story has to keep the tables that are open at the same time apart from each other,
and within dynamic memory behind the header (`Fits`).
-/

namespace StoryMachine

variable {W : Type}

/-! ## What the calls say -/

/-- A call of the streams. -/
inductive StreamCall where
  | select (number : Int) (table : Option Word) (width : Option Int)
  | print (codes : List Word)
  | recordInput (text : String)
  deriving DecidableEq

namespace StreamCall

/-- Makes the call.  What a selection warns of is left to the caller. -/
def make {m : Type → Type} [Monad m] (unicode : UnicodeTable) : StreamCall → StreamWork m Unit
  | select number table width => do
    let _ ← Streams.select number table width
  | print codes => Streams.print unicode codes
  | recordInput text => Streams.recordInput text

/-- Makes calls one after the other. -/
def makeAll {m : Type → Type} [Monad m] (unicode : UnicodeTable) :
    List StreamCall → StreamWork m Unit
  | [] => pure ()
  | call :: rest => do
    call.make unicode
    makeAll unicode rest

/-- The open tables after a call, the innermost first. -/
def tablesAfter (tables : List OpenTable) : StreamCall → List OpenTable
  | select 3 (some table) _ => { address := table.toNat } :: tables
  | select (-3) _ _ => tables.tail
  | print codes =>
    match tables with
    | table :: outer => table.push codes :: outer
    | [] => []
  | _ => tables

/-- Whether the screen is on after a call. -/
def screenAfter (on : Bool) : StreamCall → Bool
  | select 1 _ _ => true
  | select (-1) _ _ => false
  | _ => on

/-- Whether a transcript is wanted after a call. -/
def transcriptAfter (wanted : Bool) : StreamCall → Bool
  | select 2 _ _ => true
  | select (-2) _ _ => false
  | _ => wanted

/-- The tables that are open after some calls, the innermost first, each with the codes that have
been printed to it. -/
def openTables (past : List StreamCall) : List OpenTable :=
  past.foldl tablesAfter []

/-- Whether the screen is on after some calls. -/
def screenOn (past : List StreamCall) : Bool :=
  past.foldl screenAfter true

/-- Whether a transcript is wanted after some calls. -/
def transcriptWanted (past : List StreamCall) : Bool :=
  past.foldl transcriptAfter false

/-- Tables that a story may have open at the same time. -/
structure Fits (memory : Memory) (tables : List OpenTable) : Prop where
  few : tables.length ≤ Streams.maxTables
  behind_header : ∀ table ∈ tables, 64 ≤ table.address
  in_dynamic : ∀ table ∈ tables, table.limit ≤ memory.dynamicCeiling
  apart : tables.Pairwise fun table other =>
    table.limit ≤ other.address ∨ other.limit ≤ table.address

/-- A call of a stream that there is, with a table and without a width where the stream goes into
memory. -/
def Proper : StreamCall → Prop
  | select number table width => -4 ≤ number ∧ number ≤ 4 ∧
      (number = 3 → table.isSome ∧ (width.map Int.natAbs).getD 0 = 0)
  | _ => True

/-- Calls that are proper, and after each of which the open tables fit. -/
structure AllProper (memory : Memory) (calls : List StreamCall) : Prop where
  proper : ∀ call ∈ calls, call.Proper
  fits : ∀ past ∈ calls.inits, Fits memory (openTables past)

instance (memory : Memory) (tables : List OpenTable) : Decidable (Fits memory tables) :=
  decidable_of_iff (_ ∧ _ ∧ _ ∧ _)
    ⟨fun ⟨few, behind, inside, apart⟩ => ⟨few, behind, inside, apart⟩,
      fun h => ⟨h.few, h.behind_header, h.in_dynamic, h.apart⟩⟩

instance (call : StreamCall) : Decidable call.Proper :=
  match call with
  | select _ _ _ => inferInstanceAs (Decidable (_ ∧ _ ∧ _))
  | print _ => .isTrue trivial
  | recordInput _ => .isTrue trivial

instance (memory : Memory) (calls : List StreamCall) : Decidable (AllProper memory calls) :=
  decidable_of_iff (_ ∧ _) ⟨fun ⟨proper, fits⟩ => ⟨proper, fits⟩, fun h => ⟨h.proper, h.fits⟩⟩

/-- The bytes that some calls may have changed: what has been written of the tables that were open
at some time, and the low byte of the second flags. -/
def Written (past : List StreamCall) (address : Nat) : Prop :=
  address = 0x11 ∨ ∃ before ∈ past.inits, ∃ table ∈ openTables before, table.Covers address

/-- What has become of memory and the streams after some calls. -/
structure Followed (memory : Memory) (past : List StreamCall) (desk : Desk) : Prop where
  tables_eq : desk.streams.tables = (openTables past).map OpenTable.stream
  held : ∀ table ∈ openTables past, table.HeldBy desk.memory
  screen_eq : desk.streams.screen = screenOn past
  transcript_eq : desk.streams.transcriptOn
    = (transcriptWanted past && desk.streams.transcript.isSome)
  sameOff : Memory.SameOff (Written past) memory desk.memory
  /-- Of the flags only the lowest has changed. -/
  flags_eq : desk.memory.byteAt 0x11 &&& 0xfe = memory.byteAt 0x11 &&& 0xfe

/-- The file that is written to after some calls, if a transcript is wanted and there is one. -/
def fileAfter (past : List StreamCall) (desk : Desk) : Option Writer :=
  if transcriptWanted past then desk.streams.transcript else none

/-- Where a call goes that is made after some others.  The world says what the host has been told,
memory what the tables have been told. -/
def Goes (host : Host (StateM W)) (unicode : UnicodeTable) (past : List StreamCall)
    (before : Desk) (v : W) (after : Desk) (v' : W) : StreamCall → Prop
  | print codes =>
    match openTables past with
    | table :: _ =>
      v' = v ∧ Memory.SameOff (table.push codes).Covers before.memory after.memory ∧
        (table.push codes).HeldBy after.memory
    | [] =>
      after = before ∧ v' = host.written (fileAfter past before) (unicode.decode codes)
        (host.shown (screenOn past) (unicode.decode codes) v)
  | recordInput text =>
    after = before ∧ v' = match openTables past with
      | _ :: _ => v
      | [] =>
        host.written before.streams.commandFile (text ++ "\n")
          (host.written (fileAfter past before) "\n" (host.written (fileAfter past before) text v))
  | select (-3) _ _ =>
    after.memory = before.memory ∧ ∀ table ∈ (openTables past).head?, table.HeldBy after.memory
  | select _ _ _ => True

/-- The file of the transcript after a call: the host may give one if there is none. -/
def transcriptOpened (host : Host (StateM W)) (before : Desk) (v : W) :
    StreamCall → Option Writer
  | select 2 _ _ => before.streams.transcript <|> (host.openForWrite .transcript v).1
  | _ => before.streams.transcript

/-- That a call can be made after some others, goes where it should, and is followed. -/
def Routed (host : Host (StateM W)) (unicode : UnicodeTable) (memory : Memory)
    (past : List StreamCall) (before : Desk) (v : W) (call : StreamCall) : Prop :=
  ∃ after v', (call.make unicode).on host before v = ((.ok (), after), v') ∧
    Followed memory (past ++ [call]) after ∧
    Goes host unicode past before v after v' call ∧
    after.streams.transcript = transcriptOpened host before v call

variable {host : Host (StateM W)} {unicode : UnicodeTable} {memory : Memory}
  {past : List StreamCall} {call : StreamCall} {desk after : Desk} {w v : W}

/-- A call more opens or closes a table, or prints to it. -/
theorem openTables_append (past : List StreamCall) (call : StreamCall) :
    openTables (past ++ [call]) = tablesAfter (openTables past) call := by
  unfold openTables
  rw [List.foldl_append]
  rfl

/-- A call more turns the screen on or off, or neither. -/
theorem screenOn_append (past : List StreamCall) (call : StreamCall) :
    screenOn (past ++ [call]) = screenAfter (screenOn past) call := by
  unfold screenOn
  rw [List.foldl_append]
  rfl

/-- A call more turns the transcript on or off, or neither. -/
theorem transcriptWanted_append (past : List StreamCall) (call : StreamCall) :
    transcriptWanted (past ++ [call]) = transcriptAfter (transcriptWanted past) call := by
  unfold transcriptWanted
  rw [List.foldl_append]
  rfl

/-- What has been written stays written. -/
theorem Written.append {address : Nat} (h : Written past address) (call : StreamCall) :
    Written (past ++ [call]) address := by
  obtain hflags | ⟨before, hbefore, htable⟩ := h
  · exact .inl hflags
  · have hstart := (List.mem_inits before past).mp hbefore
    exact .inr ⟨before, (List.mem_inits _ _).mpr (hstart.trans (List.prefix_append _ _)), htable⟩

/-- What an open table covers has been written. -/
theorem written_of_covers {table : OpenTable} (h : table ∈ openTables past) {address : Nat}
    (hcovers : table.Covers address) : Written past address :=
  .inr ⟨past, (List.mem_inits _ _).mpr (List.prefix_refl past), table, h, hcovers⟩

/-! ## One call -/

/-- Calls are followed as long as tables, switches and memory agree with them. -/
theorem Followed.next (h : Followed memory past desk)
    (htables : after.streams.tables = (tablesAfter (openTables past) call).map OpenTable.stream)
    (hheld : ∀ table ∈ tablesAfter (openTables past) call, table.HeldBy after.memory)
    (hscreen : after.streams.screen = screenAfter (screenOn past) call)
    (htranscript : after.streams.transcriptOn
      = (transcriptAfter (transcriptWanted past) call && after.streams.transcript.isSome))
    (hsame : Memory.SameOff (Written (past ++ [call])) desk.memory after.memory)
    (hflags : after.memory.byteAt 0x11 &&& 0xfe = desk.memory.byteAt 0x11 &&& 0xfe) :
    Followed memory (past ++ [call]) after where
  tables_eq := htables.trans (by rw [openTables_append])
  held := openTables_append past call ▸ hheld
  screen_eq := hscreen.trans (screenOn_append past call).symm
  transcript_eq := htranscript.trans (by rw [transcriptWanted_append])
  sameOff := (h.sameOff.mono fun _ hwritten => hwritten.append call).trans hsame
  flags_eq := hflags.trans h.flags_eq

/-- A call that leaves memory alone opens no table. -/
theorem Followed.next_of_memory (h : Followed memory past desk) (hmemory : after.memory = desk.memory)
    (htables : after.streams.tables = (tablesAfter (openTables past) call).map OpenTable.stream)
    (hsub : ∀ table ∈ tablesAfter (openTables past) call, table ∈ openTables past)
    (hscreen : after.streams.screen = screenAfter (screenOn past) call)
    (htranscript : after.streams.transcriptOn
      = (transcriptAfter (transcriptWanted past) call && after.streams.transcript.isSome)) :
    Followed memory (past ++ [call]) after := by
  apply h.next htables _ hscreen htranscript
  · rw [hmemory]
    exact .refl _ _
  · rw [hmemory]
  · intro table htable
    rw [hmemory]
    exact h.held table (hsub table htable)

/-- A call that writes a table leaves those outside it as they are. -/
theorem Followed.next_of_table (h : Followed memory past desk)
    (hfits : Fits memory (tablesAfter (openTables past) call)) {table : OpenTable}
    {outer : List OpenTable} (hafter : tablesAfter (openTables past) call = table :: outer)
    (hsub : ∀ other ∈ outer, other ∈ openTables past)
    (hsame : Memory.SameOff table.Covers desk.memory after.memory)
    (hheld : table.HeldBy after.memory)
    (hstreams : after.streams
      = { desk.streams with tables := (tablesAfter (openTables past) call).map OpenTable.stream })
    (hscreen : screenAfter (screenOn past) call = screenOn past)
    (htranscript : transcriptAfter (transcriptWanted past) call = transcriptWanted past) :
    Followed memory (past ++ [call]) after := by
  rw [hafter] at hfits
  have hmem : table ∈ openTables (past ++ [call]) := by
    rw [openTables_append, hafter]
    exact List.mem_cons_self
  apply h.next
  · rw [hstreams]
  · rw [hafter]
    intro other hother
    rcases List.mem_cons.mp hother with rfl | hother
    · exact hheld
    · apply (h.held other (hsub other hother)).of_sameOff hsame
      intro address hcovers htouched
      have hapart := (List.pairwise_cons.mp hfits.apart).1 other hother
      unfold OpenTable.Covers at hcovers htouched
      omega
  · rw [hstreams, hscreen]
    exact h.screen_eq
  · rw [hstreams, htranscript]
    exact h.transcript_eq
  · exact hsame.mono fun address hcovers => written_of_covers hmem hcovers
  · have hbehind := hfits.behind_header table List.mem_cons_self
    rw [hsame.byteAt_eq 0x11]
    intro hcovers
    unfold OpenTable.Covers at hcovers
    omega

/-- Calls leave where dynamic memory ends. -/
theorem Followed.dynamicCeiling_eq (h : Followed memory past desk) :
    desk.memory.dynamicCeiling = memory.dynamicCeiling :=
  h.sameOff.dynamicCeiling_eq

/-- The transcript is the file that the calls have left. -/
theorem Followed.transcriptFile_eq (h : Followed memory past desk) :
    desk.streams.transcriptFile = fileAfter past desk := by
  unfold Streams.transcriptFile fileAfter
  rw [h.transcript_eq]
  cases transcriptWanted past <;> cases desk.streams.transcript <;> rfl

/-- Text goes into memory while a table is open. -/
theorem Followed.isRedirected_eq (h : Followed memory past desk) :
    desk.streams.isRedirected = !(openTables past).isEmpty := by
  rw [Streams.isRedirected, h.tables_eq, List.isEmpty_map]

/-- **A print** goes to the innermost table, or else to the screen and the transcript. -/
theorem routed_print (hwrites : host.Writes) (codes : List Word) (h : Followed memory past desk)
    (hfits : Fits memory (openTables (past ++ [print codes]))) (w : W) :
    Routed host unicode memory past desk w (print codes) := by
  rw [openTables_append] at hfits
  have htables := h.tables_eq
  cases hopen : openTables past with
  | nil =>
      rw [hopen, List.map_nil] at htables
      refine ⟨desk, _, Streams.on_print_of_nil hwrites unicode codes htables w, ?_, ?_, rfl⟩
      · apply h.next_of_memory rfl
        · rw [hopen, htables]
          rfl
        · rw [hopen]
          exact fun table htable => htable
        · exact h.screen_eq
        · exact h.transcript_eq
      · unfold Goes
        rw [hopen, h.transcriptFile_eq, h.screen_eq]
        exact ⟨rfl, rfl⟩
  | cons table outer =>
      rw [hopen, List.map_cons] at htables
      have hheld : table.HeldBy desk.memory := h.held table (hopen ▸ List.mem_cons_self)
      have hpushed : tablesAfter (openTables past) (print codes) = table.push codes :: outer := by
        rw [hopen]
        rfl
      have hlimit : (table.push codes).limit ≤ desk.memory.dynamicCeiling := by
        rw [h.dynamicCeiling_eq]
        exact hfits.in_dynamic _ (hpushed ▸ List.mem_cons_self)
      obtain ⟨written, hprint, hwritten, hsame⟩ :=
        @MemoryStream.on_print { memory := desk.memory } table codes hheld hlimit
      refine ⟨_, w, Streams.on_print_of_cons unicode codes htables hprint w, ?_, ?_, rfl⟩
      · apply h.next_of_table hfits hpushed _ hsame hwritten
        · rw [hpushed]
          rfl
        · rfl
        · rfl
        · intro other hother
          rw [hopen]
          exact List.mem_cons_of_mem _ hother
      · unfold Goes
        rw [hopen]
        exact ⟨rfl, hsame, hwritten⟩

/-- **A line that was read** is recorded unless a table is open. -/
theorem routed_recordInput (hwrites : host.Writes) (text : String) (h : Followed memory past desk)
    (w : W) : Routed host unicode memory past desk w (recordInput text) := by
  refine ⟨desk, _, Streams.on_recordInput hwrites text desk w, ?_, ?_, rfl⟩
  · exact h.next_of_memory rfl h.tables_eq (fun _ htable => htable) h.screen_eq h.transcript_eq
  · unfold Goes
    rw [h.isRedirected_eq, h.transcriptFile_eq]
    cases openTables past with
    | nil => exact ⟨rfl, rfl⟩
    | cons table outer => exact ⟨rfl, rfl⟩

/-- A selection is routed if it selects and its warning, if any, is not minded. -/
theorem routed_select {number : Int} {table : Option Word} {width : Option Int}
    {warning : Option String} {v' : W}
    (hselect : (Streams.select number table width).on host desk w = ((.ok warning, after), v'))
    (hfollowed : Followed memory (past ++ [select number table width]) after)
    (hgoes : Goes host unicode past desk w after v' (select number table width))
    (htranscript : after.streams.transcript
      = transcriptOpened host desk w (select number table width)) :
    Routed host unicode memory past desk w (select number table width) :=
  ⟨after, v', StreamWork.on_bind_of_ok hselect, hfollowed, hgoes, htranscript⟩

/-- **A table is opened** in front of the others. -/
theorem routed_openTable (table : Option Word) (width : Option Int) (h : Followed memory past desk)
    (hproper : (select 3 table width).Proper)
    (hfits : Fits memory (openTables (past ++ [select 3 table width]))) (w : W) :
    Routed host unicode memory past desk w (select 3 table width) := by
  rw [openTables_append] at hfits
  obtain ⟨-, -, hthree⟩ := hproper
  obtain ⟨htable, hwidth⟩ := hthree rfl
  obtain ⟨table, rfl⟩ := Option.isSome_iff_exists.mp htable
  have hopened : tablesAfter (openTables past) (select 3 (some table) width)
      = { address := table.toNat } :: openTables past := rfl
  have hroom : desk.streams.tables.length < Streams.maxTables := by
    have hfew := hfits.few
    rw [hopened, List.length_cons] at hfew
    rw [h.tables_eq, List.length_map]
    exact hfew
  have hword : table.toNat + 1 < desk.memory.dynamicCeiling := by
    rw [h.dynamicCeiling_eq]
    exact hfits.in_dynamic _ (hopened ▸ List.mem_cons_self)
  obtain ⟨hempty, hsame⟩ := OpenTable.heldBy_of_zero hword rfl
  have hopen := @Streams.on_openTable W host table width desk hroom hwidth hword w
  refine routed_select (StreamWork.on_bind_of_ok hopen) ?_ trivial rfl
  apply h.next_of_table hfits hopened (fun _ hother => hother) hsame hempty
  · rw [hopened, List.map_cons, h.tables_eq]
  · rfl
  · rfl

/-- **The innermost table is closed**, with everything that has been printed to it. -/
theorem routed_closeTable (table : Option Word) (width : Option Int)
    (h : Followed memory past desk) (w : W) :
    Routed host unicode memory past desk w (select (-3) table width) := by
  have htables := h.tables_eq
  have hclosed : tablesAfter (openTables past) (select (-3) table width) = (openTables past).tail :=
    rfl
  cases hopen : openTables past with
  | nil =>
      rw [hopen, List.map_nil] at htables
      have hclose : (Streams.select (-3) table width).on host desk w
          = ((.ok (some "closing memory stream when none is open"), desk), w) := by
        have hnone : (Streams.closeTable).on host desk w = ((.ok false, desk), w) := by
          unfold Streams.closeTable
          rw [StreamWork.on_bind_of_ok (StreamWork.on_get host desk w), htables]
          rfl
        exact StreamWork.on_bind_of_ok hnone
      refine routed_select hclose ?_ ?_ rfl
      · apply h.next_of_memory rfl
        · rw [hclosed, hopen, htables]
          rfl
        · rw [hclosed, hopen]
          exact fun other hother => hother
        · exact h.screen_eq
        · exact h.transcript_eq
      · unfold Goes
        rw [hopen]
        exact ⟨rfl, fun other hother => nomatch hother⟩
  | cons inner outer =>
      rw [hopen, List.map_cons] at htables
      obtain ⟨v, hclose⟩ := @Streams.on_closeTable W host desk inner _ htables w
      refine routed_select (StreamWork.on_bind_of_ok hclose) ?_ ?_ rfl
      · refine h.next_of_memory rfl ?_ ?_ ?_ ?_
        · rw [hclosed, hopen]
          rfl
        · rw [hclosed, hopen]
          exact fun other hother => List.mem_cons_of_mem _ hother
        · exact h.screen_eq
        · exact h.transcript_eq
      · unfold Goes
        refine ⟨rfl, fun other hother => h.held other ?_⟩
        exact List.mem_of_mem_head? hother

/-- Turning the transcript on or off shows in the flags, which no table covers. -/
theorem Followed.next_of_transcript (h : Followed memory past desk)
    (hfits : Fits memory (openTables past)) (wanted : Bool) (file : Option Writer) (w : W)
    (htables : tablesAfter (openTables past) call = openTables past)
    (hscreen : screenAfter (screenOn past) call = screenOn past)
    (htranscript : transcriptAfter (transcriptWanted past) call = wanted) :
    ∃ after, (Streams.showTranscriptFlag).on host { desk with streams := { desk.streams with
          transcript := file, transcriptOn := wanted && file.isSome } } w = ((.ok (), after), w) ∧
      Followed memory (past ++ [call]) after ∧ after.streams.transcript = file := by
  obtain ⟨flagged, hshow, hsame, hflags⟩ := @Streams.on_showTranscriptFlag W host
    { desk with streams := { desk.streams with
        transcript := file, transcriptOn := wanted && file.isSome } } w
  refine ⟨_, hshow, ?_, rfl⟩
  refine h.next ?_ ?_ ?_ ?_ (hsame.mono fun _ hflag => .inl hflag) hflags
  · rw [htables]
    exact h.tables_eq
  · rw [htables]
    intro table htable
    apply (h.held table htable).of_sameOff hsame
    rintro address hcovers rfl
    have hbehind := hfits.behind_header table htable
    unfold OpenTable.Covers at hcovers
    omega
  · rw [hscreen]
    exact h.screen_eq
  · rw [htranscript]

/-- **The transcript is turned on**, if it is open or can be opened. -/
theorem routed_transcriptOn (hwrites : host.Writes) (table : Option Word) (width : Option Int)
    (h : Followed memory past desk) (hfits : Fits memory (openTables past)) (w : W) :
    Routed host unicode memory past desk w (select 2 table width) := by
  obtain ⟨v, hopen⟩ := Streams.on_openTranscript hwrites desk w
  obtain ⟨after, hshow, hfollowed, hfile⟩ :=
    @Followed.next_of_transcript W host memory past (select 2 table width) desk h hfits true
      (desk.streams.transcript <|> (host.openForWrite .transcript w).1) v rfl rfl rfl
  have hselect : (Streams.select 2 table width).on host desk w = ((.ok none, after), v) := by
    show (Streams.openTranscript >>= _).on host desk w = _
    rw [StreamWork.on_bind_of_ok hopen, StreamWork.on_bind_of_ok (StreamWork.on_change host _ v _)]
    exact StreamWork.on_bind_of_ok hshow
  exact routed_select hselect hfollowed trivial hfile

/-- **The transcript is turned off**, but not closed. -/
theorem routed_transcriptOff (table : Option Word) (width : Option Int)
    (h : Followed memory past desk) (hfits : Fits memory (openTables past)) (w : W) :
    Routed host unicode memory past desk w (select (-2) table width) := by
  obtain ⟨after, hshow, hfollowed, hfile⟩ :=
    @Followed.next_of_transcript W host memory past (select (-2) table width) desk h hfits false
      desk.streams.transcript w rfl rfl rfl
  have hselect : (Streams.select (-2) table width).on host desk w = ((.ok none, after), w) :=
    (StreamWork.on_bind_of_ok (StreamWork.on_change host desk w _)).trans
      (StreamWork.on_bind_of_ok hshow)
  exact routed_select hselect hfollowed trivial hfile

/-- Selecting a stream that has neither a table nor the transcript changes no more than a switch. -/
theorem routed_switch {number : Int} {table : Option Word} {width : Option Int}
    (h : Followed memory past desk) {screen commandsOn : Bool} {commands : Option Writer} {v' : W}
    (hselect : (Streams.select number table width).on host desk w = ((.ok none, { desk with streams :=
      { desk.streams with screen, commands, commandsOn } }), v'))
    (htables : ∀ tables, tablesAfter tables (select number table width) = tables)
    (hscreen : screen = screenAfter (screenOn past) (select number table width))
    (hwanted : ∀ wanted, transcriptAfter wanted (select number table width) = wanted)
    (hgoes : ∀ after, Goes host unicode past desk w after v' (select number table width))
    (hfile : transcriptOpened host desk w (select number table width) = desk.streams.transcript) :
    Routed host unicode memory past desk w (select number table width) := by
  refine routed_select hselect (h.next_of_memory rfl ?_ ?_ hscreen ?_) (hgoes _) hfile.symm
  · rw [htables]
    exact h.tables_eq
  · rw [htables]
    exact fun _ hother => hother
  · rw [hwanted]
    exact h.transcript_eq

/-- **Every selection** is routed. -/
theorem routed_of_select (hwrites : host.Writes) {number : Int} {table : Option Word}
    {width : Option Int} (h : Followed memory past desk)
    (hproper : (select number table width).Proper) (hfits : Fits memory (openTables past))
    (hfits' : Fits memory (openTables (past ++ [select number table width]))) (w : W) :
    Routed host unicode memory past desk w (select number table width) := by
  obtain ⟨hlow, hhigh, -⟩ := id hproper
  have hcases : number = -4 ∨ number = -3 ∨ number = -2 ∨ number = -1 ∨ number = 0 ∨ number = 1 ∨
      number = 2 ∨ number = 3 ∨ number = 4 := by
    omega
  have hswitch (change : Streams → Streams) :
      StreamWork.on (do StreamWork.change change; return none) host desk w
        = ((.ok (none : Option String), { desk with streams := change desk.streams }), w) := rfl
  rcases hcases with rfl | rfl | rfl | rfl | rfl | rfl | rfl | rfl | rfl
  · exact routed_switch h (hswitch _) (fun _ => rfl) h.screen_eq (fun _ => rfl) (fun _ => trivial) rfl
  · exact routed_closeTable table width h w
  · exact routed_transcriptOff table width h hfits w
  · exact routed_switch h (hswitch _) (fun _ => rfl) rfl (fun _ => rfl) (fun _ => trivial) rfl
  · have hnothing : (Streams.select 0 table width).on host desk w = ((.ok none, desk), w) := rfl
    exact routed_switch h hnothing (fun _ => rfl) h.screen_eq (fun _ => rfl) (fun _ => trivial) rfl
  · exact routed_switch h (hswitch _) (fun _ => rfl) rfl (fun _ => rfl) (fun _ => trivial) rfl
  · exact routed_transcriptOn hwrites table width h hfits w
  · exact routed_openTable table width h hproper hfits' w
  · obtain ⟨commands, commandsOn, v, hopen⟩ := Streams.on_openCommands host desk w
    exact routed_switch h (StreamWork.on_bind_of_ok hopen) (fun _ => rfl) h.screen_eq (fun _ => rfl)
      (fun _ => trivial) rfl

/-- **Every call** is routed. -/
theorem routed_of_call (hwrites : host.Writes) (h : Followed memory past desk)
    (hproper : call.Proper) (hfits : Fits memory (openTables past))
    (hfits' : Fits memory (openTables (past ++ [call]))) (w : W) :
    Routed host unicode memory past desk w call := by
  cases call with
  | select number table width => exact routed_of_select hwrites h hproper hfits hfits' w
  | print codes => exact routed_print hwrites codes h hfits' w
  | recordInput text => exact routed_recordInput hwrites text h w

/-! ## All calls -/

/-- Calls are made one row after the other. -/
theorem on_makeAll_append {middle : Desk} (rest : List StreamCall)
    (hpast : (makeAll unicode past).on host desk w = ((.ok (), middle), v)) :
    (makeAll unicode (past ++ rest)).on host desk w = (makeAll unicode rest).on host middle v := by
  induction past generalizing desk w with
  | nil =>
      cases hpast
      rfl
  | cons call past ih =>
      unfold makeAll at hpast
      rw [StreamWork.on_bind] at hpast
      rcases hcall : ((call.make unicode).on host desk w : (Except Fault Unit × Desk) × W) with
        ⟨⟨fault | ⟨⟩, next⟩, v'⟩ <;> rw [hcall] at hpast
      · exact nomatch hpast
      · exact (StreamWork.on_bind_of_ok hcall).trans (ih hpast)

/-- No calls leave a desk as it was. -/
theorem followed_nil (memory : Memory) : Followed memory [] { memory, streams := {} } where
  tables_eq := rfl
  held := fun _ htable => nomatch htable
  screen_eq := rfl
  transcript_eq := rfl
  sameOff := .refl _ memory
  flags_eq := rfl

/-- The first of proper calls are proper. -/
theorem AllProper.of_append {rest : List StreamCall} (h : AllProper memory (past ++ rest)) :
    AllProper memory past where
  proper := fun call hcall => h.proper call (List.mem_append_left rest hcall)
  fits := by
    intro before hbefore
    have hstart := (List.mem_inits before past).mp hbefore
    exact h.fits before ((List.mem_inits _ _).mpr (hstart.trans (List.prefix_append past rest)))

/-- Open tables fit after proper calls. -/
theorem AllProper.fits_self {calls : List StreamCall} (h : AllProper memory calls) :
    Fits memory (openTables calls) :=
  h.fits calls ((List.mem_inits _ _).mpr (List.prefix_refl calls))

/-- After proper calls the streams of a new machine agree with them. -/
theorem followed_of_allProper (hwrites : host.Writes) (unicode : UnicodeTable) (w : W)
    {calls : List StreamCall} (hproper : AllProper memory calls) :
    ∃ desk v, (makeAll unicode calls).on host { memory, streams := {} } w = ((.ok (), desk), v) ∧
      Followed memory calls desk := by
  induction calls using List.reverseRecOn with
  | nil => exact ⟨_, w, rfl, followed_nil memory⟩
  | append_singleton past call ih =>
      obtain ⟨desk, v, hpast, hfollowed⟩ := ih hproper.of_append
      have hcall : call.Proper := hproper.proper call (List.mem_append_right past List.mem_cons_self)
      obtain ⟨after, v', hmake, hafter, -⟩ := @routed_of_call W host unicode memory past call desk
        hwrites hfollowed hcall hproper.of_append.fits_self hproper.fits_self v
      refine ⟨after, v', ?_, hafter⟩
      rw [on_makeAll_append [call] hpast]
      exact StreamWork.on_bind_of_ok hmake

/-- **The streams route what is printed.**  The streams of a new machine can be selected and
printed to in any order.  At every point what has been done by then decides what is on and what
the open tables hold, and the next call goes where that says. -/
theorem streams_route_calls (hwrites : host.Writes) (unicode : UnicodeTable) (memory : Memory)
    (w : W) {calls : List StreamCall} (hproper : AllProper memory calls) :
    (∃ desk v, (makeAll unicode calls).on host { memory, streams := {} } w = ((.ok (), desk), v) ∧
      Followed memory calls desk) ∧
    ∀ past call rest, calls = past ++ call :: rest → ∃ before v,
      (makeAll unicode past).on host { memory, streams := {} } w = ((.ok (), before), v) ∧
        Followed memory past before ∧ Routed host unicode memory past before v call := by
  refine ⟨followed_of_allProper hwrites unicode w hproper, ?_⟩
  rintro past call rest rfl
  obtain ⟨before, v, hpast, hfollowed⟩ := followed_of_allProper hwrites unicode w hproper.of_append
  have hcall : call.Proper := hproper.proper call (List.mem_append_right past List.mem_cons_self)
  have hnext : AllProper memory (past ++ [call]) := by
    rw [List.append_cons] at hproper
    exact hproper.of_append
  exact ⟨before, v, hpast, hfollowed,
    routed_of_call hwrites hfollowed hcall hproper.of_append.fits_self hnext.fits_self v⟩

/-- A host whose world is what it has printed and what it has written. -/
def scribe : Host (StateM (String × List UInt8)) :=
  { Host.plain (fun text => modify fun (printed, file) => (printed ++ text, file))
      (fun _ _ _ _ => pure (.done "" 13)) (fun _ => pure (.key 13)) with
    openForWrite := fun _ => pure (some ⟨0⟩)
    write := fun _ bytes => do
      modify fun (printed, file) => (printed, file ++ bytes)
      return .ok () }

/-- Dynamic memory with 32 bytes behind the header. -/
def page : Memory :=
  let header : List UInt8 := [5, 0, 0, 0, 0, 0, 0, 0, 0, 0, 0, 0, 0, 0, 0, 96]
  ((Memory.ofImage (header ++ List.replicate 80 0).toArray).toOption).get rfl

/-- A table within a table, the transcript being on. -/
def nested : List StreamCall :=
  [select 2 none none, select 3 (some 64) none, print [97, 300], select 3 (some 80) none,
    print [120, 121], select (-3) none none, print [98]]

/-- The outer table holds its own three codes, one of them as a question mark.  What is printed
when it has been closed is on the screen. -/
theorem streams_route_calls_nested :
    scribe.Writes ∧
      AllProper page (nested ++ [select (-3) none none, print [99]]) ∧
      (∃ before v after v',
        (makeAll .standard nested).on scribe { memory := page, streams := {} } ("", [])
          = ((.ok (), before), v) ∧
        ((select (-3) none none).make .standard).on scribe before v = ((.ok (), after), v') ∧
        (after.memory.wordAt 64).toNat = 3 ∧ after.memory.Holds 66 [97, 63, 98]) ∧
      ∃ before v after v',
        (makeAll .standard (nested ++ [select (-3) none none])).on scribe
          { memory := page, streams := {} } ("", []) = ((.ok (), before), v) ∧
        ((print [99]).make .standard).on scribe before v = ((.ok (), after), v') ∧
        after = before ∧ v'.1 = v.1 ++ "c" := by
  have hwrites : scribe.Writes := fun _ _ _ => rfl
  have hproper : AllProper page (nested ++ [select (-3) none none, print [99]]) := by
    decide +kernel
  obtain ⟨-, hrouted⟩ := streams_route_calls hwrites .standard page ("", []) hproper
  refine ⟨hwrites, hproper, ?_, ?_⟩
  · obtain ⟨before, v, hpast, -, after, v', hclose, -, hgoes, -⟩ :=
      hrouted nested (select (-3) none none) [print [99]] rfl
    have hheld := hgoes.2 ⟨64, [97, 300, 98]⟩ rfl
    exact ⟨before, v, after, v', hpast, hclose, hheld.length_eq, hheld.holds⟩
  · obtain ⟨before, v, hpast, -, after, v', hprint, -, ⟨hafter, hworld⟩, -⟩ :=
      hrouted (nested ++ [select (-3) none none]) (print [99]) [] rfl
    refine ⟨before, v, after, v', hpast, hprint, hafter, ?_⟩
    rw [hworld]
    cases fileAfter (nested ++ [select (-3) none none]) before with
    | none => rfl
    | some file => rfl

end StreamCall

end StoryMachine
