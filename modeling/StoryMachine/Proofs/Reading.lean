import StoryMachine.Proofs.FrameMarks

/-!
# The parts of a read

A read asks the host (`inquire`), which leaves the machine as it is.  When the host
answers, the answer is taken and its code stored (`deliver`); when the time is over, the
routine of the read is entered and the read waits (`pause`).  Before the host is asked for a
line, a command that is being replayed is looked for (`lineRead_eq`).  Going on with a read that
waits is asking again (`play_resumeRead`).

Taking the same answer does the same to all machines that a read cannot tell apart,
whatever their hosts (`sameEnd_deliver`).  Such machines are `Twins`: they may differ in
what they keep of dictionaries, as long as that is faithful, and in all that no read looks
at.  Machines that can be reached keep faithful dictionaries (`faithful_of_reachable`).
-/

namespace StoryMachine

variable {V W α β : Type}

namespace PendingRead

/-- The routine that is run when the time is over. -/
def routine : PendingRead → Word
  | .line read => read.routine
  | .char read => read.routine

/-- The read with other text typed before the time was over. -/
def retyped (typed : String) : PendingRead → PendingRead
  | .line read => .line { read with typed }
  | .char read => .char read

/-- The text typed so far does not choose the routine. -/
@[simp] theorem routine_retyped (typed : String) (pending : PendingRead) :
    (pending.retyped typed).routine = pending.routine := by
  cases pending <;> rfl

/-- Only the text typed last counts. -/
@[simp] theorem retyped_retyped (typed later : String) (pending : PendingRead) :
    (pending.retyped typed).retyped later = pending.retyped later := by
  cases pending <;> rfl

/-- Every read has something typed before, if only nothing. -/
theorem exists_retyped (pending : PendingRead) : ∃ typed, pending = pending.retyped typed := by
  cases pending with
  | line read => exact ⟨read.typed, rfl⟩
  | char read => exact ⟨"", rfl⟩

end PendingRead

/-- What a host is given when it is asked for a line. -/
structure LineRequest where
  initial : String
  room : Nat
  limit : Word
  terminators : List Word

/-! ## Recording a line -/

/-- Work of the streams that cannot fail and leaves memory as it is. -/
def StreamWork.WritesOff (work : StreamWork (StateM W) α) : Prop :=
  ∀ (host : Host (StateM W)) (desk : Desk) (w : W),
    ∃ a streams v, work.on host desk w = ((.ok a, { desk with streams }), v)

namespace StreamWork

/-- Giving a value writes nothing to memory. -/
theorem writesOff_pure (a : α) : WritesOff (pure a : StreamWork (StateM W) α) :=
  fun _ _ _ => ⟨_, _, _, rfl⟩

/-- Looking at the streams writes nothing. -/
theorem writesOff_get : WritesOff (get : StreamWork (StateM W) Desk) :=
  fun _ _ _ => ⟨_, _, _, rfl⟩

/-- Asking the host writes nothing to memory and does not fail. -/
theorem writesOff_ask (f : Host (StateM W) → StateM W α) : WritesOff (ask f) :=
  fun _ _ _ => ⟨_, _, _, rfl⟩

/-- Changing the streams writes nothing to memory. -/
theorem writesOff_change (f : Streams → Streams) :
    WritesOff (change f : StreamWork (StateM W) Unit) := fun _ _ _ => ⟨_, _, _, rfl⟩

/-- Work done in turn writes nothing to memory if its parts do not. -/
theorem WritesOff.bind {work : StreamWork (StateM W) α} {next : α → StreamWork (StateM W) β}
    (h : work.WritesOff) (hnext : ∀ a, (next a).WritesOff) : WritesOff (work >>= next) := by
  intro host desk w
  obtain ⟨a, streams, v, hwork⟩ := h host desk w
  rw [on_bind_of_ok hwork]
  exact hnext a host { desk with streams } v

/-- A choice writes nothing to memory if its sides do not. -/
theorem WritesOff.ite {c : Prop} [Decidable c] {work other : StreamWork (StateM W) α}
    (h : work.WritesOff) (hother : other.WritesOff) : WritesOff (if c then work else other) := by
  split
  · exact h
  · exact hother

end StreamWork

namespace Streams

open StreamWork

/-- Writing to the transcript writes nothing to memory. -/
theorem writesOff_writeTranscript (text : String) :
    (writeTranscript text : StreamWork (StateM W) Unit).WritesOff := by
  refine writesOff_get.bind fun desk => ?_
  dsimp only
  cases desk.streams.transcript with
  | none => exact writesOff_pure ()
  | some file =>
      refine .ite ((writesOff_ask _).bind fun written => ?_) (writesOff_pure ())
      cases written with
      | error text => exact (writesOff_ask _).bind fun _ => writesOff_change _
      | ok _ => exact writesOff_pure ()

/-- Recording a typed line writes nothing to memory. -/
theorem writesOff_recordInput (text : String) :
    (recordInput text : StreamWork (StateM W) Unit).WritesOff := by
  refine writesOff_get.bind fun desk => .ite (writesOff_pure ()) ?_
  refine (writesOff_writeTranscript _).bind fun _ => (writesOff_writeTranscript _).bind fun _ =>
    writesOff_get.bind fun desk => ?_
  dsimp only
  cases desk.streams.commands with
  | none => exact writesOff_pure ()
  | some file =>
      refine .ite ((writesOff_ask _).bind fun written => ?_) (writesOff_pure ())
      cases written with
      | error text => exact (writesOff_ask _).bind fun _ => writesOff_change _
      | ok _ => exact writesOff_pure ()

end Streams

namespace Play

open Machine

/-! ## Asking, waiting and taking the answer -/

/-- Asks the host to answer a read.  A character has no text. -/
def inquire : PendingRead → Play (StateM W) LineInput
  | .line read => do
    showStatus
    let room ← look (TextBuffer.capacity · read.text)
    let initial ← initialText read
    let terminators ← edit TextBuffer.terminators
    ask (·.readLine initial room (timeLimit read.routine read.time) terminators)
  | .char read => do
    match ← ask (·.readChar (timeLimit read.routine read.time)) with
    | .key code => return .done "" code
    | .timedOut => return .timedOut ""

/-- Everything that comes before a host is asked for a line. -/
def prepare (read : LineRead) : Play (StateM W) LineRequest := do
  showStatus
  let room ← look (TextBuffer.capacity · read.text)
  let initial ← initialText read
  let terminators ← edit TextBuffer.terminators
  return { initial, room, limit := timeLimit read.routine read.time, terminators }

/-- Asks the host for a line. -/
def request (asked : LineRequest) : Play (StateM W) LineInput :=
  ask (·.readLine asked.initial asked.room asked.limit asked.terminators)

/-- A line is asked for when all is prepared. -/
theorem inquire_line (read : LineRead) :
    (inquire (.line read) : Play (StateM W) LineInput) = prepare read >>= request := by
  simp only [inquire, prepare, request, bind_assoc, pure_bind]

/-- Enters the routine of a read whose time is over. -/
def pause (typed : String) : PendingRead → Play (StateM W) Unit
  | .line read => do
    note (.remark s!"line read timed out with {Quoted.quote typed}")
    interrupt read.routine (.line { read with typed })
  | .char read => interrupt read.routine (.char read)

/-- Puts the text of an answer where the story asked for it. -/
def takeInput (text : String) : PendingRead → Play (StateM W) Unit
  | .line read => do
    let room ← look (TextBuffer.capacity · read.text)
    let codes := TextBuffer.inputCodes (← get).codec.unicode text room
    onStreams (Streams.recordInput text)
    edit (TextBuffer.writeText read.text codes)
    if read.parse ≠ 0 then
      let dictionary ← view (·.headerWord .dictionary)
      tokenise read.text read.parse dictionary.toNat false
  | .char _ => pure ()

/-- Takes an answer and stores its code. -/
def deliver (pending : PendingRead) (text : String) (code : Word) : Play (StateM W) Unit := do
  takeInput text pending
  if isMouseClick code then recordMouse
  storeTo pending.store code

/-- What had been typed before does not matter to an answer. -/
@[simp] theorem deliver_retyped (typed : String) (pending : PendingRead) (text : String)
    (code : Word) : (deliver (pending.retyped typed) text code : Play (StateM W) Unit)
      = deliver pending text code := by
  cases pending <;> rfl

/-- What follows the question of a line read.  Without a routine, a line whose time is over is
taken as it is. -/
def settle (read : LineRead) : LineInput → Play (StateM W) Unit
  | .done text code => deliver (.line read) text code
  | .timedOut typed =>
    if read.routine = 0 then deliver (.line read) typed 0 else pause typed (.line read)

/-- What a line read does with a command that is replayed, or without one. -/
def proceed (read : LineRead) (asked : LineRequest) : Option String → Play (StateM W) Unit
  | some line => do
    ask (·.print line)
    ask (·.print "\n")
    settle read (.done line 13)
  | none => request asked >>= settle read

/-- What follows the question. -/
def respond (pending : PendingRead) : LineInput → Play (StateM W) Unit
  | .done text code => deliver pending text code
  | .timedOut typed => pause typed pending

/-- Work that keeps memory leaves the machine. -/
theorem reads_edit {work : Edit α} (h : Keeps Draft.memory work) :
    Reads (edit work : Play (StateM W) α) := by
  intro host machine w
  have hmemory : (work.run machine.memory).2.memory = machine.memory :=
    h.eq { memory := machine.memory }
  rw [play_edit]
  show { machine with memory := (work.run machine.memory).2.memory } = machine
  rw [hmemory]

/-- Showing the status leaves the machine. -/
theorem reads_showStatus : Reads (showStatus : Play (StateM W) Unit) :=
  (reads_view _).bind fun _ => .ite (reads_statusLine.bind fun _ => reads_ask _) (reads_pure ())

/-- What stands in the input line before is only read. -/
theorem reads_initialText (pending : LineRead) :
    Reads (initialText pending : Play (StateM W) String) :=
  (reads_view _).bind fun _ => .ite
    (reads_get.bind fun _ => (reads_look _).bind fun _ => reads_pure _) (reads_pure _)

/-- Preparing the question of a read leaves the machine. -/
theorem reads_prepare (read : LineRead) : Reads (prepare read : Play (StateM W) LineRequest) :=
  reads_showStatus.bind fun _ => (reads_look _).bind fun _ => (reads_initialText read).bind fun _ =>
    (reads_edit TextBuffer.keeps_terminators).bind fun _ => reads_pure _

/-- Asking leaves the machine as it is. -/
theorem reads_inquire (pending : PendingRead) :
    Reads (inquire pending : Play (StateM W) LineInput) := by
  cases pending with
  | line read =>
      rw [inquire_line]
      exact (reads_prepare read).bind fun _ => reads_ask _
  | char read =>
      refine (reads_ask _).bind fun input => ?_
      cases input <;> exact reads_pure _

section

variable {host : Host (StateM W)} {machine after : Machine} {w w' : W}

/-- What follows on work that leaves the machine as it is may be changed for something that does
the same to that machine. -/
theorem Reads.play_bind_congr {work : Play (StateM W) α} {next next' : α → Play (StateM W) β}
    (h : Reads work)
    (hnext : ∀ a v, machine.play host (next a) v = machine.play host (next' a) v) (w : W) :
    machine.play host (work >>= next) w = machine.play host (work >>= next') w := by
  refine Machine.play_bind_congr fun a middle v hwork => ?_
  have hsame := h host machine w
  rw [hwork] at hsame
  obtain rfl : middle = machine := hsame
  exact hnext a v

/-- Nothing is replayed unless a record of commands was selected. -/
theorem play_replayLine (h : machine.streams.replay = none) (w : W) :
    machine.play host (onStreams Streams.replayLine) w = ((.ok none, machine), w) := by
  have hline : Streams.replayLine.on host { memory := machine.memory, streams := machine.streams } w
      = ((.ok none, { memory := machine.memory, streams := machine.streams }), w) := by
    unfold Streams.replayLine
    have hget : StreamWork.on get host { memory := machine.memory, streams := machine.streams } w
        = ((.ok { memory := machine.memory, streams := machine.streams },
          { memory := machine.memory, streams := machine.streams }), w) := rfl
    rw [StreamWork.on_bind_of_ok hget]
    dsimp only
    rw [h]
    rfl
  rw [play_onStreams, hline]

/-- Storing a line is taking the answer, whose code is the key that ended it. -/
theorem finishLine_eq (read : LineRead) (text : String) (code : Word) :
    (finishLine read text code : Play (StateM W) Unit) = deliver (.line read) text code := by
  unfold finishLine deliver takeInput
  by_cases hparse : read.parse ≠ 0
  · simp only [if_pos hparse, bind_assoc]
    rfl
  · simp only [if_neg hparse, bind_assoc, pure_bind]
    rfl

/-- A line read looks for a command that is replayed, between preparing its question and asking
it. -/
theorem lineRead_eq (read : LineRead) :
    (lineRead read : Play (StateM W) Unit)
      = prepare read >>= fun asked => onStreams Streams.replayLine >>= proceed read asked := by
  rw [lineRead, prepare]
  simp only [bind_assoc, pure_bind]
  refine bind_congr fun _ => bind_congr fun room => bind_congr fun initial =>
    bind_congr fun terminators => bind_congr fun line? => ?_
  cases line? with
  | some line =>
      rw [proceed, settle, ← finishLine_eq]
  | none =>
      refine bind_congr fun input => ?_
      cases input with
      | done text code => exact finishLine_eq read text code
      | timedOut typed =>
          dsimp only [settle, pause]
          rw [finishLine_eq]

/-- **A line is read from the host** unless commands are being replayed. -/
theorem play_lineRead (hreplay : machine.streams.replay = none) (read : LineRead) (w : W) :
    machine.play host (lineRead read) w = machine.play host (inquire (.line read) >>= settle read) w := by
  rw [lineRead_eq, inquire_line, bind_assoc]
  refine (reads_prepare read).play_bind_congr (fun asked v => ?_) w
  rw [play_bind_of_ok (play_replayLine hreplay v)]
  rfl

/-- **Going on with a read is asking again**, if no commands are being replayed. -/
theorem play_resumeRead {pending : PendingRead} (hroutine : pending.routine ≠ 0)
    (hreplay : machine.streams.replay = none) (w : W) :
    machine.play host (resumeRead 0 pending) w
      = machine.play host (inquire pending >>= respond pending) w := by
  cases pending with
  | line read =>
      have hroutine : read.routine ≠ 0 := hroutine
      have hsettle : (settle read : LineInput → Play (StateM W) Unit) = respond (.line read) := by
        funext input
        cases input with
        | done text code => rfl
        | timedOut typed => exact if_neg hroutine
      rw [resumeRead, if_pos rfl, play_lineRead hreplay, hsettle]
  | char read =>
      have hroutine : read.routine ≠ 0 := hroutine
      rw [resumeRead, if_pos rfl, charRead, inquire, bind_assoc]
      refine (reads_ask _).play_bind_congr (fun input v => ?_) w
      cases input with
      | key code => rfl
      | timedOut =>
          dsimp only [respond, pause]
          rw [if_neg hroutine]
          rfl

end

end Play

/-! ## The same answer, taken twice -/

/-- Machines that a read cannot tell apart. -/
structure Machine.Twins (machine twin : Machine) : Prop where
  memory_eq : twin.memory = machine.memory
  stack_eq : twin.stack = machine.stack
  pc_eq : twin.pc = machine.pc
  globals_eq : twin.globals = machine.globals
  codec_eq : twin.codec = machine.codec
  faithful : machine.Faithful
  twin_faithful : twin.Faithful

namespace Machine

/-- A machine with faithful dictionaries is its own twin. -/
theorem Twins.refl {machine : Machine} (h : machine.Faithful) : Twins machine machine :=
  ⟨rfl, rfl, rfl, rfl, rfl, h, h⟩

/-- The twin of a twin is a twin. -/
theorem Twins.trans {machine twin third : Machine} (h : Twins machine twin)
    (h' : Twins twin third) : Twins machine third :=
  ⟨h'.memory_eq.trans h.memory_eq, h'.stack_eq.trans h.stack_eq, h'.pc_eq.trans h.pc_eq,
    h'.globals_eq.trans h.globals_eq, h'.codec_eq.trans h.codec_eq, h.faithful, h'.twin_faithful⟩

end Machine

namespace Play

open Machine

/-- Two plays that come to the same, and leave twins. -/
structure SameEnd (played : Played W α) (played' : Played V α) : Prop where
  outcome_eq : played'.1.1 = played.1.1
  twins : Twins played.1.2 played'.1.2

/-- Work that comes to the same end on twins, each with its own host. -/
def Parallel (host : Host (StateM W)) (other : Host (StateM V)) (work : Play (StateM W) α)
    (work' : Play (StateM V) α) : Prop :=
  ∀ (machine twin : Machine) (w : W) (v : V), Twins machine twin →
    SameEnd (machine.play host work w) (twin.play other work' v)

section

variable {host : Host (StateM W)} {other : Host (StateM V)}

/-- Giving the same value comes to the same on twins. -/
theorem parallel_pure (a : α) : Parallel host other (pure a) (pure a) :=
  fun _ _ _ _ h => ⟨rfl, h⟩

/-- What comes to the same end goes on from there. -/
theorem SameEnd.bind {machine twin : Machine} {w : W} {v : V} {work : Play (StateM W) α}
    {work' : Play (StateM V) α} {next : α → Play (StateM W) β} {next' : α → Play (StateM V) β}
    (h : SameEnd (machine.play host work w) (twin.play other work' v))
    (hnext : ∀ a after after' w' v', machine.play host work w = ((.ok a, after), w') →
      twin.play other work' v = ((.ok a, after'), v') → Twins after after' →
      SameEnd (after.play host (next a) w') (after'.play other (next' a) v')) :
    SameEnd (machine.play host (work >>= next) w) (twin.play other (work' >>= next') v) := by
  obtain ⟨houtcome, htwins⟩ := h
  rw [play_bind, play_bind]
  rcases hplay : machine.play host work w with ⟨⟨fault | a, after⟩, w'⟩ <;>
    rcases hplay' : twin.play other work' v with ⟨⟨fault' | a', after'⟩, v'⟩ <;>
    rw [hplay, hplay'] at houtcome htwins
  · exact ⟨congrArg Except.error (Except.error.inj houtcome), htwins⟩
  · exact nomatch houtcome
  · exact nomatch houtcome
  · obtain rfl : a' = a := Except.ok.inj houtcome
    exact hnext a' after after' w' v' hplay hplay' htwins

/-- **Work done in turn comes to the same on twins** if each of its parts does. -/
theorem Parallel.bind {work : Play (StateM W) α} {work' : Play (StateM V) α}
    {next : α → Play (StateM W) β} {next' : α → Play (StateM V) β}
    (h : Parallel host other work work') (hnext : ∀ a, Parallel host other (next a) (next' a)) :
    Parallel host other (work >>= next) (work' >>= next') :=
  fun machine twin w v htwins => (h machine twin w v htwins).bind
    fun a after after' w' v' _ _ hafter => hnext a after after' w' v' hafter

/-- A choice comes to the same on twins if both sides do. -/
theorem Parallel.ite {c : Prop} [Decidable c] {work next : Play (StateM W) α}
    {work' next' : Play (StateM V) α} (h : Parallel host other work work')
    (hnext : Parallel host other next next') :
    Parallel host other (if c then work else next) (if c then work' else next') := by
  split
  · exact h
  · exact hnext

/-- Twins have the same memory to look at. -/
theorem parallel_view (f : Memory → α) : Parallel host other (view f) (view f) := by
  intro machine twin w v h
  rw [play_view, play_view, h.memory_eq]
  exact ⟨rfl, h⟩

/-- Twins read memory with the same outcome. -/
theorem parallel_look (f : Memory → Except Fault α) : Parallel host other (look f) (look f) := by
  intro machine twin w v h
  rw [play_look, play_look, h.memory_eq]
  exact ⟨rfl, h⟩

/-- Twins stay twins where the same is written to the memory of both. -/
theorem parallel_edit {work : Edit α} (h : work.KeepsStory) :
    Parallel host other (edit work) (edit work) := by
  intro machine twin w v htwins
  obtain ⟨hmemory, hstack, hpc, hglobals, hcodec, hfaithful, htwin⟩ := htwins
  have hstory : (work.run machine.memory).2.memory.story = machine.memory.story :=
    h.eq { memory := machine.memory }
  rw [play_edit, play_edit, hmemory]
  exact ⟨rfl, rfl, hstack, hpc, hglobals, hcodec, hfaithful.congr rfl hstory rfl,
    htwin.congr rfl (hstory.trans (congrArg Memory.story hmemory.symm)) rfl⟩

/-- Twins work on the same stack. -/
theorem parallel_onStack (work : StackWork α) : Parallel host other (onStack work) (onStack work) := by
  intro machine twin w v htwins
  obtain ⟨hmemory, hstack, hpc, hglobals, hcodec, hfaithful, htwin⟩ := htwins
  rw [play_onStack, play_onStack, hstack]
  exact ⟨rfl, hmemory, rfl, hpc, hglobals, hcodec, hfaithful, htwin⟩

/-- Twins write the same variable. -/
theorem parallel_writeVariable (number : UInt8) (value : Word) :
    Parallel host other (writeVariable number value) (writeVariable number value) := by
  refine .ite (parallel_onStack _) (.ite (parallel_onStack _) fun machine twin w v htwins => ?_)
  have haddress : globalAddress twin number = globalAddress machine number := by
    rw [globalAddress, globalAddress, htwins.globals_eq]
  rw [play_bind_of_ok (play_get machine host w), play_bind_of_ok (play_get twin other v), haddress]
  exact parallel_edit (Edit.keepsStory_writeWord _ _) machine twin w v htwins

/-- Twins deliver the same result. -/
theorem parallel_storeTo (target : Option UInt8) (value : Word) :
    Parallel host other (storeTo target value) (storeTo target value) := by
  cases target with
  | none => exact parallel_pure ()
  | some number => exact parallel_writeVariable number value

/-- Recording a line cannot fail, and leaves memory as it is. -/
theorem play_recordInput (host : Host (StateM W)) (machine : Machine) (w : W) (text : String) :
    ∃ streams w', machine.play host (onStreams (Streams.recordInput text)) w
      = ((.ok (), { machine with streams }), w') := by
  obtain ⟨_, streams, w', hrecord⟩ := Streams.writesOff_recordInput text host
    { memory := machine.memory, streams := machine.streams } w
  rw [play_onStreams, hrecord]
  exact ⟨streams, w', rfl⟩

/-- Twins record a typed line without telling it apart. -/
theorem parallel_recordInput (text : String) :
    Parallel host other (onStreams (Streams.recordInput text))
      (onStreams (Streams.recordInput text)) := by
  intro machine twin w v htwins
  obtain ⟨hmemory, hstack, hpc, hglobals, hcodec, hfaithful, htwin⟩ := htwins
  obtain ⟨streams, w', hplay⟩ := play_recordInput host machine w text
  obtain ⟨streams', v', hplay'⟩ := play_recordInput other twin v text
  rw [hplay, hplay']
  exact ⟨rfl, hmemory, hstack, hpc, hglobals, hcodec, hfaithful, htwin⟩

/-- **Lexemes do not depend on what is kept of dictionaries**, nor does the fault if there are
none. -/
theorem tokenised_of_twins {machine twin : Machine} (h : Twins machine twin)
    (text dictionary : Nat) :
    (∃ found found', tokenised machine text dictionary = .ok found ∧
        tokenised twin text dictionary = .ok found' ∧ found'.lexemes = found.lexemes) ∨
      ∃ fault, tokenised machine text dictionary = .error fault ∧
        tokenised twin text dictionary = .error fault := by
  have hsame : SameFrom machine.memory.dynamicCeiling machine.memory.story.image
      machine.memory.bytes := ⟨machine.memory.size_eq, machine.memory.static_eq⟩
  have hkept : Dictionaries.Faithful machine.codec machine.memory.dynamicCeiling
      machine.memory.story.image twin.dictionaries := by
    have htwin := h.twin_faithful
    unfold Faithful at htwin
    rwa [h.codec_eq, h.memory_eq] at htwin
  unfold tokenised
  rw [h.memory_eq, h.codec_eq]
  cases TextBuffer.readText machine.memory text with
  | error fault => exact .inr ⟨fault, rfl, rfl⟩
  | ok codes =>
      rcases Dictionaries.tokenise_of_faithful h.faithful hsame dictionary codes with
        ⟨found, hfound, hsearch, -⟩ | ⟨fault, hfound, hsearch⟩ <;>
        rcases Dictionaries.tokenise_of_faithful hkept hsame dictionary codes with
          ⟨found', hfound', hsearch', -⟩ | ⟨fault', hfound', hsearch'⟩ <;>
        rw [hsearch] at hsearch'
      · exact .inl ⟨found, found', hfound, hfound', (Except.ok.inj hsearch').symm⟩
      · exact nomatch hsearch'
      · exact nomatch hsearch'
      · obtain rfl : fault = fault' := Except.error.inj hsearch'
        exact .inr ⟨fault, hfound, hfound'⟩

/-- **Twins cut text into the same words**, whatever dictionaries they have kept. -/
theorem parallel_tokenise (text parse dictionary : Nat) (skipUnknown : Bool) :
    Parallel host other (tokenise text parse dictionary skipUnknown)
      (tokenise text parse dictionary skipUnknown) := by
  intro machine twin w v h
  rcases tokenised_of_twins h text dictionary with
    ⟨found, found', hfound, hfound', hlexemes⟩ | ⟨fault, hfault, hfault'⟩
  · obtain ⟨w', hplay⟩ := play_tokenise_of_ok host w parse skipUnknown hfound
    obtain ⟨v', hplay'⟩ := play_tokenise_of_ok other v parse skipUnknown hfound'
    have hkept : Twins { machine with dictionaries := found.dictionaries }
        { twin with dictionaries := found'.dictionaries } :=
      ⟨h.memory_eq, h.stack_eq, h.pc_eq, h.globals_eq, h.codec_eq,
        (move_tokenised hfound).faithful h.faithful,
        (move_tokenised hfound').faithful h.twin_faithful⟩
    have hversion : twin.memory.version = machine.memory.version := by rw [h.memory_eq]
    rw [hplay, hplay', hlexemes, hversion]
    exact parallel_edit (TextBuffer.keepsStory_writeLexemes _ _ _ _) _ _ w' v' hkept
  · rw [play_tokenise_of_error host w parse skipUnknown hfault,
      play_tokenise_of_error other v parse skipUnknown hfault']
    exact ⟨rfl, h⟩

/-- Twins take the same text of an answer. -/
theorem parallel_takeInput (text : String) (pending : PendingRead) :
    Parallel host other (takeInput text pending) (takeInput text pending) := by
  cases pending with
  | char read => exact parallel_pure ()
  | line read =>
      refine (parallel_look _).bind fun room machine twin w v htwins => ?_
      rw [play_bind_of_ok (play_get machine host w), play_bind_of_ok (play_get twin other v),
        htwins.codec_eq]
      refine Parallel.bind (parallel_recordInput text) (fun _ => ?_) machine twin w v htwins
      refine (parallel_edit (TextBuffer.keepsStory_writeText _ _)).bind fun _ => ?_
      exact .ite ((parallel_view _).bind fun dictionary => parallel_tokenise _ _ _ _)
        (parallel_pure ())

/-- Where the host says that the mouse is, when the text of an answer has been stored. -/
def mouseAt (host : Host (StateM W)) (machine : Machine) (pending : PendingRead) (text : String)
    (w : W) : Word × Word :=
  (host.getMouse (machine.play host (takeInput text pending) w).2).1

/-- Recording a click does the same where the mouse is at the same place. -/
theorem sameEnd_recordMouse {machine twin : Machine} {w : W} {v : V} (h : Twins machine twin)
    (hplace : (other.getMouse v).1 = (host.getMouse w).1) :
    SameEnd (machine.play host recordMouse w) (twin.play other recordMouse v) := by
  rw [recordMouse, recordMouse, play_bind_of_ok (play_ask machine host w _),
    play_bind_of_ok (play_ask twin other v _), hplace]
  refine parallel_edit ?_ machine twin _ _ h
  exact .bind (Header.keepsStory_setExtensionWord _ _) fun _ =>
    Header.keepsStory_setExtensionWord _ _

/-- **Taking the same answer does the same to twins**, whatever their hosts.  Where the answer is
a click, the place of the mouse belongs to it. -/
theorem sameEnd_deliver {machine twin : Machine} (h : Twins machine twin) (pending : PendingRead)
    (text : String) {code : Word} (w : W) (v : V)
    (hmouse : isMouseClick code = true →
      mouseAt other twin pending text v = mouseAt host machine pending text w) :
    SameEnd (machine.play host (deliver pending text code) w)
      (twin.play other (deliver pending text code) v) := by
  refine (parallel_takeInput text pending machine twin w v h).bind ?_
  intro _ after after' w' v' hplay hplay' hafter
  have hstore := @parallel_storeTo V W host other pending.store code
  dsimp only
  split
  case isTrue hclick =>
    have hplace := hmouse hclick
    unfold mouseAt at hplace
    rw [hplay, hplay'] at hplace
    exact (sameEnd_recordMouse hafter hplace).bind
      fun _ middle middle' w'' v'' _ _ hmiddle => hstore middle middle' w'' v'' hmiddle
  case isFalse => exact hstore after after' w' v' hafter

end

/-! ## Machines that can be reached -/

section

variable {host : Host (StateM W)} {machine after : Machine} {w w' : W}
  {outcome : Except Fault Unit} {image : Array UInt8} {ruledOut : Fault → Prop}

/-- A restart either comes as far as forgetting the dictionaries, or leaves them and the reason
for halting as they were. -/
theorem dictionaries_of_restart (hplay : machine.play host restart w = ((outcome, after), w')) :
    after.dictionaries = {} ∨
      after.dictionaries = machine.dictionaries ∧ after.halted = machine.halted := by
  unfold restart at hplay
  rw [play_bind_of_ok (play_get machine host w), play_bind_of_ok (play_ask machine host w _),
    play_bind_of_ok (play_modify machine host _ _), play_bind_of_ok (play_get _ host _), play_bind,
    play_edit] at hplay
  dsimp only at hplay
  rcases hrun : (Header.setUp (host.info w).1 machine.options).run machine.memory.reset
    with ⟨fault | _, draft⟩ <;> rw [hrun] at hplay
  · cases hplay
    exact .inr ⟨rfl, rfl⟩
  · dsimp only at hplay
    rw [play_bind_of_ok (play_edit _ host _ _), play_bind_of_ok (play_modify _ host _ _),
      play_bind_of_ok (play_note _ host _ _)] at hplay
    obtain ⟨outcome', pc, stack, hstart, -⟩ := play_start host _ _
    rw [hstart] at hplay
    cases hplay
    exact .inl rfl

/-- Going back forgets the dictionaries, unless it fails before it has begun. -/
theorem dictionaries_of_goesBack {bytes : List UInt8} {fault : Fault}
    (h : GoesBack machine bytes ((.error fault, after), w')) :
    after.dictionaries = {} ∨ after.dictionaries = machine.dictionaries := by
  obtain ⟨hrejected, haccepted⟩ := h
  cases hparse : Snapshot.parse bytes machine.memory with
  | error fault' =>
      obtain ⟨-, rfl⟩ := Prod.mk.inj (hrejected fault' hparse)
      exact .inr rfl
  | ok restored =>
      rcases haccepted restored hparse with ⟨-, _, hok⟩ | ⟨-, _, middle, hfault, -, hinterrupted⟩
      · exact nomatch hok
      · obtain ⟨-, rfl⟩ := Prod.mk.inj hfault
        obtain ⟨memory, -, ⟨_, draft, -, rfl⟩ | ⟨ready, stack, pc, -, rfl⟩⟩ := hinterrupted
        · exact .inr rfl
        · exact .inl rfl

/-- A failed attempt to go back leaves the kept dictionaries, or none. -/
theorem dictionaries_of_recall (how : Recall) {fault : Fault}
    (hplay : machine.play host how.work w = ((.error fault, after), w')) :
    after.dictionaries = {} ∨ after.dictionaries = machine.dictionaries := by
  have hbytes {bytes : List UInt8} {v : W}
      (hplay : machine.play host (restoreBytes bytes) v = ((.error fault, after), w')) :
      after.dictionaries = {} ∨ after.dictionaries = machine.dictionaries := by
    have hback := goesBack_restoreBytes host v machine bytes
    rw [hplay] at hback
    exact dictionaries_of_goesBack hback
  cases how with
  | bytes snapshot => exact hbytes hplay
  | file =>
      exact of_file (P := fun outcome after => after.dictionaries = {} ∨
        after.dictionaries = machine.dictionaries) (fun _ => .inr rfl) hbytes hplay
  | undo =>
      cases hpop : machine.undo.pop? with
      | none =>
          rw [Recall.work, Play.undo, play_bind_of_ok (play_get machine host w), hpop] at hplay
          cases hplay
          exact .inr rfl
      | some pair =>
          obtain ⟨snapshot, ring⟩ := pair
          have hback := goesBack_undo host w hpop
          rw [Recall.work] at hplay
          rw [hplay] at hback
          exact dictionaries_of_goesBack hback

/-- Dictionaries stay faithful where nothing they depend on is changed. -/
theorem faithful_of_fixtures (h : machine.Faithful) (hfixtures : after.fixtures = machine.fixtures)
    (hsame : after.dictionaries = machine.dictionaries) : after.Faithful := by
  obtain ⟨hstory, -, -, hcodec, -⟩ : after.memory.story = _ ∧ after.objects = _ ∧
      after.globals = _ ∧ after.codec = _ ∧ after.options = _ := by
    simpa only [fixtures, Prod.mk.injEq] using hfixtures
  exact h.congr hcodec hstory hsame

/-- **A machine that has not halted keeps faithful dictionaries**, however it was reached. -/
theorem faithful_of_reachable (h : Reachable image ruledOut machine)
    (hhalted : machine.halted = none) : machine.Faithful := by
  induction h with
  | create h =>
      obtain ⟨_, draft, codec, _, seed, v, v', -, -, -, hplay⟩ := started_of_create h
      obtain ⟨outcome, pc, stack, hstart, -⟩ := play_start _ _ v
      rw [hstart] at hplay
      cases hplay
      exact faithful_of_empty rfl
  | execute hreach h ih =>
      refine execute_induction (P := fun machine => machine.halted = none → machine.Faithful) ?_ ih h
        hhalted
      intro machine after outcome w w' hnone hmachine hplay hafter
      cases outcome with
      | ok _ => exact faithful_of_step hplay (hmachine hnone)
      | error fault => exact nomatch hafter
  | restart hreach h ih =>
      rcases dictionaries_of_restart h with hempty | ⟨hsame, hkept⟩
      · exact faithful_of_empty hempty
      · exact faithful_of_fixtures (ih (hkept.symm.trans hhalted)) (retains_restart.eq h) hsame
  | @sendBack _ _ _ _ _ _ outcome how hreach h _ ih =>
      cases outcome with
      | ok _ => exact (anew_of_recall how h).faithful
      | error fault =>
          have hkept := (reload_recall how h).1.halted_eq
          rcases dictionaries_of_recall how h with hempty | hsame
          · exact faithful_of_empty hempty
          · exact faithful_of_fixtures (ih (hkept.symm.trans hhalted)) ((retains_recall how).eq h)
              hsame

end

end Play

end StoryMachine
