import StoryMachine.Proofs.Moves

/-!
# Every instruction moves and ends

The parts of the machine one after another: variables, calls and branches, printing,
reading, tables, saving, objects.  Each proof follows the text of the part it is
about.  Only what calls a routine, returns from one or asks about the machine it
runs on is looked at more closely.

The main statement is `ends_perform`: whatever an instruction asks for, unless it
restores, undoes, restarts or keeps an undo generation, is moves and an end.  Of most
instructions more is said: they leave the stack as it is (`calm_perform`), or write
one variable (`delivers_perform`).
-/

namespace StoryMachine.Play

open Machine

variable {W α β : Type}

/-! ## Variables, calls and branches -/

/-- Pushing adds a word that the current frame owns. -/
theorem shifts_push (word : Word) :
    Shifts (fun stack after => after = stack.pushed word)
      (onStack (CallStack.push word) : Play (StateM W) Unit) := by
  refine shifts_onStack (CallStack.bearable_push word) fun stack _ after hrun => ?_
  by_cases hfit : stack.values.size < WordStack.limit
  · rw [stack.run_push_of_lt word hfit] at hrun
    cases hrun
    exact ⟨.single (.push word hfit), rfl⟩
  · rw [stack.run_push_of_le word (Nat.not_lt.mp hfit)] at hrun
    exact nomatch hrun

/-- Popping drops a word. -/
theorem quiet_pop : Quiet (onStack CallStack.pop : Play (StateM W) Word) := by
  refine quiet_onStack CallStack.bearable_pop fun stack _ after hrun => ?_
  rcases stack.run_pop with ⟨word, hpop, hsize, hvalues⟩ | hpop <;> rw [hpop] at hrun
  · cases hrun
    exact .single (.drop 1 hsize hvalues)
  · exact nomatch hrun

/-- Popping many drops as many words. -/
theorem quiet_popMany (count : Nat) :
    Quiet (onStack (CallStack.popMany count) : Play (StateM W) Unit) := by
  refine quiet_onStack (CallStack.bearable_popMany count) fun stack _ after hrun => ?_
  rcases stack.run_popMany count with ⟨hpop, hsize, hvalues⟩ | hpop <;> rw [hpop] at hrun
  · cases hrun
    exact .single (.drop count hsize hvalues)
  · exact nomatch hrun

/-- Poking replaces the top word. -/
theorem edits_poke (word : Word) :
    Shifts CallStack.Edited (onStack (CallStack.poke word) : Play (StateM W) Unit) := by
  refine shifts_onStack (CallStack.bearable_poke word) fun stack _ after hrun => ?_
  rcases stack.run_poke word with ⟨hpoke, hsize, hvalues⟩ | hpoke <;> rw [hpoke] at hrun
  · cases hrun
    exact ⟨.single (.poke word hvalues), .poke word hsize⟩
  · exact nomatch hrun

/-- Setting a local changes it in the current frame only. -/
theorem shifts_setLocal (number : UInt8) (value : Word) :
    Shifts (fun stack after => after = stack.withLocal number value)
      (onStack (CallStack.setLocal number value) : Play (StateM W) Unit) := by
  refine shifts_onStack (CallStack.bearable_setLocal number value) fun stack _ after hrun => ?_
  rcases stack.run_setLocal number value with hset | ⟨fault, hset⟩ <;> rw [hset] at hrun
  · cases hrun
    exact ⟨.single (.setLocal number value), rfl⟩
  · exact nomatch hrun

/-- Unwinding leaves one frame after another. -/
theorem quiet_unwind (depth : Nat) :
    Quiet (onStack (CallStack.unwind depth) : Play (StateM W) Unit) := by
  refine quiet_onStack (CallStack.bearable_unwind depth) fun stack _ after hrun => ?_
  rcases stack.run_unwind depth with ⟨_, hunwind, hmoves⟩ | ⟨fault, _, hunwind⟩ <;>
    rw [hunwind] at hrun
  · cases hrun
    exact hmoves
  · exact nomatch hrun

/-- Reading a variable that an operand names takes nothing from the stack. -/
theorem calm_readNamed (number : UInt8) : Calm (readNamed number : Play (StateM W) Word) := by
  unfold readNamed readVariable
  by_cases hzero : number = 0
  · rw [if_pos hzero]
    exact calm_get.bind fun _ => calm_ofExcept _
  · rw [if_neg hzero, if_neg hzero]
    exact .ite (calm_get.bind fun _ => calm_ofExcept _) (calm_get.bind fun _ => calm_look _)

/-- Writing a variable delivers the value to it. -/
theorem delivers_writeVariable (number : UInt8) (value : Word) :
    Delivers (some number) (writeVariable number value : Play (StateM W) Unit) := by
  have hdelivered (stack : CallStack) : stack.delivered (some number) value
      = if number = 0 then stack.pushed value
        else if number < 16 then stack.withLocal number value else stack := rfl
  unfold writeVariable
  by_cases hzero : number = 0
  · rw [if_pos hzero]
    refine (shifts_push value).imp fun {stack _} hpush => ⟨value, hpush.trans ?_⟩
    rw [hdelivered, if_pos hzero]
  · rw [if_neg hzero]
    by_cases hlocal : number < 16
    · rw [if_pos hlocal]
      refine (shifts_setLocal number value).imp fun {stack _} hset => ⟨value, hset.trans ?_⟩
      rw [hdelivered, if_neg hzero, if_pos hlocal]
    · rw [if_neg hlocal]
      refine (calm_get.bind fun _ => calm_edit (Edit.keepsStory_writeWord _ _)).imp
        fun {stack _} hsame => ⟨value, hsame.trans ?_⟩
      rw [hdelivered, if_neg hzero, if_neg hlocal]

/-- Writing a variable pushes a word, sets a local or writes memory. -/
theorem quiet_writeVariable (number : UInt8) (value : Word) :
    Quiet (writeVariable number value : Play (StateM W) Unit) :=
  (delivers_writeVariable number value).quiet

/-- Where an operand names the variable, the word on top of the stack is replaced. -/
theorem edits_writeNamed (number : UInt8) (value : Word) :
    Shifts CallStack.Edited (writeNamed number value : Play (StateM W) Unit) := by
  unfold writeNamed
  by_cases hzero : number = 0
  · rw [if_pos hzero]
    exact edits_poke value
  · rw [if_neg hzero]
    refine (delivers_writeVariable number value).imp ?_
    rintro stack _ ⟨word, rfl⟩
    show stack.Edited (if number = 0 then _ else if number < 16 then _ else _)
    rw [if_neg hzero]
    split
    · exact .setLocal number word
    · exact .stay

/-- A result is delivered to the variable that is named. -/
theorem delivers_storeTo (target : Option UInt8) (value : Word) :
    Delivers target (storeTo target value : Play (StateM W) Unit) := by
  cases target with
  | none => exact (calm_pure ()).imp fun hsame => ⟨value, hsame⟩
  | some number => exact delivers_writeVariable number value

/-- The result of an instruction is delivered to its store variable. -/
theorem delivers_store (instruction : Instruction) (value : Word) :
    Delivers instruction.store (store instruction value : Play (StateM W) Unit) :=
  delivers_storeTo instruction.store value

/-- Delivering a result is one move. -/
theorem quiet_store (instruction : Instruction) (value : Word) :
    Quiet (store instruction value : Play (StateM W) Unit) := (delivers_store _ _).quiet

/-- Entering a routine is a move: its frame remembers where the machine is. -/
theorem shifts_enter (address : Machine → Nat) (arguments : List Word) (target : Option UInt8)
    (pending : Option PendingRead) :
    Shifts (fun stack after => ∃ frame, frame.pending = pending ∧ frame.size = 0 ∧
        after = stack.entered frame) (do
      let machine ← get
      setPc (← onStack (CallStack.call machine.memory (address machine) arguments machine.pc target
        pending)) : Play (StateM W) Unit) := by
  intro host machine w
  rw [play_bind_of_ok (play_get machine host w), play_bind, play_onStack]
  rcases machine.stack.run_call machine.memory (address machine) arguments machine.pc target pending
    with ⟨frame, first, hrun, hentry, hdepth⟩ | ⟨fault, hrun⟩ <;> rw [hrun]
  · constructor
    · rintro _ _ _ ⟨⟩
      exact ⟨.single (.enter target pending frame first hentry hdepth),
        frame, hentry.pending_eq, hentry.size_eq, rfl⟩
    · intro fault after w' heq
      exact nomatch heq
  · constructor
    · intro a after w' heq
      exact nomatch heq
    · rintro _ _ _ ⟨⟩
      exact .refl machine

/-- A call enters a frame, or delivers a zero. -/
theorem quiet_call (routine : Word) (arguments : List Word) (target : Option UInt8) :
    Quiet (call routine arguments target : Play (StateM W) Unit) :=
  .ite (delivers_storeTo target 0).quiet
    (shifts_enter (fun machine => machine.memory.story.routineAddress routine) _ _ _).quiet

/-- The routine of a read enters a frame in which the read waits. -/
theorem answers_interrupt (target : Option UInt8) (routine : Word) (pending : PendingRead) :
    Shifts (fun stack after => stack.Answered target after)
      (interrupt routine pending : Play (StateM W) Unit) := by
  refine (shifts_enter (fun machine => machine.memory.story.routineAddress routine) _ _ _).imp ?_
  rintro stack _ ⟨frame, hpending, hsize, rfl⟩
  exact .waiting frame (hpending ▸ rfl) hsize

/-- What is done with the value of a routine whose frame has been left. -/
def handOver (frame : Frame) (value : Word) : Play (StateM W) Unit :=
  match frame.pending with
  | some pending => modify fun machine => { machine with resume := some (pending, value) }
  | none => do
    let machine ← get
    if machine.memory.version = 6 ∧ machine.stack.depth = 1 then
      modify fun machine => { machine with halted := some .quit }
    else storeTo frame.store value

/-- Returning leaves the frame and hands its value over, or fails before that. -/
theorem play_ret (host : Host (StateM W)) (machine : Machine) (w : W) (value : Word) :
    (∃ caller older, machine.stack.callers = caller :: older ∧
        machine.stack.current.size ≤ machine.stack.values.size ∧
        machine.play host (ret value) w
          = (machine.backIn caller older).play host (handOver machine.stack.current value) w) ∨
      ∃ fault stack, machine.play host (ret value) w
          = ((.error fault, { machine with stack }), w) ∧ fault.isFatal = true ∧
        (machine.stack.Storable → stack = machine.stack) ∧ machine.stack.Endures stack := by
  have hendures := CallStack.bearable_ret machine.stack
  rcases machine.stack.run_ret with
    ⟨caller, older, hcallers, hvalues, hrun⟩ | ⟨fault, after, hrun, hfatal, hsame⟩
  · left
    refine ⟨caller, older, hcallers, hvalues, ?_⟩
    rw [ret, play_bind, play_onStack, hrun]
    rfl
  · right
    rw [hrun] at hendures
    refine ⟨fault, after, ?_, hfatal, hsame, hendures⟩
    rw [ret, play_bind, play_onStack, hrun]

/-- What is done with the value of a frame ends the instruction. -/
theorem ends_handOver (frame : Frame) (value : Word) :
    Ends (handOver frame value : Play (StateM W) Unit) := by
  unfold handOver
  cases frame.pending with
  | some pending => exact ends_modify fun _ => .resume (pending, value)
  | none =>
      exact calm_get.quiet.ends_bind fun _ => .ite (ends_modify fun _ => .quit)
        (delivers_storeTo frame.store value).quiet.ends

/-- Returning is a move, and what is done with the value is the end. -/
theorem ends_ret (value : Word) : Ends (ret value : Play (StateM W) Unit) := by
  intro host machine w
  rcases play_ret host machine w value with
    ⟨caller, older, hcallers, hvalues, hplay⟩ | ⟨fault, stack, hplay, -, -, hendures⟩ <;>
    rw [hplay]
  · have hmove : machine.Move (machine.backIn caller older) := .ret caller older hcallers hvalues
    obtain ⟨hok, herror⟩ :=
      ends_handOver machine.stack.current value host (machine.backIn caller older) w
    constructor
    · intro a after w' heq
      obtain ⟨middle, hmoves, hlast⟩ := hok a after w' heq
      exact ⟨middle, hmoves.head hmove, hlast⟩
    · intro fault after w' heq
      exact hmove.withstands.trans (herror fault after w' heq)
  · constructor
    · intro a after w' heq
      exact nomatch heq
    · rintro _ _ _ ⟨⟩
      exact ⟨⟨rfl, rfl, rfl, rfl, rfl, rfl, rfl⟩, hendures⟩

/-- A branch that is taken ends the instruction: it returns or jumps. -/
theorem ends_jump (target : BranchTarget) : Ends (jump target : Play (StateM W) Unit) := by
  cases target with
  | returnFalse => exact ends_ret 0
  | returnTrue => exact ends_ret 1
  | address address => exact ends_setPc address

/-- A branch ends the instruction, taken or not. -/
theorem ends_branch (instruction : Instruction) (outcome : Bool) :
    Ends (branch instruction outcome : Play (StateM W) Unit) := by
  unfold branch
  cases instruction.branch with
  | none => exact (quiet_pure ()).ends
  | some branch => exact .ite (ends_jump _) (quiet_pure ()).ends

/-- Reporting ends the instruction. -/
theorem ends_report (instruction : Instruction) (value : Word) :
    Ends (report instruction value : Play (StateM W) Unit) :=
  .ite (quiet_store instruction value).ends (ends_branch instruction _)

/-- A warning moves nothing. -/
theorem calm_warn (message : String) : Calm (warn message : Play (StateM W) Unit) :=
  calm_get.bind fun _ => .ite (calm_throw _) (calm_note _)

/-- Nor does a warning that may not be there. -/
theorem calm_warnIf (message : Option String) : Calm (warnIf message : Play (StateM W) Unit) := by
  cases message with
  | none => exact calm_pure ()
  | some message => exact calm_warn message

/-- Asking whether there is an object moves nothing on the stack. -/
theorem calm_isObject (object : Word) (opcode : Opcode) :
    Calm (isObject object opcode : Play (StateM W) Bool) :=
  .ite ((calm_warn _).bind fun _ => calm_pure false) (calm_pure true)

/-! ## Printing -/

/-- Printing codes changes memory and streams at the most. -/
theorem calm_printCodes (codes : List Word) : Calm (printCodes codes : Play (StateM W) Unit) :=
  calm_get.bind fun _ => calm_onStreams (Streams.keepsStory_print _ _)

/-- Printing text changes memory and streams at the most. -/
theorem calm_printText (text : String) : Calm (printText text : Play (StateM W) Unit) :=
  calm_get.bind fun _ => calm_printCodes _

/-- Printing packed text changes memory and streams at the most. -/
theorem calm_printAt (address : Nat) : Calm (printAt address : Play (StateM W) Unit) :=
  calm_get.bind fun _ => (calm_ofExcept _).bind fun _ => calm_printCodes _

/-- The name of an object is only read. -/
theorem reads_objectName (object : Word) : Reads (objectName object : Play (StateM W) String) :=
  reads_get.bind fun _ => (reads_look _).bind fun _ => .ite (reads_pure "") <|
    (reads_look _).bind fun _ => (reads_ofExcept _).bind fun _ => reads_pure _

/-- The line of the status is only read. -/
theorem reads_statusLine : Reads (statusLine : Play (StateM W) StatusLine) := by
  have hright (location : String) (machine : Machine) : Reads (do
      let first ← look (·.readWord (globalAddress machine 17))
      let second ← look (·.readWord (globalAddress machine 18))
      let flags ← view (·.headerByte .flags1)
      let right : StatusRight :=
        if flags &&& 0x02 ≠ 0 then .time first second else .score first.signed second
      return { location, right } : Play (StateM W) StatusLine) :=
    (reads_look _).bind fun _ => (reads_look _).bind fun _ => (reads_view _).bind fun _ =>
      reads_pure _
  refine reads_get.bind fun machine => (reads_look _).bind fun place => ?_
  exact .ite ((reads_pure "").bind fun location => hright location machine)
    ((reads_objectName place).bind fun location => hright location machine)

/-- Showing the status leaves the stack. -/
theorem calm_showStatus : Calm (showStatus : Play (StateM W) Unit) :=
  (calm_view _).bind fun _ => .ite (reads_statusLine.calm.bind fun _ => calm_ask _)
    (calm_pure ())

/-- Printing bytes leaves the stack. -/
theorem calm_printBytes (address length : Nat) :
    Calm (printBytes address length : Play (StateM W) Unit) :=
  (calm_look _).bind fun _ => calm_printCodes _

/-- Printing rows leaves the stack. -/
theorem calm_printRows (width skip rows address : Nat) :
    Calm (printRows width skip rows address : Play (StateM W) Unit) := by
  induction rows generalizing address with
  | zero => exact calm_pure ()
  | succ rows ih =>
      exact (calm_printCodes [13]).bind fun _ => (calm_printBytes address width).bind fun _ =>
        ih (address + width + skip)

/-- Printing a table leaves the stack. -/
theorem calm_printTable (text width height skip : Word) :
    Calm (printTable text width height skip : Play (StateM W) Unit) :=
  .ite ((calm_printBytes _ _).bind fun _ => calm_printRows _ _ _ _) (calm_pure ())

/-- Printing records leaves the stack. -/
theorem calm_printRecords (left address : Nat) :
    Calm (printRecords left address : Play (StateM W) Unit) := by
  induction left generalizing address with
  | zero => exact calm_look _
  | succ left ih =>
      refine (calm_look _).bind fun length => .ite ?_ (calm_pure ())
      exact (calm_printBytes _ _).bind fun _ => (calm_printCodes [13]).bind fun _ => ih _

/-- Printing a form leaves the stack. -/
theorem calm_printForm (table : Word) : Calm (printForm table : Play (StateM W) Unit) :=
  (calm_view _).bind fun _ => calm_printRecords _ _

/-! ## Reading -/

/-- Recording the mouse changes memory only. -/
theorem calm_recordMouse : Calm (recordMouse : Play (StateM W) Unit) :=
  (calm_ask _).bind fun _ => calm_edit <|
    .bind (Header.keepsStory_setExtensionWord _ _) fun _ => Header.keepsStory_setExtensionWord _ _

/-- The lexemes of the text in a buffer, with what is kept of dictionaries then. -/
def tokenised (machine : Machine) (text dictionary : Nat) : Except Fault Tokenised := do
  let codes ← TextBuffer.readText machine.memory text
  machine.dictionaries.tokenise machine.memory.bytes machine.codec dictionary
    machine.memory.dynamicCeiling codes

/-- Text that cannot be cut into words stops the work with the machine as it was. -/
theorem play_tokenise_of_error (host : Host (StateM W)) {machine : Machine} (w : W)
    {text dictionary : Nat} {fault : Fault} (parse : Nat) (skipUnknown : Bool)
    (h : tokenised machine text dictionary = .error fault) :
    machine.play host (tokenise text parse dictionary skipUnknown) w
      = ((.error fault, machine), w) := by
  unfold tokenised at h
  rw [tokenise, play_bind, play_look]
  cases hcodes : TextBuffer.readText machine.memory text with
  | error fault' =>
      rw [hcodes] at h
      obtain rfl : fault' = fault := Except.error.inj h
      rfl
  | ok codes =>
      rw [hcodes] at h
      dsimp only
      rw [play_bind_of_ok (play_get machine host w), play_bind, play_ofExcept]
      have hfault : machine.dictionaries.tokenise machine.memory.bytes machine.codec dictionary
          machine.memory.dynamicCeiling codes = .error fault := h
      rw [hfault]

/-- Whether the host is told of a new index makes no difference. -/
theorem play_tokenise_of_ok (host : Host (StateM W)) {machine : Machine} (w : W)
    {text dictionary : Nat} {found : Tokenised} (parse : Nat) (skipUnknown : Bool)
    (h : tokenised machine text dictionary = .ok found) :
    ∃ v, machine.play host (tokenise text parse dictionary skipUnknown) w
      = Machine.play { machine with dictionaries := found.dictionaries } host
        (edit (TextBuffer.writeLexemes parse found.lexemes
          (TextBuffer.textOffset machine.memory.version) skipUnknown)) v := by
  obtain ⟨codes, hcodes, hfound⟩ := bind_eq_ok.mp h
  rw [tokenise, play_bind, play_look, hcodes]
  dsimp only
  rw [play_bind_of_ok (play_get machine host w), play_bind, play_ofExcept, hfound]
  dsimp only
  cases found.indexedKeys with
  | none => exact ⟨_, rfl⟩
  | some keys => exact ⟨_, rfl⟩

/-- Keeping a dictionary that was just read is a move. -/
theorem move_tokenised {machine : Machine} {text dictionary : Nat} {found : Tokenised}
    (h : tokenised machine text dictionary = .ok found) :
    machine.Move { machine with dictionaries := found.dictionaries } := by
  obtain ⟨codes, -, hfound⟩ := bind_eq_ok.mp h
  have hsame : SameFrom machine.memory.dynamicCeiling machine.memory.story.image
      machine.memory.bytes := ⟨machine.memory.size_eq, machine.memory.static_eq⟩
  refine .dictionaries _ fun hfaithful => ?_
  rcases Dictionaries.tokenise_of_faithful hfaithful hsame dictionary codes with
    ⟨found', hfound', -, hkept⟩ | ⟨fault, hfault, -⟩
  · obtain rfl := Except.ok.inj (hfound.symm.trans hfound')
    exact hkept
  · exact nomatch hfound.symm.trans hfault

/-- Cutting text into words changes the kept dictionaries and memory, and they stay faithful. -/
theorem calm_tokenise (text parse dictionary : Nat) (skipUnknown : Bool) :
    Calm (tokenise text parse dictionary skipUnknown : Play (StateM W) Unit) := by
  intro host machine w
  cases hfound : tokenised machine text dictionary with
  | error fault =>
      rw [play_tokenise_of_error host w parse skipUnknown hfound]
      exact calm_throw fault host machine w
  | ok found =>
      have hwrite : Calm (edit (TextBuffer.writeLexemes parse found.lexemes
          (TextBuffer.textOffset machine.memory.version) skipUnknown) : Play (StateM W) Unit) :=
        calm_edit (TextBuffer.keepsStory_writeLexemes _ _ _ _)
      obtain ⟨v, hplay⟩ := play_tokenise_of_ok host w parse skipUnknown hfound
      rw [hplay]
      exact hwrite.after_move (move_tokenised hfound) rfl host v

/-- A line that was typed delivers its terminator and nothing else to the stack. -/
theorem delivers_finishLine (pending : LineRead) (text : String) (terminator : Word) :
    Delivers pending.store (finishLine pending text terminator : Play (StateM W) Unit) := by
  have hmouse : Delivers pending.store (do
      if isMouseClick terminator then recordMouse
      storeTo pending.store terminator : Play (StateM W) Unit) :=
    .ite (calm_recordMouse.shifts_bind fun _ => delivers_storeTo _ _) (delivers_storeTo _ _)
  refine (calm_look _).shifts_bind fun room => calm_get.shifts_bind fun machine =>
    (calm_onStreams (Streams.keepsStory_recordInput text)).shifts_bind fun _ =>
      (calm_edit (TextBuffer.keepsStory_writeText _ _)).shifts_bind fun _ => .ite ?_ hmouse
  exact (calm_view _).shifts_bind fun _ => (calm_tokenise _ _ _ _).shifts_bind fun _ => hmouse

/-- What stands in the input line before leaves the stack. -/
theorem calm_initialText (pending : LineRead) :
    Calm (initialText pending : Play (StateM W) String) :=
  (calm_view _).bind fun _ => .ite
    (calm_get.bind fun _ => (calm_look _).bind fun _ => calm_pure _) (calm_pure _)

/-- A read delivers its result, or enters a routine that it waits for. -/
theorem answers_of_delivers {target : Option UInt8} {work : Play (StateM W) α}
    (h : Delivers target work) : Shifts (fun stack after => stack.Answered target after) work := by
  refine h.imp ?_
  rintro stack _ ⟨value, rfl⟩
  exact .delivered value

/-- Reading a line delivers its terminator or waits in the frame of its routine. -/
theorem answers_lineRead (pending : LineRead) :
    Shifts (fun stack after => stack.Answered pending.store after)
      (lineRead pending : Play (StateM W) Unit) := by
  have hdone (text : String) (terminator : Word) :
      Shifts (fun stack after => stack.Answered pending.store after)
        (finishLine pending text terminator : Play (StateM W) Unit) :=
    answers_of_delivers (delivers_finishLine pending text terminator)
  have htimedOut (typed : String) :
      Shifts (fun stack after => stack.Answered pending.store after) (
        if pending.routine = 0 then finishLine pending typed 0
        else do
          note (.remark s!"line read timed out with {Quoted.quote typed}")
          interrupt pending.routine (.line { pending with typed }) : Play (StateM W) Unit) :=
    .ite (hdone typed 0) ((calm_note _).shifts_bind fun _ => answers_interrupt _ _ _)
  refine calm_showStatus.shifts_bind fun _ => (calm_look _).shifts_bind fun room =>
    (calm_initialText pending).shifts_bind fun initial =>
      (calm_edit TextBuffer.keepsStory_terminators).shifts_bind fun terminators =>
        (calm_onStreams Streams.keepsStory_replayLine).shifts_bind fun line => ?_
  cases line with
  | none =>
      refine (calm_ask _).shifts_bind fun input => ?_
      cases input with
      | done text terminator => exact hdone text terminator
      | timedOut typed => exact htimedOut typed
  | some line =>
      refine (calm_ask _).shifts_bind fun _ => (calm_ask _).shifts_bind fun _ =>
        (calm_pure _).shifts_bind fun input => ?_
      cases input with
      | done text terminator => exact hdone text terminator
      | timedOut typed => exact htimedOut typed

/-- Reading a key delivers its code or waits in the frame of its routine. -/
theorem answers_charRead (pending : CharRead) :
    Shifts (fun stack after => stack.Answered pending.store after)
      (charRead pending : Play (StateM W) Unit) := by
  have hdone (code : Word) := answers_of_delivers (@delivers_storeTo W pending.store code)
  refine (calm_ask _).shifts_bind fun input => ?_
  cases input with
  | key code => exact .ite (calm_recordMouse.shifts_bind fun _ => hdone code) (hdone code)
  | timedOut => exact .ite (hdone 0) (answers_interrupt _ _ _)

/-- A read that goes on delivers a value or waits once more. -/
theorem answers_resumeRead (value : Word) (pending : PendingRead) :
    Shifts (fun stack after => stack.Answered pending.store after)
      (resumeRead value pending : Play (StateM W) Unit) := by
  cases pending with
  | line pending =>
      refine .ite (answers_lineRead pending) ?_
      exact (calm_note _).shifts_bind fun _ =>
        (calm_edit (TextBuffer.keepsStory_writeText _ _)).shifts_bind fun _ =>
          answers_of_delivers (delivers_storeTo _ _)
  | char pending =>
      exact .ite (answers_charRead pending) (answers_of_delivers (delivers_storeTo _ _))

/-! ## Saving -/

/-- Reading a file leaves the machine as it is. -/
theorem reads_readFile (purpose : Purpose) :
    Reads (readFile purpose : Play (StateM W) (Except Fault (List UInt8))) := by
  refine (reads_ask _).bind fun file => ?_
  cases file with
  | none => exact reads_pure _
  | some file =>
      refine (reads_ask _).bind fun read => ?_
      cases read with
      | ok bytes => exact reads_pure _
      | error detail => exact reads_pure _

/-- Writing a file leaves the machine as it is. -/
theorem reads_writeFile (purpose : Purpose) (bytes : List UInt8) :
    Reads (writeFile purpose bytes : Play (StateM W) Bool) := by
  have herror (text : String) : Reads (do
      note (.warning s!"write failed: {text}")
      return false : Play (StateM W) Bool) :=
    (reads_note _).bind fun _ => reads_pure false
  refine (reads_ask _).bind fun file => ?_
  cases file with
  | none => exact reads_pure false
  | some file =>
      refine (reads_ask _).bind fun written => ?_
      cases written with
      | ok _ =>
          refine (reads_ask _).bind fun flushed => ?_
          cases flushed with
          | ok _ => exact reads_pure true
          | error text => exact herror text
      | error text =>
          refine (reads_pure _).bind fun outcome => ?_
          cases outcome with
          | ok _ => exact reads_pure true
          | error text => exact herror text

/-- Making a snapshot leaves the machine as it is. -/
theorem reads_capture (pc : Nat) (compressed : Bool) (remark : Option String) :
    Reads (capture pc compressed remark : Play (StateM W) (List UInt8)) :=
  reads_get.bind fun _ => (reads_note _).bind fun _ => reads_pure _

/-- Making the remark of a save file leaves the machine as it is. -/
theorem reads_remark : Reads (remark : Play (StateM W) String) := by
  refine (reads_view _).bind fun version => (reads_ask _).bind fun stamp =>
    .ite (reads_pure _) (.bind (.tryCatch ?_ fun fault => ?_) fun early => ?_)
  · refine reads_statusLine.bind fun status => ?_
    cases status.right with
    | score score moves => exact reads_pure (Except.error _)
    | time hours minutes => exact reads_pure (Except.error _)
  · exact (reads_note _).bind fun _ => reads_pure (Except.error _)
  · cases early <;> exact reads_pure _

/-- Saving the game does nothing to the machine but report how that went. -/
theorem leads_saveGame {R : Machine → Machine → Prop} {instruction : Instruction}
    (hreport : ∀ value, Leads R (report instruction value : Play (StateM W) Unit)) :
    Leads R (saveGame instruction : Play (StateM W) Unit) := by
  refine reads_remark.leads_bind fun text => (reads_capture _ _ _).leads_bind fun snapshot =>
    (reads_writeFile _ _).leads_bind fun saved => .ite ?_ (hreport _)
  exact (reads_note _).leads_bind fun _ => hreport _

/-- Saving part of memory leaves the stack. -/
theorem calm_saveAuxiliary (table length : Word) :
    Calm (saveAuxiliary table length : Play (StateM W) Word) :=
  (calm_look _).bind fun _ => (reads_writeFile _ _).calm.bind fun _ =>
    .ite (calm_pure _) (calm_pure _)

/-- Restoring part of memory leaves the stack. -/
theorem calm_restoreAuxiliary (table length : Word) :
    Calm (restoreAuxiliary table length : Play (StateM W) Word) := by
  refine (reads_readFile .auxiliary).calm.bind fun read => ?_
  cases read with
  | error fault => exact (calm_note _).bind fun _ => calm_pure 0
  | ok bytes =>
      exact (calm_edit (Edit.keepsStory_writeBytes _ _)).bind fun _ => calm_pure _

/-! ## What the instructions do -/

/-- Adding to a named variable replaces the top word, a local or a global. -/
theorem edits_addToNamed (number amount : Word) :
    Shifts CallStack.Edited (addToNamed number amount : Play (StateM W) Word) :=
  (calm_readNamed _).shifts_bind fun _ => (edits_writeNamed _ _).bind_calm fun _ => calm_pure _

/-- Following a link leaves the stack. -/
theorem calm_linkOf (object : Word) (opcode : Opcode) (link : Link) :
    Calm (linkOf object opcode link : Play (StateM W) Word) :=
  (calm_isObject _ _).bind fun _ =>
    .ite (calm_get.bind fun _ => calm_look _) (calm_pure 0)

/-- Asking whether an object is inside another leaves the stack. -/
theorem calm_isInside (object parent : Word) :
    Calm (isInside object parent : Play (StateM W) Bool) :=
  (calm_isObject _ _).bind fun _ => .ite
    (calm_get.bind fun _ => (calm_look _).bind fun _ => calm_pure _) (calm_pure false)

/-- Testing an attribute leaves the stack. -/
theorem calm_hasAttribute (object number : Word) :
    Calm (hasAttribute object number : Play (StateM W) Bool) :=
  (calm_isObject _ _).bind fun _ =>
    .ite (calm_get.bind fun _ => calm_look _) (calm_pure false)

/-- Looking up the address of a property leaves the stack. -/
theorem calm_propertyAddress (object number : Word) :
    Calm (propertyAddress object number : Play (StateM W) Word) :=
  (calm_isObject _ _).bind fun _ =>
    .ite (calm_get.bind fun _ => calm_look _) (calm_pure 0)

/-- Looking up the value of a property leaves the stack. -/
theorem calm_propertyValue (object number : Word) :
    Calm (propertyValue object number : Play (StateM W) Word) :=
  (calm_isObject _ _).bind fun _ => .ite
    (calm_get.bind fun _ => (calm_look _).bind fun _ =>
      .ite ((calm_warn _).bind fun _ => calm_pure _) (calm_pure _))
    (calm_pure 0)

/-- Looking up the property after another one leaves the stack. -/
theorem calm_propertyAfter (object number : Word) :
    Calm (propertyAfter object number : Play (StateM W) Word) := by
  refine (calm_isObject _ _).bind fun _ => .ite ?_ (calm_pure 0)
  refine calm_get.bind fun _ => (calm_look _).bind fun next => ?_
  cases next with
  | some next => exact calm_pure next
  | none => exact (calm_warn _).bind fun _ => calm_pure 0

/-- A transcript that follows its flag leaves the stack. -/
theorem calm_syncTranscript : Calm (syncTranscript : Play (StateM W) Unit) :=
  (calm_view _).bind fun _ => calm_get.bind fun _ => .ite
    ((calm_onStreams (Streams.keepsStory_select _ _ _)).bind fun _ => calm_warnIf _)
    (calm_pure ())

/-- A check of an address leaves the stack. -/
theorem calm_checkWrite (address : Nat) : Calm (checkWrite address : Play (StateM W) Unit) :=
  .ite (calm_warn _) (calm_pure ())

/-- Storing a word leaves the stack. -/
theorem calm_storeWord (address : Nat) (value : Word) :
    Calm (storeWord address value : Play (StateM W) Unit) :=
  (calm_checkWrite address).bind fun _ =>
    (calm_edit (Edit.keepsStory_writeWord _ _)).bind fun _ =>
      .ite calm_syncTranscript (calm_pure ())

/-- Storing a byte leaves the stack. -/
theorem calm_storeByte (address : Nat) (value : UInt8) :
    Calm (storeByte address value : Play (StateM W) Unit) :=
  (calm_checkWrite address).bind fun _ =>
    (calm_edit (Edit.keepsStory_writeByte _ _)).bind fun _ =>
      .ite calm_syncTranscript (calm_pure ())

/-- Drawing a random number changes the generator only. -/
theorem calm_nextRandom (range : Word) : Calm (nextRandom range : Play (StateM W) Word) := by
  have hseed (seed : UInt32) : Calm (do
      modify fun machine => { machine with random := .ofSeed seed }
      return 0 : Play (StateM W) Word) :=
    (calm_modify fun _ => ⟨.random (.ofSeed seed), rfl⟩).bind fun _ => calm_pure 0
  refine .ite ?_ (.ite ((calm_ask _).bind hseed) ((calm_pure _).bind hseed))
  exact calm_get.bind fun machine =>
    (calm_modify fun _ => ⟨.random (machine.random.below range).2, rfl⟩).bind fun _ => calm_pure _

/-- Packing a key changes memory only. -/
theorem calm_encodeText (text length start destination : Word) :
    Calm (encodeText text length start destination : Play (StateM W) Unit) :=
  (calm_look _).bind fun _ => calm_get.bind fun _ =>
    calm_edit (Edit.keepsStory_writeBytes _ _)

/-- Writing two words changes memory only. -/
theorem calm_writePair (address first second : Word) :
    Calm (writePair address first second : Play (StateM W) Unit) :=
  calm_edit <| .bind (Edit.keepsStory_writeWord _ _) fun _ => Edit.keepsStory_writeWord _ _

/-- A call moves, if it names a routine at all. -/
theorem quiet_callWith (operands : List Word) (target : Option UInt8) :
    Quiet (callWith operands target : Play (StateM W) Unit) := by
  cases operands with
  | nil => exact quiet_throw _
  | cons routine arguments => exact quiet_call routine arguments target

/-- Pulling drops a word and writes a variable, or does both in memory. -/
theorem quiet_pull (instruction : Instruction) (operands : List Word) :
    Quiet (pull instruction operands : Play (StateM W) Unit) := by
  refine (calm_view _).quiet.bind fun version =>
    .ite ?_ (quiet_pop.bind fun _ => (edits_writeNamed _ _).quiet)
  cases operands with
  | nil => exact quiet_pop.bind fun _ => quiet_store _ _
  | cons stack rest =>
      exact (calm_edit (Table.keepsStory_pullFrom _)).quiet.bind fun _ => quiet_store _ _

/-- Dropping words moves on the stack or in memory. -/
theorem quiet_popStack (operands : List Word) :
    Quiet (popStack operands : Play (StateM W) Unit) := by
  unfold popStack
  split
  · exact (calm_edit <|
      .bind (Edit.keepsStory_look _) fun _ => Edit.keepsStory_writeWord _ _).quiet
  · exact quiet_popMany _

/-- Selecting an output stream leaves the stack. -/
theorem calm_selectOutput (operands : List Word) :
    Calm (selectOutput operands : Play (StateM W) Unit) :=
  (calm_view _).bind fun _ =>
    (calm_onStreams (Streams.keepsStory_select _ _ _)).bind fun _ => calm_warnIf _

/-- Asking about a character leaves the machine as it is, and so the stack. -/
theorem calm_unicodeSupport (number : Word) :
    Calm (unicodeSupport number : Play (StateM W) Word) := by
  unfold unicodeSupport
  cases charOf? number.toNat with
  | some c => exact calm_ask _
  | none => exact calm_pure 0

/-- Searching a table leaves the stack. -/
theorem calm_scanTable (value table count form : Word) :
    Calm (scanTable value table count form : Play (StateM W) Word) :=
  .ite ((calm_warn _).bind fun _ => calm_pure 0) ((calm_look _).bind fun _ => calm_pure _)

/-- Instructions that deliver a value to their store variable and do nothing else to the
stack. -/
def deliversResult : Opcode → Bool
  | .or | .and | .not | .add | .sub | .mul | .logShift | .artShift | .bufferScreen | .div | .mod
  | .random | .load | .catchFrame | .getParent | .getProp | .getPropAddr | .getNextProp
  | .getPropLen | .loadw | .loadb | .setFont | .getWindProp | .checkUnicode => true
  | _ => false

/-- **Instructions that deliver a result** do nothing else to the stack. -/
theorem delivers_perform (instruction : Instruction) (operands : List Word)
    (h : deliversResult instruction.opcode = true) :
    Delivers instruction.store (perform instruction operands : Play (StateM W) Unit) := by
  refine calm_get.shifts_bind fun machine => ?_
  generalize instruction.opcode = opcode at h
  cases opcode with
  | or | and | not | add | sub | mul | logShift | artShift | bufferScreen =>
      exact delivers_store _ _
  | div | mod => exact (calm_ofExcept _).shifts_bind fun _ => delivers_store _ _
  | random => exact (calm_nextRandom _).shifts_bind fun _ => delivers_store _ _
  | load => exact (calm_readNamed _).shifts_bind fun _ => delivers_store _ _
  | catchFrame => exact calm_get.shifts_bind fun _ => delivers_store _ _
  | getParent => exact (calm_linkOf _ _ _).shifts_bind fun _ => delivers_store _ _
  | getProp => exact (calm_propertyValue _ _).shifts_bind fun _ => delivers_store _ _
  | getPropAddr => exact (calm_propertyAddress _ _).shifts_bind fun _ => delivers_store _ _
  | getNextProp => exact (calm_propertyAfter _ _).shifts_bind fun _ => delivers_store _ _
  | getPropLen | loadw | loadb => exact (calm_look _).shifts_bind fun _ => delivers_store _ _
  | setFont | getWindProp => exact (calm_ask _).shifts_bind fun _ => delivers_store _ _
  | checkUnicode => exact (calm_unicodeSupport _).shifts_bind fun _ => delivers_store _ _
  | _ => exact nomatch h

/-- Instructions that leave the stack as it is: those of objects, memory, text and the screen
that neither test anything nor deliver a value. -/
def leavesStack : Opcode → Bool
  | .nop | .pictureTable | .setAttr | .clearAttr | .insertObj | .removeObj | .putProp | .storew
  | .storeb | .copyTable | .print | .printAddr | .printPaddr | .printObj | .printChar | .newLine
  | .printNum | .printUnicode | .printTable | .printForm | .encodeText | .tokenise | .inputStream
  | .readMouse | .showStatus | .outputStream | .getCursor | .bufferMode | .setTextStyle
  | .setColour | .setTrueColour | .setCursor | .eraseWindow | .eraseLine | .splitWindow
  | .setWindow | .setMargins | .moveWindow | .windowSize | .windowStyle | .putWindProp
  | .scrollWindow | .mouseWindow | .drawPicture | .erasePicture | .soundEffect => true
  | _ => false

/-- **Instructions that leave the stack** indeed do. -/
theorem calm_perform (instruction : Instruction) (operands : List Word)
    (h : leavesStack instruction.opcode = true) :
    Calm (perform instruction operands : Play (StateM W) Unit) := by
  refine calm_get.bind fun machine => ?_
  generalize instruction.opcode = opcode at h
  cases opcode with
  | nop | pictureTable => exact calm_pure ()
  | setAttr | clearAttr =>
      exact (calm_isObject _ _).bind fun _ =>
        .ite (calm_edit (ObjectTable.keepsStory_setAttribute _ _ _ _)) (calm_pure ())
  | insertObj =>
      exact (calm_isObject _ _).bind fun _ => .ite ((calm_isObject _ _).bind fun _ =>
        .ite (calm_edit (ObjectTable.keepsStory_insert _ _ _)) (calm_pure ())) (calm_pure ())
  | removeObj =>
      exact (calm_isObject _ _).bind fun _ =>
        .ite (calm_edit (ObjectTable.keepsStory_remove _ _)) (calm_pure ())
  | putProp =>
      exact (calm_isObject _ _).bind fun _ =>
        .ite ((calm_edit (ObjectTable.keepsStory_putProperty _ _ _ _)).bind fun _ =>
          .ite (calm_warn _) (calm_pure ())) (calm_pure ())
  | storew => exact calm_storeWord _ _
  | storeb => exact calm_storeByte _ _
  | copyTable => exact calm_edit (Table.keepsStory_copy _ _ _)
  | print =>
      dsimp only
      cases instruction.text with
      | some address => exact calm_printAt address
      | none => exact calm_pure ()
  | printAddr => exact calm_printAt _
  | printPaddr => exact (calm_view _).bind fun _ => calm_printAt _
  | printObj =>
      exact (calm_isObject _ _).bind fun _ => .ite ((calm_look _).bind fun _ =>
        .ite ((calm_look _).bind fun _ => calm_printAt _) (calm_pure ())) (calm_pure ())
  | printChar | newLine => exact calm_printCodes _
  | printNum => exact calm_printText _
  | printUnicode => exact calm_get.bind fun _ => calm_printCodes _
  | printTable => exact calm_printTable _ _ _ _
  | printForm => exact calm_printForm _
  | encodeText => exact calm_encodeText _ _ _ _
  | tokenise =>
      exact .ite ((calm_view _).bind fun _ => calm_tokenise _ _ _ _)
        ((calm_pure _).bind fun _ => calm_tokenise _ _ _ _)
  | inputStream =>
      exact (calm_onStreams (Streams.keepsStory_selectInput _)).bind fun _ => calm_warnIf _
  | readMouse =>
      exact (calm_ask _).bind fun _ => (calm_writePair _ _ _).bind fun _ => calm_edit <|
        .bind (Edit.keepsStory_writeWord _ _) fun _ => Edit.keepsStory_writeWord _ _
  | showStatus => exact calm_showStatus
  | outputStream => exact calm_selectOutput _
  | getCursor => exact (calm_ask _).bind fun _ => calm_writePair _ _ _
  | bufferMode | setTextStyle | setColour | setTrueColour | setCursor | eraseWindow | eraseLine
  | splitWindow | setWindow | setMargins | moveWindow | windowSize | windowStyle | putWindProp
  | scrollWindow | mouseWindow | drawPicture | erasePicture | soundEffect => exact calm_ask _
  | _ => exact nomatch h

/-- Instructions that neither go back to another state nor keep one. -/
def IsPlain (opcode : Opcode) (operands : List Word) : Prop :=
  match opcode with
  | .restore => 2 ≤ operands.length
  | .restart | .saveUndo | .restoreUndo => False
  | _ => True

/-- **An instruction moves and ends.**  Whatever a plain instruction asks for is done in moves,
with a jump, a resumed read or the end of the story at most after them.  What is neither a test nor
listed here leaves the stack or delivers a result. -/
theorem ends_perform (instruction : Instruction) (operands : List Word)
    (hplain : IsPlain instruction.opcode operands) :
    Ends (perform instruction operands : Play (StateM W) Unit) := by
  by_cases hcalm : leavesStack instruction.opcode = true
  · exact (calm_perform instruction operands hcalm).quiet.ends
  by_cases hresult : deliversResult instruction.opcode = true
  · exact (delivers_perform instruction operands hresult).quiet.ends
  refine calm_get.quiet.ends_bind fun machine => ?_
  generalize instruction.opcode = opcode at hplain hcalm hresult
  cases opcode with
  | je | jl | jg | jz | test | piracy | makeMenu => exact ends_branch _ _
  | verify => exact (calm_view _).quiet.ends_bind fun _ => ends_branch _ _
  | checkArgCount => exact calm_get.quiet.ends_bind fun _ => ends_branch _ _
  | incChk | decChk => exact (edits_addToNamed _ _).quiet.ends_bind fun _ => ends_branch _ _
  | jin => exact (calm_isInside _ _).quiet.ends_bind fun _ => ends_branch _ _
  | testAttr => exact (calm_hasAttribute _ _).quiet.ends_bind fun _ => ends_branch _ _
  | pushStack =>
      exact (calm_edit (Table.keepsStory_pushOnto _ _)).quiet.ends_bind fun _ => ends_branch _ _
  | getSibling | getChild =>
      exact (calm_linkOf _ _ _).quiet.ends_bind fun _ => (quiet_store _ _).ends_bind fun _ =>
        ends_branch _ _
  | scanTable =>
      exact (calm_scanTable _ _ _ _).quiet.ends_bind fun _ => (quiet_store _ _).ends_bind fun _ =>
        ends_branch _ _
  | pictureData =>
      refine (calm_ask _).quiet.ends_bind fun size => ?_
      cases size with
      | some size => exact (calm_writePair _ _ _).quiet.ends_bind fun _ => ends_branch _ _
      | none => exact ends_branch _ _
  | store => exact (edits_writeNamed _ _).quiet.ends
  | inc | dec => exact ((edits_addToNamed _ _).bind_calm fun _ => calm_pure _).quiet.ends
  | push => exact (shifts_push _).quiet.ends
  | pull => exact (quiet_pull _ _).ends
  | pop => exact (quiet_pop.bind fun _ => quiet_pure _).ends
  | popStack => exact (quiet_popStack _).ends
  | call1s | call2s | callVs | callVs2 | call1n | call2n | callVn | callVn2 =>
      exact (quiet_callWith _ _).ends
  | ret | rtrue | rfalse => exact ends_ret _
  | retPopped => exact quiet_pop.ends_bind fun _ => ends_ret _
  | throwFrame => exact (quiet_unwind _).ends_bind fun _ => ends_ret _
  | jump => exact ends_setPc _
  | quit => exact ends_modify fun _ => .quit
  | printRet =>
      have hend : Ends (do printCodes [13]; ret 1 : Play (StateM W) Unit) :=
        (calm_printCodes [13]).quiet.ends_bind fun _ => ends_ret 1
      dsimp only
      cases instruction.text with
      | some address => exact (calm_printAt address).quiet.ends_bind fun _ => hend
      | none => exact hend
  | read => exact (answers_lineRead _).quiet.ends
  | readChar =>
      exact .ite ((calm_warn _).shifts_bind fun _ => answers_charRead _).quiet.ends
        (answers_charRead _).quiet.ends
  | save =>
      exact .ite ((calm_saveAuxiliary _ _).shifts_bind fun _ => delivers_store _ _).quiet.ends
        (leads_saveGame (ends_report _))
  | restore =>
      have htable : 2 ≤ operands.length := hplain
      simp only [if_pos htable]
      exact ((calm_restoreAuxiliary _ _).shifts_bind fun _ => delivers_store _ _).quiet.ends
  | restart | saveUndo | restoreUndo => exact hplain.elim
  | _ => first | exact absurd rfl hcalm | exact absurd rfl hresult

end StoryMachine.Play
