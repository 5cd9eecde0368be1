import StoryMachine.Proofs.Faults
import StoryMachine.Proofs.Stepping

/-!
# Which faults an instruction can stop with

The leaves are known (`Faults`); here the parts of an instruction are put together from
them, up to one step of the machine.  Every fault of a step is reported, whatever the
host does, with one exception: the instruction that selects the output stream with the
lowest number breaks off (`reported_step` and `play_step_of_breaksOff`).

Saves that cannot be read, undo generations that are not there and snapshots that make
no sense are faults too, but not of a kind that halts.  They come up only where an
instruction tries to go back, and there they are caught.
-/

namespace StoryMachine.Play

open Machine

variable {W α β : Type} {P Q : FaultKind → Prop}

/-- Work whose faults are all of certain kinds, whatever the host answers. -/
def Fails (P : FaultKind → Prop) (work : Play (StateM W) α) : Prop :=
  ∀ (host : Host (StateM W)) (machine : Machine) (w : W),
    FailsAs P (machine.play host work w).1.1

/-- Work whose faults are all reported. -/
abbrev Reports (work : Play (StateM W) α) : Prop :=
  Fails (fun kind => kind.isReported = true) work

/-- Faults of some kinds are faults of more kinds. -/
theorem Fails.imp {work : Play (StateM W) α} (h : Fails P work)
    (hPQ : ∀ kind, P kind → Q kind) : Fails Q work :=
  fun host machine w => (h host machine w).imp hPQ

/-- Giving a value does not fail. -/
theorem fails_pure (a : α) : Fails P (pure a : Play (StateM W) α) := fun _ _ _ => failsAs_ok a

/-- Stopping with a fault fails with its kind. -/
theorem fails_throw {fault : Fault} (h : P fault.kind) :
    Fails P (throw fault : Play (StateM W) α) := fun _ _ _ => failsAs_error h

/-- Looking at the machine does not fail. -/
theorem fails_get : Fails P (get : Play (StateM W) Machine) := fun _ _ _ => failsAs_ok _

/-- Replacing the machine does not fail. -/
theorem fails_set (machine : Machine) : Fails P (set machine : Play (StateM W) PUnit) :=
  fun _ _ _ => failsAs_ok _

/-- Changing the machine does not fail. -/
theorem fails_modify (f : Machine → Machine) : Fails P (modify f : Play (StateM W) PUnit) :=
  fun _ _ _ => failsAs_ok _

/-- Asking the host does not fail: what it answers is not a fault. -/
theorem fails_ask (f : Host (StateM W) → StateM W α) : Fails P (ask f) :=
  fun _ _ _ => failsAs_ok _

/-- Sending a notice does not fail. -/
theorem fails_note (notice : Notice) : Fails P (note notice : Play (StateM W) Unit) := fails_ask _

/-- Looking at memory does not fail. -/
theorem fails_view (f : Memory → α) : Fails P (view f : Play (StateM W) α) :=
  fun _ _ _ => failsAs_ok _

/-- Going to an address does not fail; what is there is only seen when it is fetched. -/
theorem fails_setPc (pc : Nat) : Fails P (setPc pc : Play (StateM W) Unit) := fails_modify _

/-- Taking over an outcome fails as the outcome does. -/
theorem fails_ofExcept {outcome : Except Fault α} (h : FailsAs P outcome) :
    Fails P (MonadExcept.ofExcept outcome : Play (StateM W) α) := by
  intro host machine w
  rw [play_ofExcept]
  exact h

/-- Reading memory fails as the reading does. -/
theorem fails_look {f : Memory → Except Fault α} (h : ∀ memory, FailsAs P (f memory)) :
    Fails P (look f : Play (StateM W) α) := by
  intro host machine w
  rw [play_look]
  exact h machine.memory

/-- **Work done in turn fails as its parts do.** -/
theorem Fails.bind {work : Play (StateM W) α} {next : α → Play (StateM W) β} (h : Fails P work)
    (hnext : ∀ a, Fails P (next a)) : Fails P (work >>= next) := by
  intro host machine w
  have hwork := h host machine w
  rw [play_bind]
  rcases hrun : (machine.play host work w : Played W α) with ⟨⟨fault | a, middle⟩, v⟩ <;>
    rw [hrun] at hwork
  · exact failsAs_error (hwork fault rfl)
  · exact hnext a host middle v

/-- A choice fails as its sides do. -/
theorem Fails.ite {c : Prop} [Decidable c] {work other : Play (StateM W) α} (h : Fails P work)
    (hother : Fails P other) : Fails P (if c then work else other) := by
  split
  · exact h
  · exact hother

/-- A fault that is caught is gone; what counts is what is done about it. -/
theorem Fails.tryCatch {work : Play (StateM W) α} {handler : Fault → Play (StateM W) α}
    (h : Fails Q work) (hhandler : ∀ fault, Q fault.kind → Fails P (handler fault)) :
    Fails P (tryCatch work handler) := by
  intro host machine w
  have hwork := h host machine w
  rw [play_tryCatch]
  rcases hrun : (machine.play host work w : Played W α) with ⟨⟨fault | a, middle⟩, v⟩ <;>
    rw [hrun] at hwork
  · exact hhandler fault (hwork fault rfl) host middle v
  · exact failsAs_ok a

/-- Work on memory reports as a part of an instruction. -/
theorem reports_edit {work : Edit α} (h : work.Reports) :
    Reports (edit work : Play (StateM W) α) := fun _ machine _ => h { memory := machine.memory }

/-- Work on the stack reports as a part of an instruction. -/
theorem reports_onStack {work : StackWork α} (h : Work.Reports work) :
    Reports (onStack work : Play (StateM W) α) := fun _ machine _ => h machine.stack

/-- Work of the streams reports as a part of an instruction. -/
theorem reports_onStreams {work : StreamWork (StateM W) α} (h : work.Reports) :
    Reports (onStreams work) :=
  fun host machine w => h host { memory := machine.memory, streams := machine.streams } w

/-! ## Variables, calls and branches -/

/-- A warning is a fault where warnings are to be fatal, and then it is reported. -/
theorem reports_warn (message : String) : Reports (warn message : Play (StateM W) Unit) :=
  fails_get.bind fun _ => .ite (fails_throw rfl) (fails_note _)

/-- So is a warning that may not be there. -/
theorem reports_warnIf (message : Option String) :
    Reports (warnIf message : Play (StateM W) Unit) := by
  cases message with
  | none => exact fails_pure ()
  | some message => exact reports_warn message

/-- A variable is read from the stack, the frame or memory. -/
theorem reports_readVariable (number : UInt8) :
    Reports (readVariable number : Play (StateM W) Word) :=
  .ite (reports_onStack CallStack.reports_pop) <|
    .ite (fails_get.bind fun machine => fails_ofExcept (machine.stack.reported_localValue number)) <|
      fails_get.bind fun _ => fails_look fun memory => memory.reported_readWord _

/-- A variable is written to the stack, the frame or memory. -/
theorem reports_writeVariable (number : UInt8) (value : Word) :
    Reports (writeVariable number value : Play (StateM W) Unit) :=
  .ite (reports_onStack (CallStack.reports_push value)) <|
    .ite (reports_onStack (CallStack.reports_setLocal number value)) <|
      fails_get.bind fun _ => reports_edit (Edit.reports_writeWord _ _)

/-- A named variable is read like any other, but that the top word stays. -/
theorem reports_readNamed (number : UInt8) : Reports (readNamed number : Play (StateM W) Word) :=
  .ite (fails_get.bind fun machine => fails_ofExcept machine.stack.reported_peek)
    (reports_readVariable number)

/-- A named variable is written like any other, but that the top word is replaced. -/
theorem reports_writeNamed (number : UInt8) (value : Word) :
    Reports (writeNamed number value : Play (StateM W) Unit) :=
  .ite (reports_onStack (CallStack.reports_poke value)) (reports_writeVariable number value)

/-- An operand is a constant or a variable. -/
theorem reports_operandValue (operand : Operand) :
    Reports (operandValue operand : Play (StateM W) Word) := by
  cases operand with
  | large value => exact fails_pure value
  | small value => exact fails_pure _
  | var number => exact reports_readVariable number

/-- The values of operands are taken one after another. -/
theorem reports_operandValues (operands : List Operand) :
    Reports (operandValues operands : Play (StateM W) (List Word)) := by
  induction operands with
  | nil => exact fails_pure []
  | cons operand rest ih =>
      exact (reports_operandValue operand).bind fun _ => ih.bind fun _ => fails_pure _

/-- A result without a variable is dropped; any other is written. -/
theorem reports_storeTo (target : Option UInt8) (value : Word) :
    Reports (storeTo target value : Play (StateM W) Unit) := by
  cases target with
  | none => exact fails_pure ()
  | some number => exact reports_writeVariable number value

/-- The result of an instruction is delivered to its variable. -/
theorem reports_store (instruction : Instruction) (value : Word) :
    Reports (store instruction value : Play (StateM W) Unit) := reports_storeTo _ _

/-- Entering a routine, in a call or in an interrupt. -/
theorem reports_enter (memory : Memory) (address : Nat) (arguments : List Word) (returnPc : Nat)
    (target : Option UInt8) (pending : Option PendingRead) :
    Reports (do
      setPc (← onStack (CallStack.call memory address arguments returnPc target pending)) :
      Play (StateM W) Unit) :=
  (reports_onStack (CallStack.reports_call _ _ _ _ _ _)).bind fun _ => fails_setPc _

/-- Calling routine zero only delivers a result; any other call enters a frame. -/
theorem reports_call (routine : Word) (arguments : List Word) (target : Option UInt8) :
    Reports (call routine arguments target : Play (StateM W) Unit) :=
  .ite (reports_storeTo target 0) (fails_get.bind fun _ => reports_enter _ _ _ _ _ _)

/-- The routine of a read that has timed out is entered like any other. -/
theorem reports_interrupt (routine : Word) (pending : PendingRead) :
    Reports (interrupt routine pending : Play (StateM W) Unit) :=
  fails_get.bind fun _ => reports_enter _ _ _ _ _ _

/-- Returning fails from the main routine, or where the value cannot be delivered. -/
theorem reports_ret (value : Word) : Reports (ret value : Play (StateM W) Unit) := by
  refine (reports_onStack CallStack.reports_ret).bind fun frame => (fails_setPc _).bind fun _ => ?_
  cases frame.pending with
  | some pending => exact fails_modify _
  | none => exact fails_get.bind fun _ => .ite (fails_modify _) (reports_storeTo _ _)

/-- A branch returns from the routine or goes somewhere. -/
theorem reports_jump (target : BranchTarget) : Reports (jump target : Play (StateM W) Unit) := by
  cases target with
  | returnFalse => exact reports_ret 0
  | returnTrue => exact reports_ret 1
  | address address => exact fails_setPc address

/-- A branch that is not taken cannot fail. -/
theorem reports_branch (instruction : Instruction) (outcome : Bool) :
    Reports (branch instruction outcome : Play (StateM W) Unit) := by
  unfold branch
  cases instruction.branch with
  | none => exact fails_pure ()
  | some branch => exact .ite (reports_jump _) (fails_pure ())

/-- How a save went is stored, or told by a branch. -/
theorem reports_report (instruction : Instruction) (value : Word) :
    Reports (report instruction value : Play (StateM W) Unit) :=
  .ite (reports_store instruction value) (reports_branch instruction _)

/-- An instruction on object zero warns. -/
theorem reports_isObject (object : Word) (opcode : Opcode) :
    Reports (isObject object opcode : Play (StateM W) Bool) :=
  .ite ((reports_warn _).bind fun _ => fails_pure false) (fails_pure true)

/-! ## Printing -/

/-- Printing codes reports what the streams report. -/
theorem reports_printCodes (codes : List Word) :
    Reports (printCodes codes : Play (StateM W) Unit) :=
  fails_get.bind fun _ => reports_onStreams (Streams.reports_print _ _)

/-- Printing a text reports what the streams report. -/
theorem reports_printText (text : String) : Reports (printText text : Play (StateM W) Unit) :=
  fails_get.bind fun _ => reports_printCodes _

/-- Printing packed text reports what reading it does. -/
theorem reports_printAt (address : Nat) : Reports (printAt address : Play (StateM W) Unit) :=
  fails_get.bind fun machine => (fails_ofExcept (machine.codec.reported_decode _ _)).bind
    fun _ => reports_printCodes _

/-- The name of an object is read from its description and decoded. -/
theorem reports_objectName (object : Word) :
    Reports (objectName object : Play (StateM W) String) :=
  fails_get.bind fun machine =>
    (fails_look fun memory => machine.objects.reported_nameIsEmpty memory object).bind fun _ =>
      .ite (fails_pure "") <|
        (fails_look fun memory => machine.objects.reported_name memory object).bind fun _ =>
          (fails_ofExcept (machine.codec.reported_decode _ _)).bind fun _ => fails_pure _

/-- A global variable lies in the image or is out of bounds. -/
theorem reports_readGlobal (machine : Machine) (number : UInt8) :
    Reports (look (·.readWord (globalAddress machine number)) : Play (StateM W) Word) :=
  fails_look fun memory => memory.reported_readWord _

/-- The line of the status is made of three globals and a name. -/
theorem reports_statusLine : Reports (statusLine : Play (StateM W) StatusLine) := by
  have hright (location : String) (machine : Machine) : Reports (do
      let first ← look (·.readWord (globalAddress machine 17))
      let second ← look (·.readWord (globalAddress machine 18))
      let flags ← view (·.headerByte .flags1)
      let right : StatusRight :=
        if flags &&& 0x02 ≠ 0 then .time first second else .score first.signed second
      return { location, right } : Play (StateM W) StatusLine) :=
    (reports_readGlobal _ _).bind fun _ => (reports_readGlobal _ _).bind fun _ =>
      (fails_view _).bind fun _ => fails_pure _
  refine fails_get.bind fun machine => (reports_readGlobal _ _).bind fun place => ?_
  exact .ite ((fails_pure "").bind fun location => hright location machine)
    ((reports_objectName place).bind fun location => hright location machine)

/-- Showing the status does nothing after version 3, and otherwise reads its line. -/
theorem reports_showStatus : Reports (showStatus : Play (StateM W) Unit) :=
  (fails_view _).bind fun _ => .ite (reports_statusLine.bind fun _ => fails_ask _) (fails_pure ())

/-- Bytes that are printed have to lie in the image. -/
theorem reports_printBytes (address length : Nat) :
    Reports (printBytes address length : Play (StateM W) Unit) :=
  (fails_look fun memory => memory.reported_slice _ _).bind fun _ => reports_printCodes _

/-- The rows of a table are printed one after another. -/
theorem reports_printRows (width skip rows address : Nat) :
    Reports (printRows width skip rows address : Play (StateM W) Unit) := by
  induction rows generalizing address with
  | zero => exact fails_pure ()
  | succ rows ih =>
      exact (reports_printCodes [13]).bind fun _ => (reports_printBytes address width).bind fun _ =>
        ih (address + width + skip)

/-- A table is printed row by row, if it has any. -/
theorem reports_printTable (text width height skip : Word) :
    Reports (printTable text width height skip : Play (StateM W) Unit) :=
  .ite ((reports_printBytes _ _).bind fun _ => reports_printRows _ _ _ _) (fails_pure ())

/-- A form without an end runs out of memory. -/
theorem reports_printRecords (left address : Nat) :
    Reports (printRecords left address : Play (StateM W) Unit) := by
  induction left generalizing address with
  | zero => exact fails_look fun _ => failsAs_error rfl
  | succ left ih =>
      refine (fails_look fun memory => memory.reported_readWord _).bind fun length =>
        .ite ?_ (fails_pure ())
      exact (reports_printBytes _ _).bind fun _ => (reports_printCodes [13]).bind fun _ => ih _

/-- A form is printed record by record. -/
theorem reports_printForm (table : Word) : Reports (printForm table : Play (StateM W) Unit) :=
  (fails_view _).bind fun _ => reports_printRecords _ _

/-! ## Reading -/

/-- The place of the mouse is written to the header extension. -/
theorem reports_recordMouse : Reports (recordMouse : Play (StateM W) Unit) :=
  (fails_ask _).bind fun _ => reports_edit <|
    .bind (Header.reports_setExtensionWord _ _) fun _ => Header.reports_setExtensionWord _ _

/-- The text of a buffer is read for an instruction. -/
theorem reports_readText (address : Nat) :
    Reports (look (TextBuffer.readText · address) : Play (StateM W) (List Word)) :=
  fails_look fun memory => TextBuffer.reported_readText memory address

/-- The room of a buffer is read for an instruction. -/
theorem reports_capacity (address : Nat) :
    Reports (look (TextBuffer.capacity · address) : Play (StateM W) Nat) :=
  fails_look fun memory => TextBuffer.reported_capacity memory address

/-- Cutting text into words fails at the buffer, at the dictionary or at the parse buffer. -/
theorem reports_tokenise (text parse dictionary : Nat) (skipUnknown : Bool) :
    Reports (tokenise text parse dictionary skipUnknown : Play (StateM W) Unit) := by
  have hwrite (found : Tokenised) (version : Nat) : Reports (do
      modify fun machine => { machine with dictionaries := found.dictionaries }
      edit (TextBuffer.writeLexemes parse found.lexemes (TextBuffer.textOffset version)
        skipUnknown) : Play (StateM W) Unit) :=
    (fails_modify _).bind fun _ => reports_edit (TextBuffer.reports_writeLexemes _ _ _ _)
  refine (reports_readText text).bind fun codes => fails_get.bind fun machine =>
    (fails_ofExcept (machine.dictionaries.reported_tokenise _ _ _ _ _)).bind fun found => ?_
  dsimp only
  cases found.indexedKeys with
  | none => exact hwrite found _
  | some keys => exact (fails_note _).bind fun _ => hwrite found _

/-- A line that was typed is put into the buffers, and its terminator delivered. -/
theorem reports_finishLine (pending : LineRead) (text : String) (terminator : Word) :
    Reports (finishLine pending text terminator : Play (StateM W) Unit) := by
  have hmouse : Reports (do
      if isMouseClick terminator then recordMouse
      storeTo pending.store terminator : Play (StateM W) Unit) :=
    .ite (reports_recordMouse.bind fun _ => reports_storeTo _ _) (reports_storeTo _ _)
  refine (reports_capacity pending.text).bind fun room => fails_get.bind fun machine =>
    (reports_onStreams (Streams.reports_recordInput text)).bind fun _ =>
      (reports_edit (TextBuffer.reports_writeText _ _)).bind fun _ => .ite ?_ hmouse
  exact (fails_view _).bind fun _ => (reports_tokenise _ _ _ _).bind fun _ => hmouse

/-- What stands in the input line before is read from the buffer, or was typed before. -/
theorem reports_initialText (pending : LineRead) :
    Reports (initialText pending : Play (StateM W) String) :=
  (fails_view _).bind fun _ => .ite
    (fails_get.bind fun _ => (reports_readText _).bind fun _ => fails_pure _) (fails_pure _)

/-- What becomes of the end of a line read. -/
theorem reports_lineInput (pending : LineRead) (input : LineInput) : Reports (
    match input with
    | .done text terminator => finishLine pending text terminator
    | .timedOut typed =>
      if pending.routine = 0 then finishLine pending typed 0
      else do
        note (.remark s!"line read timed out with {Quoted.quote typed}")
        interrupt pending.routine (.line { pending with typed }) : Play (StateM W) Unit) := by
  cases input with
  | done text terminator => exact reports_finishLine pending text terminator
  | timedOut typed =>
      exact .ite (reports_finishLine pending typed 0)
        ((fails_note _).bind fun _ => reports_interrupt _ _)

/-- A line is read from the record or from the player, and reported on in either case. -/
theorem reports_lineRead (pending : LineRead) :
    Reports (lineRead pending : Play (StateM W) Unit) := by
  refine reports_showStatus.bind fun _ => (reports_capacity pending.text).bind fun room =>
    (reports_initialText pending).bind fun initial =>
      (reports_edit TextBuffer.reports_terminators).bind fun terminators =>
        (reports_onStreams Streams.reports_replayLine).bind fun line => ?_
  cases line with
  | none => exact (fails_ask _).bind (reports_lineInput pending)
  | some line =>
      exact (fails_ask _).bind fun _ => (fails_ask _).bind fun _ => (fails_pure _).bind (reports_lineInput pending)

/-- A key that was pressed is delivered; none in time runs a routine. -/
theorem reports_charRead (pending : CharRead) :
    Reports (charRead pending : Play (StateM W) Unit) := by
  refine (fails_ask _).bind fun input => ?_
  cases input with
  | key code =>
      exact .ite (reports_recordMouse.bind fun _ => reports_storeTo _ _) (reports_storeTo _ _)
  | timedOut => exact .ite (reports_storeTo _ _) (reports_interrupt _ _)

/-- A read that has waited goes on as its kind does. -/
theorem reports_resumeRead (value : Word) (pending : PendingRead) :
    Reports (resumeRead value pending : Play (StateM W) Unit) := by
  cases pending with
  | line pending =>
      exact .ite (reports_lineRead pending) <| (fails_note _).bind fun _ =>
        (reports_edit (TextBuffer.reports_writeText _ _)).bind fun _ => reports_storeTo _ _
  | char pending => exact .ite (reports_charRead pending) (reports_storeTo _ _)

/-! ## Saving and going back -/

/-- A file that cannot be read is an answer, not a fault. -/
theorem fails_readFile (purpose : Purpose) :
    Fails P (readFile purpose : Play (StateM W) (Except Fault (List UInt8))) := by
  refine (fails_ask _).bind fun file => ?_
  cases file with
  | none => exact fails_pure _
  | some file =>
      refine (fails_ask _).bind fun read => ?_
      cases read with
      | ok bytes => exact fails_pure _
      | error detail => exact fails_pure _

/-- What becomes of the outcome of a write. -/
theorem fails_written (outcome : Except String Unit) : Fails P (
    match outcome with
    | .ok () => return true
    | .error text => do
      note (.warning s!"write failed: {text}")
      return false : Play (StateM W) Bool) := by
  cases outcome with
  | ok _ => exact fails_pure true
  | error text => exact (fails_note _).bind fun _ => fails_pure false

/-- A file that cannot be written is an answer too. -/
theorem fails_writeFile (purpose : Purpose) (bytes : List UInt8) :
    Fails P (writeFile purpose bytes : Play (StateM W) Bool) := by
  refine (fails_ask _).bind fun file => ?_
  cases file with
  | none => exact fails_pure false
  | some file =>
      refine (fails_ask _).bind fun written => ?_
      cases written with
      | ok _ => exact (fails_ask _).bind fails_written
      | error text => exact (fails_pure _).bind fails_written

/-- Making a snapshot does not fail. -/
theorem fails_capture (pc : Nat) (compressed : Bool) (remark : Option String) :
    Fails P (capture pc compressed remark : Play (StateM W) (List UInt8)) :=
  fails_get.bind fun _ => (fails_note _).bind fun _ => fails_pure _

/-- A status line that cannot be had is left out of a remark. -/
theorem fails_remark : Fails P (remark : Play (StateM W) String) := by
  refine (fails_view _).bind fun version => (fails_ask _).bind fun stamp =>
    .ite (fails_pure _) (.bind (.tryCatch (Q := fun _ => True) ?_ fun fault _ => ?_) fun early => ?_)
  · refine Fails.bind (reports_statusLine.imp fun _ _ => trivial) fun status => ?_
    cases status.right with
    | score score moves => exact fails_pure (Except.error _)
    | time hours minutes => exact fails_pure (Except.error _)
  · exact (fails_note _).bind fun _ => fails_pure (Except.error _)
  · cases early <;> exact fails_pure _

/-- A game that cannot be saved is reported to the story. -/
theorem reports_saveGame (instruction : Instruction) :
    Reports (saveGame instruction : Play (StateM W) Unit) := by
  refine fails_remark.bind fun text => (fails_capture _ _ _).bind fun snapshot =>
    (fails_writeFile _ _).bind fun saved => .ite ?_ (reports_report _ _)
  exact (fails_note _).bind fun _ => reports_report _ _

/-- Part of memory that is saved has to lie in the image. -/
theorem reports_saveAuxiliary (table length : Word) :
    Reports (saveAuxiliary table length : Play (StateM W) Word) :=
  (fails_look fun memory => memory.reported_slice _ _).bind fun _ =>
    (fails_writeFile _ _).bind fun _ => .ite (fails_pure _) (fails_pure _)

/-- Part of memory that is restored has to lie in dynamic memory. -/
theorem reports_restoreAuxiliary (table length : Word) :
    Reports (restoreAuxiliary table length : Play (StateM W) Word) := by
  refine (fails_readFile .auxiliary).bind fun read => ?_
  cases read with
  | error fault => exact (fails_note _).bind fun _ => fails_pure 0
  | ok bytes => exact (reports_edit (Edit.reports_writeBytes _ _)).bind fun _ => fails_pure _

/-- Keeping an undo generation fails only where its result cannot be delivered. -/
theorem reports_saveUndo (instruction : Instruction) :
    Reports (saveUndo instruction : Play (StateM W) Unit) :=
  fails_get.bind fun _ => (fails_capture _ _ _).bind fun _ => (fails_note _).bind fun _ =>
    (fails_modify _).bind fun _ => reports_store _ _

/-- The instruction that made a snapshot is finished at an address that the snapshot gives. -/
theorem reports_completeRestore (result : Nat) :
    Reports (completeRestore result : Play (StateM W) Unit) := by
  refine (fails_view _).bind fun version => .ite ?_ ?_
  · exact (fails_look fun memory => memory.reported_readByte _).bind fun _ =>
      (fails_setPc _).bind fun _ => reports_writeVariable _ _
  · exact (fails_look fun memory => Branch.reported_decode memory _).bind fun _ =>
      (fails_setPc _).bind fun _ => .ite (reports_jump _) (fails_pure ())

/-- The faults that are told to somebody: to the player, or to a story that tried to go back. -/
abbrev Told (kind : FaultKind) : Prop := kind ≠ .arithmeticOverflow

/-- A fault that halts the machine is told to the player. -/
theorem told_of_isReported {kind : FaultKind} (h : kind.isReported = true) : Told kind := by
  rintro rfl
  exact nomatch h

/-- A fault that does not halt the machine is told to the story. -/
theorem told_of_harmless {kind : FaultKind} (h : kind.isFatal = false) : Told kind := by
  rintro rfl
  exact nomatch h

/-- **A snapshot is turned down aloud.** -/
theorem told_parse (bytes : List UInt8) (memory : Memory) :
    FailsAs Told (Snapshot.parse bytes memory) := by
  by_cases h : Snapshot.Overflows bytes memory
  · rw [Snapshot.parse_of_overflows h]
    exact failsAs_error nofun
  · exact (Snapshot.recoverable_parse h).imp fun _ => told_of_harmless

/-- Going back to a snapshot fails by telling somebody. -/
theorem told_applySnapshot (bytes : List UInt8) :
    Fails Told (applySnapshot bytes : Play (StateM W) Unit) := by
  have htold {γ : Type} {work : Play (StateM W) γ} (h : Reports work) : Fails Told work :=
    h.imp fun _ => told_of_isReported
  have hback : Fails Told (do
      let restored ← look (Snapshot.parse bytes)
      let machine ← get
      let kept := keptFlags machine.memory
      let memory ← MonadExcept.ofExcept (machine.memory.setDynamic restored.dynamic)
      set { machine with memory }
      edit (Header.setUp machine.info machine.options)
      edit (Edit.change (restoreFlags kept))
      modify fun machine =>
        { machine with stack := restored.stack, resume := none, dictionaries := {} }
      note (.remark s!"restored to {Numeral.marked 5 restored.pc}")
      completeRestore restored.pc : Play (StateM W) Unit) :=
    (fails_look (told_parse bytes)).bind fun restored => fails_get.bind fun machine =>
      (htold (fails_ofExcept (machine.memory.reported_setDynamic _))).bind fun _ =>
        (fails_set _).bind fun _ => (htold (reports_edit (Header.reports_setUp _ _))).bind fun _ =>
          (htold (reports_edit (Edit.reports_change _))).bind fun _ =>
            (fails_modify _).bind fun _ => (fails_note _).bind fun _ =>
              htold (reports_completeRestore _)
  unfold applySnapshot
  cases Snapshot.surplusNotice? bytes with
  | none => exact hback
  | some notice => exact (fails_note notice).bind fun _ => hback

/-- So does undoing. -/
theorem told_undo : Fails Told (undo : Play (StateM W) Unit) := by
  refine fails_get.bind fun machine => ?_
  cases machine.undo.pop? with
  | none => exact fails_throw nofun
  | some pair =>
      refine (fails_modify _).bind fun _ => .bind (.tryCatch (told_applySnapshot pair.1) ?_)
        fun _ => fails_modify _
      intro fault hfault
      exact (fails_modify _).bind fun _ => fails_throw hfault

/-- A file of the host is read, or it is not available. -/
theorem play_readFile (host : Host (StateM W)) (machine : Machine) (w : W) (purpose : Purpose) :
    ∃ read v, machine.play host (readFile purpose) w = ((.ok read, machine), v) ∧
      FailsAs (· = .fileUnavailable) read := by
  unfold readFile
  rw [play_bind_of_ok (play_ask machine host w _)]
  cases (host.openForRead purpose w).1 with
  | none => exact ⟨_, _, rfl, failsAs_error rfl⟩
  | some file =>
      dsimp only
      rw [play_bind_of_ok (play_ask machine host _ _)]
      cases (host.readAll file (host.openForRead purpose w).2).1 with
      | ok bytes => exact ⟨_, _, rfl, failsAs_ok bytes⟩
      | error detail => exact ⟨_, _, rfl, failsAs_error rfl⟩

/-- So does restoring the file of the host. -/
theorem told_reloadFile : Fails Told (reloadFile : Play (StateM W) Unit) := by
  intro host machine w
  obtain ⟨read, v, hread, hkind⟩ := play_readFile host machine w .saveGame
  have htold : FailsAs Told read := by
    refine hkind.imp ?_
    rintro _ rfl
    exact nofun
  rw [reloadFile, play_bind_of_ok hread]
  exact (fails_ofExcept htold).bind told_applySnapshot host machine v

/-- What is not caught of an attempt to go back is fatal. -/
theorem reports_reloadOr {work otherwise : Play (StateM W) Unit} {warning : Fault → Notice}
    (h : Fails Told work) (hotherwise : Reports otherwise) :
    Reports (reloadOr work warning otherwise) := by
  refine h.tryCatch fun fault hfault => ?_
  cases hfatal : fault.isFatal with
  | true =>
      refine fails_throw ?_
      have hne : (fault.kind != .arithmeticOverflow) = true := bne_iff_ne.mpr hfault
      have hkind : fault.kind.isFatal = true := hfatal
      rw [FaultKind.isReported, hkind, hne]
      rfl
  | false => exact (fails_note _).bind fun _ => hotherwise

/-- Starting fails in version 6 only, at the header of the main routine. -/
theorem reports_start : Reports (start : Play (StateM W) Unit) :=
  (fails_modify _).bind fun _ => fails_get.bind fun _ =>
    .ite (reports_enter _ _ _ _ _ _) (fails_setPc _)

/-- Starting again fails as setting up and starting do. -/
theorem reports_restart : Reports (restart : Play (StateM W) Unit) :=
  fails_get.bind fun _ => (fails_ask _).bind fun _ => (fails_modify _).bind fun _ =>
    fails_get.bind fun _ => (reports_edit (Header.reports_setUp _ _)).bind fun _ =>
      (reports_edit (Edit.reports_change _)).bind fun _ => (fails_modify _).bind fun _ =>
        (fails_note _).bind fun _ => reports_start

/-! ## What the instructions do -/

/-- Adding to a variable fails at reading or writing it. -/
theorem reports_addToNamed (number amount : Word) :
    Reports (addToNamed number amount : Play (StateM W) Word) :=
  (reports_readNamed _).bind fun _ => (reports_writeNamed _ _).bind fun _ => fails_pure _

/-- A link of an object is read for an instruction. -/
theorem reports_linkOf (object : Word) (opcode : Opcode) (link : Link) :
    Reports (linkOf object opcode link : Play (StateM W) Word) :=
  (reports_isObject _ _).bind fun _ => .ite (fails_get.bind fun machine =>
    fails_look fun memory => machine.objects.reported_link memory _ _) (fails_pure 0)

/-- Whether an object is inside another is a link that is read. -/
theorem reports_isInside (object parent : Word) :
    Reports (isInside object parent : Play (StateM W) Bool) :=
  (reports_isObject _ _).bind fun _ => .ite (fails_get.bind fun machine =>
    (fails_look fun memory => machine.objects.reported_link memory _ _).bind
      fun _ => fails_pure _) (fails_pure false)

/-- An attribute is tested for an instruction. -/
theorem reports_hasAttribute (object number : Word) :
    Reports (hasAttribute object number : Play (StateM W) Bool) :=
  (reports_isObject _ _).bind fun _ => .ite (fails_get.bind fun machine =>
    fails_look fun memory => machine.objects.reported_testAttribute memory _ _) (fails_pure false)

/-- The address of a property is looked up for an instruction. -/
theorem reports_propertyAddress (object number : Word) :
    Reports (propertyAddress object number : Play (StateM W) Word) :=
  (reports_isObject _ _).bind fun _ => .ite (fails_get.bind fun machine =>
    fails_look fun memory => machine.objects.reported_propertyAddress memory _ _) (fails_pure 0)

/-- The value of a property is looked up for an instruction. -/
theorem reports_propertyValue (object number : Word) :
    Reports (propertyValue object number : Play (StateM W) Word) :=
  (reports_isObject _ _).bind fun _ => .ite (fails_get.bind fun machine =>
    (fails_look fun memory => machine.objects.reported_getProperty memory _ _).bind fun _ =>
      .ite ((reports_warn _).bind fun _ => fails_pure _) (fails_pure _)) (fails_pure 0)

/-- The property after another one is looked up for an instruction. -/
theorem reports_propertyAfter (object number : Word) :
    Reports (propertyAfter object number : Play (StateM W) Word) := by
  refine (reports_isObject _ _).bind fun _ => .ite (fails_get.bind fun machine =>
    (fails_look fun memory => machine.objects.reported_nextProperty memory _ _).bind
      fun next => ?_) (fails_pure 0)
  cases next with
  | some next => exact fails_pure next
  | none => exact (reports_warn _).bind fun _ => fails_pure 0

/-- A transcript that follows its flag is selected or deselected, never the lowest stream. -/
theorem reports_syncTranscript : Reports (syncTranscript : Play (StateM W) Unit) := by
  refine (fails_view _).bind fun on => fails_get.bind fun _ => .ite ?_ (fails_pure ())
  refine (reports_onStreams (Streams.reports_select ?_ _ _)).bind fun _ => reports_warnIf _
  split <;> decide

/-- A write into the header warns, unless it is to the second flags. -/
theorem reports_checkWrite (address : Nat) : Reports (checkWrite address : Play (StateM W) Unit) :=
  .ite (reports_warn _) (fails_pure ())

/-- A word is stored in dynamic memory only. -/
theorem reports_storeWord (address : Nat) (value : Word) :
    Reports (storeWord address value : Play (StateM W) Unit) :=
  (reports_checkWrite address).bind fun _ => (reports_edit (Edit.reports_writeWord _ _)).bind
    fun _ => .ite reports_syncTranscript (fails_pure ())

/-- A byte is stored in dynamic memory only. -/
theorem reports_storeByte (address : Nat) (value : UInt8) :
    Reports (storeByte address value : Play (StateM W) Unit) :=
  (reports_checkWrite address).bind fun _ => (reports_edit (Edit.reports_writeByte _ _)).bind
    fun _ => .ite reports_syncTranscript (fails_pure ())

/-- A random number is drawn, or the generator seeded, without a fault. -/
theorem reports_nextRandom (range : Word) : Reports (nextRandom range : Play (StateM W) Word) := by
  have hseed (seed : UInt32) : Reports (do
      modify fun machine => { machine with random := .ofSeed seed }
      return 0 : Play (StateM W) Word) := (fails_modify _).bind fun _ => fails_pure 0
  exact .ite (fails_get.bind fun _ => (fails_modify _).bind fun _ => fails_pure _)
    (.ite ((fails_ask _).bind hseed) ((fails_pure _).bind hseed))

/-- A text that is packed as a key is read from memory and written to it. -/
theorem reports_encodeText (text length start destination : Word) :
    Reports (encodeText text length start destination : Play (StateM W) Unit) :=
  (fails_look fun memory => memory.reported_slice _ _).bind fun _ => fails_get.bind fun _ =>
    reports_edit (Edit.reports_writeBytes _ _)

/-- Two words are written one after the other. -/
theorem reports_writePair (address first second : Word) :
    Reports (writePair address first second : Play (StateM W) Unit) :=
  reports_edit <| .bind (Edit.reports_writeWord _ _) fun _ => Edit.reports_writeWord _ _

/-- A call without a routine is a fault of the operands. -/
theorem reports_callWith (operands : List Word) (target : Option UInt8) :
    Reports (callWith operands target : Play (StateM W) Unit) := by
  cases operands with
  | nil => exact fails_throw rfl
  | cons routine arguments => exact reports_call routine arguments target

/-- A word is taken from the stack if the frame owns one. -/
theorem reports_pop : Reports (onStack CallStack.pop : Play (StateM W) Word) :=
  reports_onStack CallStack.reports_pop

/-- A word is pulled from the stack, or in version 6 from a stack in memory. -/
theorem reports_pull (instruction : Instruction) (operands : List Word) :
    Reports (pull instruction operands : Play (StateM W) Unit) := by
  refine (fails_view _).bind fun version =>
    .ite ?_ (reports_pop.bind fun _ => reports_writeNamed _ _)
  cases operands with
  | nil => exact reports_pop.bind fun _ => reports_store _ _
  | cons stack rest =>
      exact (reports_edit (Table.reports_pullFrom _)).bind fun _ => reports_store _ _

/-- Words are dropped from the stack, or from a stack in memory. -/
theorem reports_popStack (operands : List Word) :
    Reports (popStack operands : Play (StateM W) Unit) := by
  unfold popStack
  split
  · exact reports_edit <| .bind (Edit.reports_look fun memory => memory.reported_readWord _)
      fun _ => Edit.reports_writeWord _ _
  · exact reports_onStack (CallStack.reports_popMany _)

/-- A table is searched unless its fields have no length. -/
theorem reports_scanTable (value table count form : Word) :
    Reports (scanTable value table count form : Play (StateM W) Word) :=
  .ite ((reports_warn _).bind fun _ => fails_pure 0)
    ((fails_look fun memory => Table.reported_find? memory _ _ _ _ _).bind fun _ => fails_pure _)

/-- What can be done with a character is asked of the host. -/
theorem reports_unicodeSupport (number : Word) :
    Reports (unicodeSupport number : Play (StateM W) Word) := by
  unfold unicodeSupport
  cases charOf? number.toNat with
  | some c => exact fails_ask _
  | none => exact fails_pure 0

/-- An output stream is selected by its lowest number. -/
def SelectsLowest (instruction : Instruction) (operands : List Word) : Prop :=
  instruction.opcode = .outputStream ∧ operandAt operands 0 = 0x8000

/-- No other word has the signed value of the lowest. -/
theorem signed_ne_lowest {word : Word} (h : word ≠ 0x8000) : word.signed ≠ -32768 := by
  intro hsigned
  have hword : word.toInt16 = Int16.ofInt (-32768) := by
    rw [← hsigned]
    exact (Int16.ofInt_toInt _).symm
  exact h (congrArg Int16.toUInt16 hword)

/-- **An output stream other than the lowest is selected with reported faults only.** -/
theorem reports_selectOutput {operands : List Word} (h : operandAt operands 0 ≠ 0x8000) :
    Reports (selectOutput operands : Play (StateM W) Unit) :=
  (fails_view _).bind fun _ =>
    (reports_onStreams (Streams.reports_select (signed_ne_lowest h) _ _)).bind
      fun _ => reports_warnIf _

/-- **What an instruction asks for** is done or ends in a reported fault, unless it selects the
lowest output stream. -/
theorem reports_perform (instruction : Instruction) (operands : List Word)
    (hlowest : ¬SelectsLowest instruction operands) :
    Reports (perform instruction operands : Play (StateM W) Unit) := by
  refine fails_get.bind fun machine => ?_
  unfold SelectsLowest at hlowest
  dsimp only
  cases hopcode : instruction.opcode with
  | je | jl | jg | jz | test | piracy | makeMenu => exact reports_branch _ _
  | or | and | not | add | sub | mul | logShift | artShift | bufferScreen =>
      exact reports_store _ _
  | div => exact (fails_ofExcept (Word.reported_divide _ _)).bind fun _ => reports_store _ _
  | mod => exact (fails_ofExcept (Word.reported_modulo _ _)).bind fun _ => reports_store _ _
  | random => exact (reports_nextRandom _).bind fun _ => reports_store _ _
  | store => exact reports_writeNamed _ _
  | load => exact (reports_readNamed _).bind fun _ => reports_store _ _
  | inc | dec => exact (reports_addToNamed _ _).bind fun _ => fails_pure _
  | incChk | decChk => exact (reports_addToNamed _ _).bind fun _ => reports_branch _ _
  | push => exact reports_onStack (CallStack.reports_push _)
  | pull => exact reports_pull _ _
  | pop => exact reports_pop.bind fun _ => fails_pure _
  | popStack => exact reports_popStack _
  | pushStack =>
      exact (reports_edit (Table.reports_pushOnto _ _)).bind fun _ => reports_branch _ _
  | call1s | call2s | callVs | callVs2 | call1n | call2n | callVn | callVn2 =>
      exact reports_callWith _ _
  | ret | rtrue | rfalse => exact reports_ret _
  | retPopped => exact reports_pop.bind fun _ => reports_ret _
  | catchFrame => exact fails_get.bind fun _ => reports_store _ _
  | throwFrame =>
      exact (reports_onStack (CallStack.reports_unwind _)).bind fun _ => reports_ret _
  | jump => exact fails_setPc _
  | checkArgCount => exact fails_get.bind fun _ => reports_branch _ _
  | nop | pictureTable => exact fails_pure ()
  | verify => exact (fails_view _).bind fun _ => reports_branch _ _
  | quit => exact fails_modify _
  | jin => exact (reports_isInside _ _).bind fun _ => reports_branch _ _
  | testAttr => exact (reports_hasAttribute _ _).bind fun _ => reports_branch _ _
  | setAttr | clearAttr =>
      exact (reports_isObject _ _).bind fun _ =>
        .ite (reports_edit (ObjectTable.reports_setAttribute _ _ _ _)) (fails_pure ())
  | insertObj =>
      exact (reports_isObject _ _).bind fun _ => .ite ((reports_isObject _ _).bind fun _ =>
        .ite (reports_edit (ObjectTable.reports_insert _ _ _)) (fails_pure ())) (fails_pure ())
  | removeObj =>
      exact (reports_isObject _ _).bind fun _ =>
        .ite (reports_edit (ObjectTable.reports_remove _ _)) (fails_pure ())
  | getSibling | getChild =>
      exact (reports_linkOf _ _ _).bind fun _ => (reports_store _ _).bind fun _ =>
        reports_branch _ _
  | getParent => exact (reports_linkOf _ _ _).bind fun _ => reports_store _ _
  | getProp => exact (reports_propertyValue _ _).bind fun _ => reports_store _ _
  | getPropAddr => exact (reports_propertyAddress _ _).bind fun _ => reports_store _ _
  | getNextProp => exact (reports_propertyAfter _ _).bind fun _ => reports_store _ _
  | getPropLen =>
      exact (fails_look fun memory => machine.objects.reported_propertyLength memory _).bind
        fun _ => reports_store _ _
  | putProp =>
      exact (reports_isObject _ _).bind fun _ =>
        .ite ((reports_edit (ObjectTable.reports_putProperty _ _ _ _)).bind fun _ =>
          .ite (reports_warn _) (fails_pure ())) (fails_pure ())
  | loadw =>
      exact (fails_look fun memory => memory.reported_readWord _).bind fun _ => reports_store _ _
  | loadb =>
      exact (fails_look fun memory => memory.reported_readByte _).bind fun _ => reports_store _ _
  | storew => exact reports_storeWord _ _
  | storeb => exact reports_storeByte _ _
  | scanTable =>
      exact (reports_scanTable _ _ _ _).bind fun _ => (reports_store _ _).bind fun _ =>
        reports_branch _ _
  | copyTable => exact reports_edit (Table.reports_copy _ _ _)
  | print =>
      dsimp only
      cases instruction.text with
      | some address => exact reports_printAt address
      | none => exact fails_pure ()
  | printRet =>
      have hend : Reports (do printCodes [13]; ret 1 : Play (StateM W) Unit) :=
        (reports_printCodes [13]).bind fun _ => reports_ret 1
      dsimp only
      cases instruction.text with
      | some address => exact (reports_printAt address).bind fun _ => hend
      | none => exact hend
  | printAddr => exact reports_printAt _
  | printPaddr => exact (fails_view _).bind fun _ => reports_printAt _
  | printObj =>
      refine (reports_isObject _ _).bind fun _ => .ite ?_ (fails_pure ())
      refine (fails_look fun memory => machine.objects.reported_nameIsEmpty memory _).bind
        fun _ => .ite ?_ (fails_pure ())
      exact (fails_look fun memory => machine.objects.reported_name memory _).bind
        fun _ => reports_printAt _
  | printChar | newLine => exact reports_printCodes _
  | printNum => exact reports_printText _
  | printUnicode => exact fails_get.bind fun _ => reports_printCodes _
  | printTable => exact reports_printTable _ _ _ _
  | printForm => exact reports_printForm _
  | encodeText => exact reports_encodeText _ _ _ _
  | tokenise =>
      exact .ite ((fails_view _).bind fun _ => reports_tokenise _ _ _ _)
        ((fails_pure _).bind fun _ => reports_tokenise _ _ _ _)
  | read => exact reports_lineRead _
  | readChar =>
      exact .ite ((reports_warn _).bind fun _ => reports_charRead _) (reports_charRead _)
  | inputStream =>
      exact (reports_onStreams (Streams.reports_selectInput _)).bind fun _ => reports_warnIf _
  | readMouse =>
      exact (fails_ask _).bind fun _ => (reports_writePair _ _ _).bind fun _ => reports_edit <|
        .bind (Edit.reports_writeWord _ _) fun _ => Edit.reports_writeWord _ _
  | save =>
      exact .ite ((reports_saveAuxiliary _ _).bind fun _ => reports_store _ _)
        (reports_saveGame _)
  | restore =>
      exact .ite ((reports_restoreAuxiliary _ _).bind fun _ => reports_store _ _)
        (reports_reloadOr told_reloadFile (reports_report _ _))
  | restart => exact reports_restart
  | saveUndo => exact reports_saveUndo _
  | restoreUndo => exact reports_reloadOr told_undo (reports_store _ _)
  | showStatus => exact reports_showStatus
  | outputStream => exact reports_selectOutput fun hoperand => hlowest ⟨hopcode, hoperand⟩
  | getCursor => exact (fails_ask _).bind fun _ => reports_writePair _ _ _
  | setFont | getWindProp => exact (fails_ask _).bind fun _ => reports_store _ _
  | checkUnicode => exact (reports_unicodeSupport _).bind fun _ => reports_store _ _
  | pictureData =>
      refine (fails_ask _).bind fun size => ?_
      cases size with
      | some size => exact (reports_writePair _ _ _).bind fun _ => reports_branch _ _
      | none => exact reports_branch _ _
  | bufferMode | setTextStyle | setColour | setTrueColour | setCursor | eraseWindow | eraseLine
  | splitWindow | setWindow | setMargins | moveWindow | windowSize | windowStyle | putWindProp
  | scrollWindow | mouseWindow | drawPicture | erasePicture | soundEffect => exact fails_ask _

/-- Fetching fails at decoding or at the operands. -/
theorem reports_fetch : Reports (fetch : Play (StateM W) (Instruction × List Word)) :=
  fails_get.bind fun machine => (fails_set _).bind fun _ =>
    (fails_ofExcept (Instruction.reported_decode machine.memory machine.pc)).bind fun _ =>
      (fails_ask _).bind fun _ => (fails_setPc _).bind fun _ =>
        (reports_operandValues _).bind fun _ => fails_pure _

/-! ## One step -/

/-- The next thing the machine does is to select the lowest output stream. -/
def BreaksOff (host : Host (StateM W)) (machine : Machine) (w : W) : Prop :=
  machine.resume = none ∧ ∃ instruction operands poised v,
    machine.play host fetch w = ((.ok (instruction, operands), poised), v) ∧
      SelectsLowest instruction operands

/-- The fault of asking for the absolute value of the lowest number. -/
def lowestFault : Fault :=
  { kind := .arithmeticOverflow, detail := "ABSOLUTE VALUE OF -32768" }

section

variable {host : Host (StateM W)} {machine : Machine} {w : W}

/-- **A step that does not break off fails with a reported fault only.** -/
theorem reported_step (h : ¬BreaksOff host machine w) :
    Reported (machine.play host step w).1.1 := by
  cases hresume : machine.resume with
  | some read =>
      obtain ⟨pending, value⟩ := read
      rw [play_step_of_resume hresume]
      exact reports_resumeRead value pending host _ w
  | none =>
      have hfetch := @reports_fetch W host machine w
      rw [play_step_of_fetch hresume, play_bind]
      rcases hrun : machine.play host fetch w with ⟨⟨fault | ⟨instruction, operands⟩, poised⟩, v⟩ <;>
        rw [hrun] at hfetch
      · exact failsAs_error (hfetch fault rfl)
      · have hlowest : ¬SelectsLowest instruction operands := fun hlowest =>
          h ⟨hresume, instruction, operands, poised, v, hrun, hlowest⟩
        have hcarry : Reports (carryOut instruction operands : Play (StateM W) Unit) :=
          .ite (fails_throw rfl) (reports_perform instruction operands hlowest)
        exact hcarry host poised v

/-- Selecting the lowest output stream stops at once, with the machine as it was. -/
theorem play_select_lowest (machine : Machine) (operands : List Word)
    (h : operandAt operands 0 = 0x8000) :
    machine.play host (selectOutput operands) w = ((.error lowestFault, machine), w) := by
  rw [selectOutput, play_bind_of_ok (play_view machine host w _), h]
  rfl

/-- The machine breaks off when the operands of the instruction have been taken. -/
theorem play_step_of_selectsLowest {instruction : Instruction} {operands : List Word}
    {poised : Machine} {v : W} (hresume : machine.resume = none)
    (hfetch : machine.play host fetch w = ((.ok (instruction, operands), poised), v))
    (hlowest : SelectsLowest instruction operands) :
    machine.play host step w = ((.error lowestFault, poised), v) := by
  obtain ⟨hopcode, hoperand⟩ := hlowest
  have hcount := Instruction.count_ne_op2 (fetched_of_play hfetch).decode_eq (.inr (.inr hopcode))
  rw [play_step_of_fetch hresume, play_bind_of_ok hfetch]
  show poised.play host (carryOut instruction operands) v = _
  rw [carryOut, if_neg fun hboth => hcount hboth.1, perform,
    play_bind_of_ok (play_get poised host v), hopcode]
  exact play_select_lowest poised operands hoperand

/-- A step that breaks off stops with that fault. -/
theorem play_step_of_breaksOff (h : BreaksOff host machine w) :
    ∃ poised v, machine.play host step w = ((.error lowestFault, poised), v) := by
  obtain ⟨hresume, instruction, operands, poised, v, hfetch, hlowest⟩ := h
  exact ⟨poised, v, play_step_of_selectsLowest hresume hfetch hlowest⟩

/-- **Every fault of a step is fatal.** -/
theorem isFatal_of_step {fault : Fault} {after : Machine} {w' : W}
    (h : machine.play host step w = ((.error fault, after), w')) : fault.isFatal = true := by
  by_cases hbreaks : BreaksOff host machine w
  · obtain ⟨poised, v, hplay⟩ := play_step_of_breaksOff hbreaks
    rw [hplay] at h
    cases h
    rfl
  · have hreported := reported_step hbreaks
    rw [h] at hreported
    exact (Bool.and_eq_true_iff.mp (hreported fault rfl)).1

end

end StoryMachine.Play
