import StoryMachine.Proofs.Soundness

/-!
# One step

A step goes on with a read that waits, or fetches an instruction and carries it out.
Fetching touches nothing but the stack, from which operands may come, and the place
of the machine (`fetched_of_play`).  What is carried out is one of four things: a
plain instruction, a restart, a new undo generation, or an attempt to go back, after
which the story is told of a failure unless that is fatal (`reloadOr`).

Two statements follow.  `sound_of_step` holds of every step: the game stays, and a
sound machine is left where the step goes well, with its stack in order.
`stays_of_step` says more of a step that neither keeps a generation nor goes back,
though it may have tried: undo generations and options stay as well, and there are no
more frames than can be stored.
-/

namespace StoryMachine

variable {W α β : Type}

namespace Machine

/-- A machine with few enough frames for a snapshot.  Calls nest no deeper than
`CallStack.maxFrames`, but a snapshot that was gone back to may hold more frames than that. -/
def Shallow (machine : Machine) : Prop :=
  machine.stack.depth ≤ 0x4000000

/-- A move leaves few enough frames: a call checks their number. -/
theorem Move.shallow {machine after : Machine} (hmove : machine.Move after) (h : machine.Shallow) :
    after.Shallow := by
  cases hmove with
  | stack stack hstack => exact Nat.le_trans hstack.depth_le h
  | enter store pending frame first hentry hdepth =>
      have hone : (machine.stack.entered frame).depth = machine.stack.depth + 1 := rfl
      have hmax : CallStack.maxFrames = 1024 := rfl
      show (machine.stack.entered frame).depth ≤ 0x4000000
      omega
  | ret caller older hcallers hvalues =>
      exact Nat.le_trans (CallStack.Move.leave caller older hcallers hvalues).depth_le h
  | _ => exact h

/-- Moves leave few enough frames. -/
theorem Moves.shallow {machine after : Machine} (hmoves : machine.Moves after)
    (h : machine.Shallow) : after.Shallow := by
  induction hmoves with
  | refl => exact h
  | tail _ hmove ih => exact hmove.shallow ih

/-- An instruction that goes well leaves few enough frames. -/
theorem Finishes.shallow {machine after : Machine} (hfinishes : machine.Finishes after)
    (h : machine.Shallow) : after.Shallow := by
  obtain ⟨middle, hmoves, hlast⟩ := hfinishes
  have hmiddle : middle.Shallow := hmoves.shallow h
  cases hlast <;> exact hmiddle

end Machine

namespace Play

open Machine

/-! ## Fetching -/

/-- Work that touches nothing but the stack, from which it takes `n` words of the current frame
where it goes well. -/
def Takes (n : Nat) (work : Play (StateM W) α) : Prop :=
  ∀ (host : Host (StateM W)) (machine : Machine) (w : W), ∃ outcome stack,
    machine.play host work w = ((outcome, { machine with stack }), w) ∧
      ∀ a, outcome = .ok a → machine.stack.Popped n stack

/-- Work that leaves the machine takes no words. -/
theorem takes_of_unchanged {work : Play (StateM W) α}
    (h : ∀ (host : Host (StateM W)) (machine : Machine) (w : W), ∃ outcome,
      machine.play host work w = ((outcome, machine), w)) : Takes 0 work := by
  intro host machine w
  obtain ⟨outcome, houtcome⟩ := h host machine w
  exact ⟨outcome, machine.stack, houtcome, fun _ _ => .refl _⟩

/-- Work done in turn takes the words of both parts. -/
theorem Takes.bind {work : Play (StateM W) α} {next : α → Play (StateM W) β} {n k : Nat}
    (h : Takes n work) (hnext : ∀ a, Takes k (next a)) : Takes (n + k) (work >>= next) := by
  intro host machine w
  obtain ⟨outcome, stack, hplay, hpopped⟩ := h host machine w
  cases outcome with
  | error fault =>
      exact ⟨.error fault, stack, play_bind_of_error hplay, fun _ hok => nomatch hok⟩
  | ok a =>
      obtain ⟨outcome', stack', hplay', hpopped'⟩ := hnext a host { machine with stack } w
      exact ⟨outcome', stack', (play_bind_of_ok hplay).trans hplay',
        fun b hok => (hpopped a rfl).trans (hpopped' b hok)⟩

theorem takes_pure (a : α) : Takes 0 (pure a : Play (StateM W) α) :=
  takes_of_unchanged fun _ _ _ => ⟨_, rfl⟩

/-- Only variable 0 is taken off the stack. -/
theorem takes_readVariable (number : UInt8) :
    Takes (if number = 0 then 1 else 0) (readVariable number : Play (StateM W) Word) := by
  unfold readVariable
  split
  · intro host machine w
    rw [play_onStack]
    rcases machine.stack.run_pop with ⟨word, hpop, hsize, hvalues⟩ | hpop
    · rw [hpop]
      exact ⟨_, _, rfl, fun _ _ => ⟨rfl, hsize, hvalues⟩⟩
    · rw [hpop]
      exact ⟨_, _, rfl, fun _ hok => nomatch hok⟩
  · split
    · refine takes_of_unchanged fun host machine w => ?_
      rw [play_bind_of_ok (play_get machine host w), play_ofExcept]
      exact ⟨_, rfl⟩
    · refine takes_of_unchanged fun host machine w => ?_
      rw [play_bind_of_ok (play_get machine host w), play_look]
      exact ⟨_, rfl⟩

/-- An operand takes a word if it names the stack. -/
theorem takes_operandValue (operand : Operand) :
    Takes (if operand = .var 0 then 1 else 0) (operandValue operand : Play (StateM W) Word) := by
  cases operand with
  | large value => exact takes_pure value
  | small value => exact takes_pure _
  | var number =>
      simp only [Operand.var.injEq]
      exact takes_readVariable number

/-- The operands take a word for each of them that is variable 0. -/
theorem takes_operandValues (operands : List Operand) :
    Takes (operands.count (.var 0)) (operandValues operands : Play (StateM W) (List Word)) := by
  induction operands with
  | nil => exact takes_pure []
  | cons operand operands ih =>
      rw [List.count_cons, Nat.add_comm]
      simp only [beq_iff_eq]
      exact (takes_operandValue operand).bind fun value => ih.bind fun values => takes_pure _

/-- Decodes the next instruction and takes the values of its operands. -/
def fetch : Play (StateM W) (Instruction × List Word) := do
  let machine ← get
  set { machine with current := machine.pc }
  let instruction ← MonadExcept.ofExcept (Instruction.decode machine.memory machine.pc)
  ask (·.trace instruction)
  setPc instruction.next
  let operands ← operandValues instruction.operands
  return (instruction, operands)

/-- Carries out an instruction that was fetched. -/
def carryOut (instruction : Instruction) (operands : List Word) : Play (StateM W) Unit :=
  if instruction.count = .op2 ∧ operands.length < 2 then
    throw { kind := .badOperands,
            detail := s!"{instruction.opcode.title} WITH {operands.length} OPERANDS" }
  else perform instruction operands

/-- The machine between fetching an instruction and carrying it out. -/
structure Fetched (machine : Machine) (instruction : Instruction) (poised : Machine) : Prop where
  decode_eq : Instruction.decode machine.memory machine.pc = .ok instruction
  popped : machine.stack.Popped (instruction.operands.count (.var 0)) poised.stack
  poised_eq : poised = { machine with
    current := machine.pc, pc := instruction.next, stack := poised.stack }

section

variable {host : Host (StateM W)} {machine after poised : Machine} {w w' v : W}
  {outcome : Except Fault Unit} {instruction : Instruction} {operands : List Word}

/-- **Fetching** touches the stack and the place of the machine, and nothing else. -/
theorem play_fetch (host : Host (StateM W)) (machine : Machine) (w : W) :
    (∃ fault pc stack v, machine.play host fetch w
        = ((.error fault, { machine with current := machine.pc, pc, stack }), v)) ∨
      ∃ instruction operands poised v, machine.play host fetch w
          = ((.ok (instruction, operands), poised), v) ∧ Fetched machine instruction poised := by
  have hplay : machine.play host fetch w
      = Machine.play { machine with current := machine.pc } host (do
        let instruction ← MonadExcept.ofExcept (Instruction.decode machine.memory machine.pc)
        ask (·.trace instruction)
        setPc instruction.next
        let operands ← operandValues instruction.operands
        return (instruction, operands)) w := rfl
  rw [hplay, play_bind, play_ofExcept]
  cases hdecode : Instruction.decode machine.memory machine.pc with
  | error fault => exact .inl ⟨fault, machine.pc, machine.stack, w, rfl⟩
  | ok instruction =>
      obtain ⟨outcome, stack, hvalues, hpopped⟩ := takes_operandValues instruction.operands host
        { machine with current := machine.pc, pc := instruction.next } (host.trace instruction w).2
      dsimp only
      rw [play_bind_of_ok (play_ask _ host w _), play_bind_of_ok (play_setPc _ host _ _)]
      cases outcome with
      | error fault =>
          rw [play_bind_of_error hvalues]
          exact .inl ⟨fault, instruction.next, stack, _, rfl⟩
      | ok operands =>
          rw [play_bind_of_ok hvalues]
          exact .inr ⟨instruction, operands, _, _, rfl, hdecode, hpopped operands rfl, rfl⟩

/-- Fetching leaves the machine ready for the instruction that it decoded. -/
theorem fetched_of_play
    (hplay : machine.play host fetch w = ((.ok (instruction, operands), poised), w')) :
    Fetched machine instruction poised := by
  rcases play_fetch host machine w with
    ⟨fault, pc, stack, v, hfault⟩ | ⟨instruction', operands', poised', v, hok, hfetched⟩
  · rw [hfault] at hplay
    exact nomatch hplay
  · rw [hok] at hplay
    cases hplay
    exact hfetched

/-- Fetching keeps the game, its undo generations and options. -/
theorem Fetched.sameRun (h : Fetched machine instruction poised) : SameRun machine poised := by
  rw [h.poised_eq]
  exact ⟨⟨rfl, rfl⟩, rfl, rfl⟩

/-- The address behind a fetched instruction fits, because the instruction lies in
memory. -/
theorem Fetched.steady (h : Fetched machine instruction poised) (hsound : machine.Sound) :
    poised.Steady := by
  have hnext := Instruction.next_le_of_decode h.decode_eq
  have hstorable : poised.stack.Storable := hsound.storable.move h.popped.move
  rw [h.poised_eq]
  exact ⟨hsound.size_lt, hstorable, Nat.lt_of_le_of_lt hnext hsound.size_lt⟩

/-- Fetching enters no frame. -/
theorem Fetched.shallow (h : Fetched machine instruction poised) (hshallow : machine.Shallow) :
    poised.Shallow := by
  have hmoves := machine.moves_stack (.single h.popped.move)
  exact hmoves.shallow hshallow

/-- What a step consists of. -/
theorem play_step_of_resume {pending : PendingRead} {value : Word}
    (h : machine.resume = some (pending, value)) :
    machine.play host step w
      = Machine.play { machine with resume := none } host (resumeRead value pending) w := by
  unfold step
  rw [play_bind_of_ok (play_get machine host w), h]
  rfl

/-- A step without a read to go on with fetches an instruction and carries it out. -/
theorem play_step_of_fetch (h : machine.resume = none) :
    machine.play host step w
      = machine.play host (fetch >>= fun (instruction, operands) =>
          carryOut instruction operands) w := by
  unfold step fetch
  rw [bind_assoc, play_bind_of_ok (play_get machine host w),
    play_bind_of_ok (play_get machine host w), h]
  simp only [bind_assoc, pure_bind]
  rfl

/-! ## Restarting -/

/-- A snapshot has room for the empty stack. -/
theorem storable_empty : CallStack.Storable {} := by
  refine ⟨rfl, Nat.zero_le _, fun frame hframe => ?_⟩
  rcases CallStack.mem_frames.mp hframe with rfl | hcaller
  · exact ⟨by decide, by decide, by decide⟩
  · exact nomatch hcaller

/-- A story starts with one frame, in version 6 with two. -/
theorem play_start (host : Host (StateM W)) (machine : Machine) (w : W) :
    ∃ outcome pc stack, machine.play host start w = ((outcome, { machine with pc, stack }), w) ∧
      stack.Storable ∧ stack.depth ≤ 2 := by
  unfold start
  rw [play_bind_of_ok (play_modify machine host w _), play_bind_of_ok (play_get _ host w)]
  dsimp only
  split
  · rw [play_bind, play_onStack]
    rcases CallStack.run_call {} machine.memory
        (machine.memory.story.routineAddress (machine.memory.headerWord .initialPC)) [] 0 none none
      with ⟨frame, first, hcall, hentry, -⟩ | ⟨fault, hcall⟩
    · rw [hcall]
      have hreturn : frame.returnPc < 0x1000000 := by
        rw [hentry.returnPc_eq]
        decide
      exact ⟨_, first, _, rfl, storable_empty.entered
        ⟨hreturn, hentry.locals_le, Nat.le_succ_of_le hentry.arguments_le⟩ hentry.size_eq,
        Nat.le_refl 2⟩
    · rw [hcall]
      exact ⟨_, machine.pc, _, rfl, storable_empty, Nat.le_succ 1⟩
  · exact ⟨_, _, _, rfl, storable_empty, Nat.le_succ 1⟩

/-- What a restart leaves.  Where the header of the story cannot be set up, the machine is
where it was; otherwise it has started, even if the main routine cannot be entered. -/
structure Restarted (machine : Machine) (outcome : Except Fault Unit) (after : Machine) : Prop where
  sameRun : SameRun machine after
  started : (outcome ≠ .ok () ∧ after.stack = machine.stack ∧ after.pc = machine.pc ∧
      after.resume = machine.resume ∧ after.halted = machine.halted) ∨
    (after.resume = none ∧ after.halted = none ∧ after.stack.Storable ∧ after.stack.depth ≤ 2)

/-- **A restart sets the header up and starts**, or changes nothing. -/
theorem restarted_of_play (hplay : machine.play host restart w = ((outcome, after), w')) :
    Restarted machine outcome after := by
  unfold restart at hplay
  rw [play_bind_of_ok (play_get machine host w), play_bind_of_ok (play_ask machine host w _),
    play_bind_of_ok (play_modify machine host _ _), play_bind_of_ok (play_get _ host _), play_bind,
    play_edit] at hplay
  have hstory : ((Header.setUp (host.info w).1 machine.options).run machine.memory.reset).2.memory.story
      = machine.memory.story :=
    Header.story_setUp (host.info w).1 machine.options machine.memory.reset
  dsimp only at hplay
  rcases hrun : (Header.setUp (host.info w).1 machine.options).run machine.memory.reset
    with ⟨fault | _, draft⟩ <;> rw [hrun] at hplay hstory
  · cases hplay
    exact ⟨⟨⟨hstory, rfl⟩, rfl, rfl⟩, .inl ⟨nofun, rfl, rfl, rfl, rfl⟩⟩
  · dsimp only at hplay
    rw [play_bind_of_ok (play_edit _ host _ _), play_bind_of_ok (play_modify _ host _ _),
      play_bind_of_ok (play_note _ host _ _)] at hplay
    obtain ⟨outcome', pc, stack, hstart, hstorable, hdepth⟩ := play_start host _ _
    rw [hstart] at hplay
    cases hplay
    exact ⟨⟨⟨hstory, rfl⟩, rfl, rfl⟩, .inr ⟨rfl, rfl, hstorable, hdepth⟩⟩

/-! ## Carrying out -/

/-- Making a snapshot leaves the machine as it is. -/
theorem play_capture (host : Host (StateM W)) (machine : Machine) (w : W) (pc : Nat)
    (compressed : Bool) (remark : Option String) :
    ∃ v, machine.play host (capture pc compressed remark) w
      = ((.ok (Snapshot.capture machine.memory machine.stack pc compressed remark), machine), v) := by
  unfold capture
  rw [play_bind_of_ok (play_get machine host w), play_bind_of_ok (play_note machine host w _)]
  exact ⟨_, rfl⟩

/-- Keeping a generation puts a snapshot on the ring and delivers a result. -/
theorem play_saveUndo (host : Host (StateM W)) (machine : Machine) (w : W)
    (instruction : Instruction) :
    ∃ v, machine.play host (saveUndo instruction) w
      = Machine.play { machine with
          undo := machine.undo.push (Snapshot.capture machine.memory machine.stack
            instruction.result machine.options.compressUndo none) } host
        (store instruction (if machine.undo.isEnabled then 1 else 0xffff)) v := by
  obtain ⟨v, hcapture⟩ :=
    play_capture host machine w instruction.result machine.options.compressUndo none
  unfold saveUndo
  rw [play_bind_of_ok (play_get machine host w), play_bind_of_ok hcapture,
    play_bind_of_ok (play_note machine host v _), play_bind_of_ok (play_modify machine host _ _)]
  exact ⟨_, rfl⟩

/-- Tries something.  Unless it fails fatally, the story is told of the failure. -/
def reloadOr (work : Play (StateM W) Unit) (warning : Fault → Notice)
    (otherwise : Play (StateM W) Unit) : Play (StateM W) Unit :=
  tryCatch work fun fault =>
    if fault.isFatal then throw fault
    else do
      note (warning fault)
      otherwise

/-- What an instruction tries that is to go back to another state. -/
def attempt? (opcode : Opcode) (operands : List Word) : Option (Play (StateM W) Unit) :=
  match opcode with
  | .restore => if 2 ≤ operands.length then none else some reloadFile
  | .restoreUndo => some undo
  | _ => none

/-- What an instruction tries that is to go back ends as any such attempt. -/
theorem reload_of_attempt {work : Play (StateM W) Unit} {opcode : Opcode}
    (h : attempt? opcode operands = some work)
    (hplay : machine.play host work w = ((outcome, after), w')) : Reload machine outcome after := by
  unfold attempt? at h
  split at h
  · split at h
    · exact nomatch h
    · obtain rfl := Option.some.inj h
      exact reload_reloadFile hplay
  · obtain rfl := Option.some.inj h
    exact reload_undo hplay
  · exact nomatch h

/-- A failure that is not fatal has changed nothing. -/
theorem play_reloadOr_of_harmless {work otherwise : Play (StateM W) Unit} {fault : Fault}
    (warning : Fault → Notice) (hwork : machine.play host work w = ((.error fault, machine), v))
    (hfatal : fault.isFatal = false) :
    machine.play host (reloadOr work warning otherwise) w
      = machine.play host otherwise (host.note (warning fault) v).2 := by
  rw [reloadOr, play_tryCatch, hwork]
  dsimp only
  rw [hfatal]
  rfl

/-- What was carried out well had operands enough. -/
theorem play_perform_of_carryOut
    (hplay : machine.play host (carryOut instruction operands) w = ((.ok (), after), w')) :
    machine.play host (perform instruction operands) w = ((.ok (), after), w') := by
  unfold carryOut at hplay
  split at hplay
  · exact nomatch hplay
  · exact hplay

/-- What an instruction asks for: something plain, a restart, a new undo generation, or an attempt
to go back. -/
theorem perform_cases (instruction : Instruction) (operands : List Word) :
    IsPlain instruction.opcode operands ∨
      (instruction.opcode = .restart ∧ ∀ (host : Host (StateM W)) (machine : Machine) (w : W),
        machine.play host (perform instruction operands) w = machine.play host restart w) ∨
      (instruction.opcode = .saveUndo ∧ ∀ (host : Host (StateM W)) (machine : Machine) (w : W),
        machine.play host (perform instruction operands) w
          = machine.play host (saveUndo instruction) w) ∨
      ∃ (work otherwise : Play (StateM W) Unit) (warning : Fault → Notice),
        attempt? instruction.opcode operands = some work ∧
        (otherwise = report instruction 0 ∨ otherwise = store instruction 0) ∧
        ∀ (host : Host (StateM W)) (machine : Machine) (w : W),
          machine.play host (perform instruction operands) w
            = machine.play host (reloadOr work warning otherwise) w := by
  by_cases hplain : IsPlain instruction.opcode operands
  · exact .inl hplain
  right
  cases hopcode : instruction.opcode with
  | restart =>
      refine .inl ⟨rfl, fun host machine w => ?_⟩
      rw [perform, play_bind_of_ok (play_get machine host w), hopcode]
  | saveUndo =>
      refine .inr (.inl ⟨rfl, fun host machine w => ?_⟩)
      rw [perform, play_bind_of_ok (play_get machine host w), hopcode]
  | restoreUndo =>
      refine .inr (.inr ⟨undo, store instruction 0,
        fun fault => .warning s!"undo failed: {fault.message}", rfl, .inr rfl,
        fun host machine w => ?_⟩)
      rw [perform, play_bind_of_ok (play_get machine host w), hopcode]
      rfl
  | restore =>
      have hfew : ¬2 ≤ operands.length := by
        rw [hopcode] at hplain
        exact hplain
      refine .inr (.inr ⟨reloadFile, report instruction 0,
        fun fault => .warning s!"restore failed: {fault.message}", if_neg hfew, .inl rfl,
        fun host machine w => ?_⟩)
      rw [perform, play_bind_of_ok (play_get machine host w), hopcode]
      simp only [if_neg hfew]
      rfl
  | _ =>
      rw [hopcode] at hplain
      exact absurd trivial hplain

/-- **What can be carried out:** a plain instruction, a restart, a new undo generation, or
an attempt to go back. -/
theorem carryOut_cases (instruction : Instruction) (operands : List Word) :
    Ends (carryOut instruction operands : Play (StateM W) Unit) ∨
      (∀ (host : Host (StateM W)) (machine : Machine) (w : W),
        machine.play host (carryOut instruction operands) w = machine.play host restart w) ∨
      (instruction.opcode = .saveUndo ∧ ∀ (host : Host (StateM W)) (machine : Machine) (w : W),
        machine.play host (carryOut instruction operands) w
          = machine.play host (saveUndo instruction) w) ∨
      ∃ (work otherwise : Play (StateM W) Unit) (warning : Fault → Notice),
        attempt? instruction.opcode operands = some work ∧ Ends otherwise ∧
        ∀ (host : Host (StateM W)) (machine : Machine) (w : W),
          machine.play host (carryOut instruction operands) w
            = machine.play host (reloadOr work warning otherwise) w := by
  unfold carryOut
  split
  · exact .inl (quiet_throw _).ends
  rcases @perform_cases W instruction operands with
    hplain | ⟨-, hrestart⟩ | hkeep | ⟨work, otherwise, warning, hattempt, hotherwise, hback⟩
  · exact .inl (ends_perform instruction operands hplain)
  · exact .inr (.inl hrestart)
  · exact .inr (.inr (.inl hkeep))
  · refine .inr (.inr (.inr ⟨work, otherwise, warning, hattempt, ?_, hback⟩))
    rcases hotherwise with rfl | rfl
    · exact ends_report instruction 0
    · exact (quiet_store instruction 0).ends

/-! ## What holds of a step -/

/-- The game is the same.  Where all goes well a sound machine is left, and a stack in order. -/
structure Safe (machine : Machine) (outcome : Except Fault Unit) (after : Machine) : Prop where
  sameGame : SameGame machine after
  sound : outcome = .ok () → machine.Steady → machine.resume = none → after.Sound
  orderly : outcome = .ok () → machine.stack.Orderly → after.stack.Orderly

/-- Undo generations and options are the same as well, and a shallow machine is left. -/
structure Stays (machine : Machine) (outcome : Except Fault Unit) (after : Machine) : Prop where
  sameRun : SameRun machine after
  sound : outcome = .ok () → machine.Steady → machine.resume = none → after.Sound
  orderly : outcome = .ok () → machine.stack.Orderly → after.stack.Orderly
  shallow : outcome = .ok () → machine.Shallow → after.Shallow

/-- What stays is safe. -/
theorem Stays.safe (h : Stays machine outcome after) : Safe machine outcome after :=
  ⟨h.sameRun.toSameGame, h.sound, h.orderly⟩

/-- The end of an instruction stays in its game. -/
theorem stays_of_ends {work : Play (StateM W) Unit} (h : Ends work)
    (hplay : machine.play host work w = ((outcome, after), w')) : Stays machine outcome after := by
  cases outcome with
  | error fault =>
      exact ⟨((h host machine w).2 fault after w' hplay).sameRun, nofun, nofun, nofun⟩
  | ok _ =>
      have hfinishes := (h host machine w).1 () after w' hplay
      exact ⟨hfinishes.withstands.sameRun, fun _ => hfinishes.sound, fun _ => hfinishes.orderly,
        fun _ => hfinishes.shallow⟩

/-- A restart stays in its game. -/
theorem stays_of_restarted (h : Restarted machine outcome after) : Stays machine outcome after := by
  obtain ⟨hrun, ⟨hfault, -⟩ | ⟨hresume, -, hstorable, hdepth⟩⟩ := h
  · exact ⟨hrun, fun hok => absurd hok hfault, fun hok => absurd hok hfault,
      fun hok => absurd hok hfault⟩
  · refine ⟨hrun, fun _ hsteady _ => ⟨?_, hstorable, fun hsome => ?_⟩,
      fun _ _ => hstorable.orderly, fun _ _ => ?_⟩
    · rw [hrun.size_eq]
      exact hsteady.size_lt
    · rw [hresume] at hsome
      exact nomatch hsome
    · exact Nat.le_trans hdepth (by decide)

/-- Keeping an undo generation is safe. -/
theorem safe_of_saveUndo
    (hplay : machine.play host (saveUndo instruction) w = ((outcome, after), w')) :
    Safe machine outcome after := by
  obtain ⟨v, hstore⟩ := play_saveUndo host machine w instruction
  rw [hstore] at hplay
  obtain ⟨hrun, hsound, horderly, -⟩ := stays_of_ends (quiet_store instruction _).ends hplay
  exact ⟨⟨hrun.story_eq, hrun.globals_eq⟩, fun hok hsteady =>
    hsound hok ⟨hsteady.size_lt, hsteady.storable, hsteady.pc_lt⟩, horderly⟩

/-- An attempt that fails ends the step if it is fatal.  Otherwise it has changed nothing. -/
theorem stays_of_failed {work otherwise : Play (StateM W) Unit} {opcode : Opcode} {fault : Fault}
    {middle : Machine} (warning : Fault → Notice) (hattempt : attempt? opcode operands = some work)
    (hotherwise : Ends otherwise) (hwork : machine.play host work w = ((.error fault, middle), v))
    (hplay : machine.play host (reloadOr work warning otherwise) w = ((outcome, after), w')) :
    Stays machine outcome after := by
  obtain ⟨hfailed, hsame⟩ := reload_of_attempt hattempt hwork
  cases hfatal : fault.isFatal with
  | true =>
      rw [reloadOr, play_tryCatch, hwork] at hplay
      dsimp only at hplay
      rw [hfatal] at hplay
      cases hplay
      exact ⟨hfailed.sameRun, nofun, nofun, nofun⟩
  | false =>
      obtain rfl := hsame hfatal
      rw [play_reloadOr_of_harmless warning hwork hfatal] at hplay
      exact stays_of_ends hotherwise hplay

/-- An attempt to go back is safe, and so is what is done where it fails. -/
theorem safe_of_attempt {work otherwise : Play (StateM W) Unit} {opcode : Opcode}
    (warning : Fault → Notice) (hattempt : attempt? opcode operands = some work)
    (hotherwise : Ends otherwise)
    (hplay : machine.play host (reloadOr work warning otherwise) w = ((outcome, after), w')) :
    Safe machine outcome after := by
  rcases hwork : machine.play host work w with ⟨⟨fault | _, middle⟩, v⟩
  · exact (stays_of_failed warning hattempt hotherwise hwork hplay).safe
  · obtain ⟨hgame, hsound, horderly⟩ := reload_of_attempt hattempt hwork
    rw [reloadOr, play_tryCatch, hwork] at hplay
    cases hplay
    exact ⟨hgame, fun _ hsteady _ => hsound hsteady.size_lt, fun _ _ => horderly⟩

/-- **Carrying out an instruction is safe**, whatever it is. -/
theorem safe_of_carryOut
    (hplay : machine.play host (carryOut instruction operands) w = ((outcome, after), w')) :
    Safe machine outcome after := by
  rcases @carryOut_cases W instruction operands with
    hends | hrestart | ⟨-, hkeep⟩ | ⟨work, otherwise, warning, hattempt, hotherwise, hback⟩
  · exact (stays_of_ends hends hplay).safe
  · rw [hrestart] at hplay
    exact (stays_of_restarted (restarted_of_play hplay)).safe
  · rw [hkeep] at hplay
    exact safe_of_saveUndo hplay
  · rw [hback] at hplay
    exact safe_of_attempt warning hattempt hotherwise hplay

/-- **Every step keeps the game.**  Where it goes well, it leaves a sound machine, and a stack
in order. -/
theorem sound_of_step (hplay : machine.play host step w = ((outcome, after), w')) :
    SameGame machine after ∧ (outcome = .ok () → machine.Sound → after.Sound) ∧
      (outcome = .ok () → machine.stack.Orderly → after.stack.Orderly) := by
  cases hresume : machine.resume with
  | some read =>
      obtain ⟨pending, value⟩ := read
      rw [play_step_of_resume hresume] at hplay
      have hstays := stays_of_ends (answers_resumeRead value pending).quiet.ends hplay
      refine ⟨⟨hstays.sameRun.story_eq, hstays.sameRun.globals_eq⟩, fun hok hsound => ?_,
        hstays.orderly⟩
      have hpc := hsound.pc_lt (by rw [hresume]; rfl)
      exact hstays.sound hok ⟨hsound.size_lt, hsound.storable, hpc⟩ rfl
  | none =>
      rw [play_step_of_fetch hresume, play_bind] at hplay
      rcases play_fetch host machine w with
        ⟨fault, pc, stack, v, hfetch⟩ | ⟨instruction, operands, poised, v, hfetch, hfetched⟩ <;>
        rw [hfetch] at hplay
      · cases hplay
        exact ⟨⟨rfl, rfl⟩, nofun, nofun⟩
      · obtain ⟨hgame, hsound, horderly⟩ := safe_of_carryOut hplay
        have hnone : poised.resume = none := by
          rw [hfetched.poised_eq]
          exact hresume
        exact ⟨hfetched.sameRun.toSameGame.trans hgame,
          fun hok h => hsound hok (hfetched.steady h) hnone,
          fun hok h => horderly hok (h.move hfetched.popped.move)⟩

/-- A step that neither keeps an undo generation nor goes back to another state: what tries to
go back fails. -/
def Uneventful (host : Host (StateM W)) (machine : Machine) (w : W) : Prop :=
  machine.resume = none → ∀ instruction operands poised v,
    machine.play host fetch w = ((.ok (instruction, operands), poised), v) →
      instruction.opcode ≠ .saveUndo ∧ ∀ work, attempt? instruction.opcode operands = some work →
        ∃ fault middle v', poised.play host work v = ((.error fault, middle), v')

/-- **An uneventful step** keeps undo generations and options, and a machine shallow. -/
theorem stays_of_step (huneventful : Uneventful host machine w)
    (hplay : machine.play host step w = ((outcome, after), w')) :
    SameRun machine after ∧ (outcome = .ok () → machine.Shallow → after.Shallow) := by
  cases hresume : machine.resume with
  | some read =>
      obtain ⟨pending, value⟩ := read
      rw [play_step_of_resume hresume] at hplay
      obtain ⟨⟨⟨hstory, hglobals⟩, hundo, hoptions⟩, -, -, hshallow⟩ :=
        stays_of_ends (answers_resumeRead value pending).quiet.ends hplay
      exact ⟨⟨⟨hstory, hglobals⟩, hundo, hoptions⟩, hshallow⟩
  | none =>
      rw [play_step_of_fetch hresume, play_bind] at hplay
      rcases play_fetch host machine w with
        ⟨fault, pc, stack, v, hfetch⟩ | ⟨instruction, operands, poised, v, hfetch, hfetched⟩ <;>
        rw [hfetch] at hplay
      · cases hplay
        exact ⟨⟨⟨rfl, rfl⟩, rfl, rfl⟩, nofun⟩
      · obtain ⟨hkeeps, hfails⟩ := huneventful hresume instruction operands poised v hfetch
        have hstays : Stays poised outcome after := by
          rcases @carryOut_cases W instruction operands with hends | hrestart | ⟨hopcode, -⟩ |
            ⟨work, otherwise, warning, hattempt, hotherwise, hback⟩
          · exact stays_of_ends hends hplay
          · exact stays_of_restarted (restarted_of_play ((hrestart host poised v).symm.trans hplay))
          · exact absurd hopcode hkeeps
          · obtain ⟨fault, middle, v', hwork⟩ := hfails work hattempt
            exact stays_of_failed warning hattempt hotherwise hwork
              ((hback host poised v).symm.trans hplay)
        exact ⟨hfetched.sameRun.trans hstays.sameRun,
          fun hok h => hstays.shallow hok (hfetched.shallow h)⟩

end

end Play

end StoryMachine
