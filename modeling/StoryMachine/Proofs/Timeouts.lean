import StoryMachine.Proofs.Abandoning

/-!
# Reads that run out of time

A host may let the time of a read run out.  Then the routine of the read is entered, with
the read waiting in its frame, and what the routine returns decides: zero goes on with the
read, anything else ends it.  `Asks` says that a machine is about to ask for a read, for
the first time or again, and `Asks.unique` and `Asks.elsewhere` that nobody but the machine
decides for which.  `RunsOut` is the step in which time runs out, `Returns` the run of the
routine, and `Waits` any number of both, each time with zero and nothing disturbed.

`returns_to_read` holds of every run of the routine: it comes back to the same read at the
same place, with what was typed.  By `asks_of_waits`, an induction on the number of alarms,
the machine then asks for the read again as if for the first time.  The main theorem,
`timeouts_transparent`, follows for answers with `sameEnd_deliver` and for reads given up
with `play_step_of_abandoned`.  A read that cannot be given up is in
`not_abandoned_muffled`.
-/

namespace StoryMachine

variable {V W α β : Type}

/-- The read that an instruction asks for. -/
def Instruction.read? (instruction : Instruction) (operands : List Word) : Option PendingRead :=
  match instruction.opcode with
  | .read => some (.line
      { text := (Play.operandAt operands 0).toNat, parse := (Play.operandAt operands 1).toNat
        time := Play.operandAt operands 2, routine := Play.operandAt operands 3
        store := instruction.store, typed := "" })
  | .readChar => some (.char
      { time := Play.operandAt operands 1, routine := Play.operandAt operands 2
        store := instruction.store })
  | _ => none

/-- What a frame was put on top of. -/
theorem CallStack.entered_inj {stack other : CallStack} {frame : Frame}
    (h : stack.entered frame = other.entered frame) : stack = other := by
  cases stack
  cases other
  simp only [entered, CallStack.mk.injEq, List.cons.injEq, true_and] at h
  obtain ⟨rfl, rfl, rfl⟩ := h
  rfl

namespace Play

open Machine

/-! ## Asking -/

/-- What is checked before a read begins. -/
def permit (instruction : Instruction) (operands : List Word) : Play (StateM W) Unit :=
  if instruction.count = .op2 ∧ operands.length < 2 then
    throw { kind := .badOperands,
            detail := s!"{instruction.opcode.title} WITH {operands.length} OPERANDS" }
  else if instruction.opcode = .readChar ∧ (!operands.isEmpty && operandAt operands 0 != 1) then
    warn s!"read_char from device {operandAt operands 0}"
  else pure ()

/-- The machine is about to ask its host for a read: because of an instruction, or because the
routine of a read that had run out of time has returned zero.  Before the host is asked the machine
is `poised`. -/
inductive Asks (host : Host (StateM W)) (machine : Machine) (w : W) :
    PendingRead → Machine → W → Prop
  | opened {instruction : Instruction} {operands : List Word} {read : PendingRead}
      {poised : Machine} {v v' : W} (hresume : machine.resume = none)
      (hfetch : machine.play host fetch w = ((.ok (instruction, operands), poised), v))
      (hread : instruction.read? operands = some read)
      (hpermit : poised.play host (permit instruction operands) v = ((.ok (), poised), v')) :
      Asks host machine w read poised v'
  | resumed {read : PendingRead} (hresume : machine.resume = some (read, 0)) :
      Asks host machine w read { machine with resume := none } w

section

variable {host : Host (StateM W)} {machine poised : Machine} {w v : W} {pending : PendingRead}
  {instruction : Instruction} {operands : List Word}

/-- An instruction that reads does nothing else. -/
theorem play_carryOut_of_read (h : instruction.read? operands = some pending) :
    machine.play host (carryOut instruction operands) w
      = machine.play host (do permit instruction operands; resumeRead 0 pending) w := by
  unfold carryOut permit
  by_cases hfew : instruction.count = .op2 ∧ operands.length < 2
  · rw [if_pos hfew, if_pos hfew]
    rfl
  rw [if_neg hfew, if_neg hfew, perform, play_bind_of_ok (play_get machine host w)]
  unfold Instruction.read? at h
  cases hopcode : instruction.opcode with
  | read =>
      rw [hopcode] at h
      cases h
      rfl
  | readChar =>
      rw [hopcode] at h
      cases h
      by_cases hdevice : (!operands.isEmpty && operandAt operands 0 != 1) = true
      · simp only [hdevice, if_true, and_self]
        rfl
      · simp only [hdevice]
        rfl
  | _ =>
      rw [hopcode] at h
      cases h

/-- A machine that asks for a read goes on with it. -/
theorem Asks.play_step (h : Asks host machine w pending poised v) :
    machine.play host step w = poised.play host (resumeRead 0 pending) v := by
  cases h with
  | opened hresume hfetch hread hpermit =>
      rw [play_step_of_fetch hresume, play_bind_of_ok hfetch, play_carryOut_of_read hread,
        play_bind_of_ok hpermit]
  | resumed hresume => exact play_step_of_resume hresume

/-- What a machine asks for is determined. -/
theorem Asks.unique {other : PendingRead} {twin : Machine} {t : W}
    (h : Asks host machine w pending poised v) (h' : Asks host machine w other twin t) :
    pending = other ∧ poised = twin ∧ v = t := by
  cases h with
  | opened hresume hfetch hread hpermit =>
      cases h' with
      | opened _ hfetch' hread' hpermit' =>
          cases hfetch.symm.trans hfetch'
          cases hread.symm.trans hread'
          cases hpermit.symm.trans hpermit'
          exact ⟨rfl, rfl, rfl⟩
      | resumed hresume' => exact nomatch hresume.symm.trans hresume'
  | resumed hresume =>
      cases h' with
      | opened hresume' => exact nomatch hresume.symm.trans hresume'
      | resumed hresume' =>
          cases hresume.symm.trans hresume'
          exact ⟨rfl, rfl, rfl⟩

/-- What the host says decides how the step goes on. -/
theorem Asks.play_step_of_input {input : LineInput} {v' : W}
    (h : Asks host machine w pending poised v) (hroutine : pending.routine ≠ 0)
    (hreplay : poised.streams.replay = none)
    (hinput : poised.play host (inquire pending) v = ((.ok input, poised), v')) :
    machine.play host step w = poised.play host (respond pending input) v' := by
  rw [h.play_step, play_resumeRead hroutine hreplay, play_bind_of_ok hinput]

end

/-! ## Asking another host -/

/-- Work that comes to the same with two hosts, from every machine. -/
def Regardless (host : Host (StateM W)) (other : Host (StateM V)) (work : Play (StateM W) α)
    (work' : Play (StateM V) α) : Prop :=
  ∀ (machine : Machine) (w : W) (v : V),
    (machine.play other work' v).1 = (machine.play host work w).1

section

variable {host : Host (StateM W)} {other : Host (StateM V)}

theorem regardless_pure (a : α) : Regardless host other (pure a) (pure a) := fun _ _ _ => rfl

theorem regardless_ofExcept (outcome : Except Fault α) :
    Regardless host other (MonadExcept.ofExcept outcome) (MonadExcept.ofExcept outcome) := by
  intro machine w v
  rw [play_ofExcept, play_ofExcept]

/-- Work done in turn comes to the same with any hosts if each of its parts does. -/
theorem Regardless.bind {work : Play (StateM W) α} {work' : Play (StateM V) α}
    {next : α → Play (StateM W) β} {next' : α → Play (StateM V) β}
    (h : Regardless host other work work') (hnext : ∀ a, Regardless host other (next a) (next' a)) :
    Regardless host other (work >>= next) (work' >>= next') := by
  intro machine w v
  have hsame := h machine w v
  rw [play_bind, play_bind]
  generalize machine.play host work w = played at hsame ⊢
  generalize machine.play other work' v = played' at hsame ⊢
  obtain ⟨⟨outcome, after⟩, w'⟩ := played
  obtain ⟨⟨outcome', after'⟩, v'⟩ := played'
  obtain ⟨rfl, rfl⟩ := Prod.mk.inj hsame
  cases outcome' with
  | error fault => rfl
  | ok a => exact hnext a after' w' v'

/-- Reading a variable comes to the same with any hosts. -/
theorem regardless_readVariable (number : UInt8) :
    Regardless host other (readVariable number) (readVariable number) := by
  unfold readVariable
  split
  · exact fun _ _ _ => rfl
  · split
    · exact Regardless.bind (fun _ _ _ => rfl) fun machine => regardless_ofExcept _
    · exact Regardless.bind (fun _ _ _ => rfl) fun machine =>
        Regardless.bind (fun _ _ _ => rfl) fun _ => regardless_ofExcept _

/-- Taking the values of operands comes to the same with any hosts. -/
theorem regardless_operandValues (operands : List Operand) :
    Regardless host other (operandValues operands) (operandValues operands) := by
  induction operands with
  | nil => exact regardless_pure []
  | cons operand operands ih =>
      refine Regardless.bind ?_ fun value => ih.bind fun values => regardless_pure _
      cases operand with
      | var number => exact regardless_readVariable number
      | _ => exact regardless_pure _

/-- Which instruction comes next, and with which operands, is not up to the host. -/
theorem regardless_fetch : Regardless host other fetch fetch := by
  refine Regardless.bind (fun _ _ _ => rfl) fun machine => ?_
  refine Regardless.bind (fun _ _ _ => rfl) fun _ => ?_
  refine (regardless_ofExcept _).bind fun instruction => ?_
  refine Regardless.bind (fun _ _ _ => rfl) fun _ => ?_
  refine Regardless.bind (fun _ _ _ => rfl) fun _ => ?_
  exact (regardless_operandValues _).bind fun operands => regardless_pure _

/-- What is checked before a read comes to the same with any hosts. -/
theorem regardless_permit (instruction : Instruction) (operands : List Word) :
    Regardless host other (permit instruction operands) (permit instruction operands) := by
  unfold permit
  split
  · exact fun _ _ _ => rfl
  · split
    · refine Regardless.bind (fun _ _ _ => rfl) fun machine => ?_
      split <;> exact fun _ _ _ => rfl
    · exact regardless_pure ()

/-- **Every host is asked for the same read**, on the same machine. -/
theorem Asks.elsewhere {machine poised : Machine} {w v : W} {pending : PendingRead}
    (h : Asks host machine w pending poised v) (other : Host (StateM V)) (y : V) :
    ∃ y', Asks other machine y pending poised y' := by
  cases h with
  | @opened instruction operands _ _ u _ hresume hfetch hread hpermit =>
      have hfetch' : (machine.play other fetch y).1 = (machine.play host fetch w).1 :=
        regardless_fetch machine w y
      rw [hfetch] at hfetch'
      have hpermit' := @regardless_permit V W host other instruction operands poised u
        (machine.play other fetch y).2
      rw [hpermit] at hpermit'
      exact ⟨_, .opened hresume (Prod.ext hfetch' rfl) hread (Prod.ext hpermit' rfl)⟩
  | resumed hresume => exact ⟨y, .resumed hresume⟩

end

/-! ## Running out of time -/

/-- A machine that has entered the routine of a read: the read waits for its frame. -/
structure Paused (poised : Machine) (read : PendingRead) (entered : Machine) : Prop where
  mark_eq : entered.stack.current.mark = (poised.pc, some read)
  stack_eq : entered.stack = poised.stack.entered entered.stack.current
  entered_eq : entered = { poised with stack := entered.stack, pc := entered.pc }

section

variable {host : Host (StateM W)} {poised entered : Machine} {w w' : W}

/-- The routine of a read that is entered is paused for. -/
theorem paused_of_interrupt {routine : Word} {read : PendingRead}
    (hplay : poised.play host (interrupt routine read) w = ((.ok (), entered), w')) :
    Paused poised read entered := by
  unfold interrupt at hplay
  rw [play_bind_of_ok (play_get poised host w), play_bind, play_onStack] at hplay
  rcases poised.stack.run_call poised.memory (poised.memory.story.routineAddress routine) []
      poised.pc none (some read) with ⟨frame, first, hrun, hentry, -⟩ | ⟨fault, hrun⟩ <;>
    rw [hrun] at hplay
  · cases hplay
    exact ⟨Prod.ext hentry.returnPc_eq hentry.pending_eq, rfl, rfl⟩
  · exact nomatch hplay

/-- A read that is paused is paused with what was typed. -/
theorem paused_of_pause {typed : String} {pending : PendingRead}
    (hplay : poised.play host (pause typed pending) w = ((.ok (), entered), w')) :
    Paused poised (pending.retyped typed) entered := by
  cases pending with
  | line read =>
      rw [pause, play_bind_of_ok (play_note poised host w _)] at hplay
      exact paused_of_interrupt hplay
  | char read => exact paused_of_interrupt hplay

end

/-- The host lets the time of a read run out, and the routine of the read is entered. -/
inductive RunsOut (host : Host (StateM W)) (machine : Machine) (w : W) (typed : String)
    (entered : Machine) (v : W) : Prop
  | intro {read : PendingRead} {poised : Machine} {u u' : W}
      (hasks : Asks host machine w read poised u)
      (htimeout : poised.play host (inquire read) u = ((.ok (.timedOut typed), poised), u'))
      (hstep : machine.play host step w = ((.ok (), entered), v))

/-- The routine that has been entered runs until it returns a value to a read. -/
structure Returns (host : Host (StateM W)) (entered : Machine) (v : W) (value : Word)
    (returned : Machine) (u : W) : Prop where
  above : Above host returned.stack.depth entered v returned u
  depth_eq : entered.stack.depth = returned.stack.depth + 1
  resume_eq : ∃ read, returned.resume = some (read, value)

/-- Memory, the streams and the frames below are as they were when the routine was entered. -/
structure Undisturbed (entered returned : Machine) : Prop where
  memory_eq : returned.memory = entered.memory
  streams_eq : returned.streams = entered.streams
  stack_eq : entered.stack = returned.stack.entered entered.stack.current

/-- A read runs out of time again and again, a number of times.  Each time its routine returns
zero, and has disturbed nothing. -/
inductive Waits (host : Host (StateM W)) (machine : Machine) (w : W) : Nat → Machine → W → Prop
  | zero : Waits host machine w 0 machine w
  | succ {n : Nat} {waiting entered returned : Machine} {typed : String} {u v u' : W}
      (h : Waits host machine w n waiting u) (hout : RunsOut host waiting u typed entered v)
      (hreturn : Returns host entered v 0 returned u') (hsame : Undisturbed entered returned) :
      Waits host machine w (n + 1) returned u'

section

variable {host : Host (StateM W)} {machine poised entered returned : Machine} {w v u : W}
  {pending : PendingRead} {typed : String} {value : Word}

/-- Steps above a frame leave what a machine has from its creation, and faithful dictionaries. -/
theorem retains_of_above {depth : Nat} {first : Machine} {v w : W}
    (h : Above host depth first v machine w) :
    machine.fixtures = first.fixtures ∧ (first.Faithful → machine.Faithful) := by
  induction h with
  | refl => exact ⟨rfl, id⟩
  | step _ _ _ hplay ih =>
      exact ⟨(retains_step.eq hplay).trans ih.1, fun h => faithful_of_step hplay (ih.2 h)⟩

/-- **A read that ran out of time comes back.**  When the routine has returned, the machine is
where it was when the host was asked, and the value is for that read, with what was typed. -/
theorem returns_to_read (hasks : Asks host machine w pending poised v)
    (hroutine : pending.routine ≠ 0) (hreplay : poised.streams.replay = none) {t t' : W}
    (hout : RunsOut host machine w typed entered t)
    (hreturn : Returns host entered t value returned t') :
    Paused poised (pending.retyped typed) entered ∧
      returned.resume = some (pending.retyped typed, value) ∧ returned.pc = poised.pc := by
  obtain ⟨hasks', htimeout, hstep⟩ := hout
  obtain ⟨rfl, rfl, rfl⟩ := hasks.unique hasks'
  rw [hasks.play_step_of_input hroutine hreplay htimeout] at hstep
  have hpaused := paused_of_pause hstep
  obtain ⟨habove, hdepth, read, hresume⟩ := hreturn
  have hmarks : entered.stack.marks
      = (poised.pc, some (pending.retyped typed)) :: poised.stack.marks := by
    rw [hpaused.stack_eq, CallStack.marks_entered, hpaused.mark_eq]
  have hlength : poised.stack.marks.length = returned.stack.depth := by
    have := congrArg List.length hmarks
    rw [CallStack.length_marks, List.length_cons] at this
    omega
  rw [← hlength] at habove
  obtain ⟨hpc, hread⟩ := Prod.mk.inj (mark_of_ended hmarks habove hlength.symm hresume)
  obtain rfl := Option.some.inj hread
  exact ⟨hpaused, hresume, hpc.symm⟩

/-- A machine that asks for a read has faithful dictionaries if it had them. -/
theorem Asks.faithful (h : Asks host machine w pending poised v) (hmachine : machine.Faithful) :
    poised.Faithful := by
  cases h with
  | opened _ hfetch =>
      rw [(fetched_of_play hfetch).poised_eq]
      exact hmachine
  | resumed => exact hmachine

/-- After a routine that has disturbed nothing, the machine is a twin of what it was. -/
theorem twins_of_undisturbed {read : PendingRead} {t t' : W} (hfaithful : poised.Faithful)
    (hpaused : Paused poised read entered) (hreturn : Returns host entered t value returned t')
    (hpc : returned.pc = poised.pc) (hsame : Undisturbed entered returned) :
    Twins poised { returned with resume := none } ∧ returned.streams = poised.streams := by
  obtain ⟨-, hpushed, hentered⟩ := hpaused
  obtain ⟨hmemory, hstreams, hstack⟩ := hsame
  obtain ⟨hfixtures, hkept⟩ := retains_of_above hreturn.above
  have hsetting : entered.fixtures = poised.fixtures := by
    rw [hentered]
    rfl
  have hdictionaries : entered.dictionaries = poised.dictionaries := by rw [hentered]
  obtain ⟨-, -, hglobals, hcodec, -⟩ : returned.memory.story = _ ∧ returned.objects = _ ∧
      returned.globals = _ ∧ returned.codec = _ ∧ returned.options = _ := by
    simpa only [fixtures, Prod.mk.injEq] using hfixtures.trans hsetting
  have hstack' : returned.stack = poised.stack := CallStack.entered_inj (hstack.symm.trans hpushed)
  refine ⟨⟨?_, hstack', hpc, hglobals, hcodec, hfaithful, ?_⟩, ?_⟩
  · rw [hmemory, hentered]
  · exact hkept (faithful_of_fixtures hfaithful hsetting hdictionaries)
  · rw [hstreams, hentered]

/-- **A read that waits goes on asking.**  However often its time has run out, the machine is a
twin of what it was when the host was asked first, and about to ask for the same read. -/
theorem asks_of_waits {n : Nat} {waiting : Machine} (hasks : Asks host machine w pending poised v)
    (hroutine : pending.routine ≠ 0) (hreplay : poised.streams.replay = none)
    (hfaithful : poised.Faithful) (h : Waits host machine w n waiting u) :
    ∃ typed twin t, Asks host waiting u (pending.retyped typed) twin t ∧ Twins poised twin ∧
      twin.streams = poised.streams := by
  induction h with
  | zero =>
      obtain ⟨typed, htyped⟩ := pending.exists_retyped
      exact ⟨typed, poised, v, htyped ▸ hasks, .refl hfaithful, rfl⟩
  | @succ n waiting entered returned typed u t u' h hout hreturn hsame ih =>
      obtain ⟨before, twin, t', hasked, htwins, hstreams⟩ := ih
      obtain ⟨hpaused, hresume, hpc⟩ := returns_to_read hasked (by simpa using hroutine)
        (by rw [hstreams]; exact hreplay) hout hreturn
      rw [PendingRead.retyped_retyped] at hpaused hresume
      obtain ⟨hafter, hstreams'⟩ :=
        twins_of_undisturbed htwins.twin_faithful hpaused hreturn hpc hsame
      exact ⟨typed, _, u', .resumed hresume, htwins.trans hafter, hstreams'.trans hstreams⟩

end

/-! ## What comes of it -/

/-- **Timeouts are transparent.**  A machine that can be reached asks for a read that has a
routine, with no commands replayed; its time runs out again and again, and each time its routine
returns zero and has disturbed nothing.  Then the machine asks for the same read again.  If it
is answered now, the step that takes the answer comes to the same end as the step of the machine
before all this, had its host given that answer at once, whatever else may be told apart of the
two hosts.  If time runs out once more and the routine returns anything but zero, whatever else
it has done, the read is given up where it can be. -/
theorem timeouts_transparent {image : Array UInt8} {ruledOut : Fault → Prop}
    {host : Host (StateM W)} {machine poised waiting : Machine} {w v u : W} {n : Nat}
    {pending : PendingRead} (hreach : Reachable image ruledOut machine)
    (hhalted : machine.halted = none) (hasks : Asks host machine w pending poised v)
    (hroutine : pending.routine ≠ 0) (hreplay : poised.streams.replay = none)
    (hwaits : Waits host machine w n waiting u) :
    ∃ typed twin t, Asks host waiting u (pending.retyped typed) twin t ∧
      (∀ (text : String) (code : Word) (t' : W),
        twin.play host (inquire (pending.retyped typed)) t
            = ((.ok (.done text code), twin), t') →
        ∀ (V : Type) (other : Host (StateM V)) (y : V), ∃ y',
          Asks other machine y pending poised y' ∧
          ∀ z, poised.play other (inquire pending) y' = ((.ok (.done text code), poised), z) →
            (isMouseClick code = true →
              mouseAt host twin pending text t' = mouseAt other poised pending text z) →
            SameEnd (machine.play other step y) (waiting.play host step u)) ∧
      ∀ (late : String) (entered returned : Machine) (value : Word) (s s' : W),
        RunsOut host waiting u late entered s → Returns host entered s value returned s' →
        value ≠ 0 →
        returned.resume = some (pending.retyped late, value) ∧ returned.pc = poised.pc ∧
          (returned.CanAbandon (pending.retyped late) → ∃ after,
            returned.play host step s' = ((.ok (), after), told host pending s') ∧
              GivenUp (pending.retyped late) returned after) ∧
          (¬returned.CanAbandon (pending.retyped late) → ∃ fault after,
            returned.play host step s' = ((.error fault, after), told host pending s') ∧
              fault.isFatal = true) := by
  have hfaithful : poised.Faithful := hasks.faithful (faithful_of_reachable hreach hhalted)
  obtain ⟨typed, twin, t, hasked, htwins, hstreams⟩ :=
    asks_of_waits hasks hroutine hreplay hfaithful hwaits
  have hroutine' : (pending.retyped typed).routine ≠ 0 := by
    rw [PendingRead.routine_retyped]
    exact hroutine
  have hreplay' : twin.streams.replay = none := by
    rw [hstreams]
    exact hreplay
  refine ⟨typed, twin, t, hasked, ?_, ?_⟩
  · intro text code t' hanswer V other y
    obtain ⟨y', hother⟩ := hasks.elsewhere other y
    refine ⟨y', hother, fun z hsame hmouse => ?_⟩
    rw [hother.play_step_of_input hroutine hreplay hsame,
      hasked.play_step_of_input hroutine' hreplay' hanswer, respond, respond, deliver_retyped]
    exact sameEnd_deliver htwins pending text z t' hmouse
  · intro late entered returned value s s' hout hreturn hvalue
    obtain ⟨-, hresume, hpc⟩ := returns_to_read hasked hroutine' hreplay' hout hreturn
    rw [PendingRead.retyped_retyped] at hresume
    obtain ⟨hgiven, hfailed⟩ := @play_step_of_abandoned W host returned _ value hresume hvalue s'
    rw [told_retyped] at hgiven hfailed
    exact ⟨hresume, hpc.trans htwins.pc_eq, hgiven, hfailed⟩

/-! ## An alarm -/

/-- A host with a script: zero is a line that is not finished in time, or the key zero. -/
def scripted : Host (StateM (List Word)) :=
  .plain (fun _ => pure ())
    (fun _ _ _ _ script => match script with
      | [] => (.done "" 13, [])
      | code :: rest => (if code = 0 then .timedOut "no" else .done "" code, rest))
    (fun _ script => match script with
      | [] => (.key 13, [])
      | code :: rest => (.key code, rest))

/-- What steps make of a machine and its host, whether they fail or not. -/
def ran (machine : Machine) (script : List Word) : (steps : Nat) → Machine × List Word
  | 0 => (machine, script)
  | steps + 1 =>
    let played := (ran machine script steps).1.play scripted step (ran machine script steps).2
    (played.1.2, played.2)

/-- What a machine that waits for no read does before it asks for one. -/
def opening : Play (StateM W) (Option PendingRead) := do
  let (instruction, operands) ← fetch
  permit instruction operands
  return instruction.read? operands

/-- What is checked before a read leaves the machine. -/
theorem reads_permit (instruction : Instruction) (operands : List Word) :
    Reads (permit instruction operands : Play (StateM W) Unit) := by
  unfold permit
  refine .ite (reads_throw _) (.ite ?_ (reads_pure ()))
  exact reads_get.bind fun machine => .ite (reads_throw _) (reads_note _)

/-- Work that leaves the machine as it is does so where it goes well. -/
theorem Reads.play_of_toOption {work : Play (StateM W) α} (h : Reads work)
    {host : Host (StateM W)} {machine : Machine} {w : W} {a : α}
    (hok : (machine.play host work w).1.1.toOption = some a) :
    machine.play host work w = ((.ok a, machine), (machine.play host work w).2) := by
  have hplay := play_eq_of_toOption hok
  rwa [h host machine w] at hplay

/-- A machine that opens a read asks for it. -/
theorem asks_of_opening {host : Host (StateM W)} {machine poised : Machine} {w v : W}
    {pending : PendingRead} (hresume : machine.resume = none)
    (hopening : machine.play host opening w = ((.ok (some pending), poised), v)) :
    Asks host machine w pending poised v := by
  unfold opening at hopening
  obtain ⟨⟨instruction, operands⟩, fetched, u, hfetch, hopening⟩ := play_bind_ok hopening
  obtain ⟨_, middle, u', hpermit, hread⟩ := play_bind_ok hopening
  have hsame := reads_permit instruction operands host fetched u
  rw [hpermit] at hsame
  obtain rfl : middle = fetched := hsame
  obtain ⟨hdone, rfl⟩ := Prod.mk.inj hread
  obtain ⟨hasked, rfl⟩ := Prod.mk.inj hdone
  exact .opened hresume hfetch (Except.ok.inj hasked) hpermit

/-- A step that goes well is the next of the run. -/
theorem play_ran {machine : Machine} {script : List Word} {steps : Nat}
    (h : ((ran machine script steps).1.play scripted step
      (ran machine script steps).2).1.1.toOption = some ()) :
    (ran machine script steps).1.play scripted step (ran machine script steps).2
      = ((.ok (), (ran machine script (steps + 1)).1), (ran machine script (steps + 1)).2) :=
  play_eq_of_toOption h

/-- Steps that go well, and end with a value for a read, are the run of a routine. -/
theorem returns_ran {machine : Machine} {script : List Word} {first : Nat} (later : Nat)
    {read : PendingRead} {value : Word}
    (h : ∀ steps < later,
      (ran machine script (first + later)).1.stack.depth
          < (ran machine script (first + steps)).1.stack.depth ∧
        (ran machine script (first + steps)).1.halted = none ∧
        ((ran machine script (first + steps)).1.play scripted step
          (ran machine script (first + steps)).2).1.1.toOption = some ())
    (hback : (ran machine script first).1.stack.depth
        = (ran machine script (first + later)).1.stack.depth + 1 ∧
      (ran machine script (first + later)).1.resume = some (read, value)) :
    Returns scripted (ran machine script first).1 (ran machine script first).2 value
      (ran machine script (first + later)).1 (ran machine script (first + later)).2 := by
  refine ⟨?_, hback.1, read, hback.2⟩
  generalize (ran machine script (first + later)).1.stack.depth = depth at h
  clear hback
  induction later with
  | zero => exact .refl
  | succ later ih =>
      obtain ⟨hdepth, hhalted, hplay⟩ := h later (Nat.lt_succ_self later)
      exact .step (ih fun steps hsteps => h steps (Nat.lt_succ_of_lt hsteps)) hdepth hhalted
        (play_ran hplay)

/-- A story that reads a line with an alarm.  The alarm goes off after a second; its routine reads
a key and returns that. -/
def alarmImage : Array UInt8 :=
  (storyOf [0xe4, 0x55, 0x42, 0x00, 0x0a, 0x14, 0x10, 0xba,
    0x00, 0xf6, 0x7f, 0x01, 0x00, 0xb8]).setIfInBounds 66 3

def alarm : Machine :=
  ((create deaf alarmImage {} ()).1.toOption).get rfl

/-- The line for which it asks, with a text buffer at some address. -/
def alarmed (text : Nat) (typed : String) : PendingRead :=
  .line { text, parse := 0, time := 10, routine := 20, store := some 16, typed }

/-- Both ways to go on from an alarm: to answer, and to have it ring until it is over. -/
def scripts : List (List Word) := [[0, 0, 13], [0, 0, 0, 1]]

/-- The alarm asks for its line. -/
theorem asks_alarm {script : List Word} (h : script ∈ scripts) :
    Asks scripted alarm script (alarmed 66 "") (alarm.play scripted opening script).1.2
      (alarm.play scripted opening script).2 := by
  have hopening : ∀ script ∈ scripts,
      (alarm.play scripted opening script).1.1.toOption = some (some (alarmed 66 "")) := by
    decide +kernel
  exact asks_of_opening rfl (play_eq_of_toOption (hopening script h))

/-- The alarm waits once. -/
theorem waits_alarm {script : List Word} (h : script ∈ scripts) :
    Waits scripted alarm script 1 (ran alarm script 3).1 (ran alarm script 3).2 := by
  have hout : ∀ script ∈ scripts, ((alarm.play scripted opening script).1.2.play scripted
      (inquire (alarmed 66 "")) (alarm.play scripted opening script).2).1.1.toOption
        = some (.timedOut "no") := by
    decide +kernel
  have hentered : ∀ script ∈ scripts,
      (alarm.play scripted step script).1.1.toOption = some () := by
    decide +kernel
  have hinside : ∀ script ∈ scripts, ∀ steps < 2,
      (ran alarm script (1 + 2)).1.stack.depth < (ran alarm script (1 + steps)).1.stack.depth ∧
        (ran alarm script (1 + steps)).1.halted = none ∧
        ((ran alarm script (1 + steps)).1.play scripted step
          (ran alarm script (1 + steps)).2).1.1.toOption = some () := by
    decide +kernel
  have hback : ∀ script ∈ scripts,
      (ran alarm script 1).1.stack.depth = (ran alarm script (1 + 2)).1.stack.depth + 1 ∧
        (ran alarm script (1 + 2)).1.resume = some (alarmed 66 "no", 0) := by
    decide +kernel
  have hsame : ∀ script ∈ scripts,
      (ran alarm script 3).1.memory = (ran alarm script 1).1.memory ∧
      (ran alarm script 3).1.streams = (ran alarm script 1).1.streams ∧
      (ran alarm script 1).1.stack = (ran alarm script 3).1.stack.entered
        (ran alarm script 1).1.stack.current := by
    decide +kernel
  have hstep : alarm.play scripted step script
      = ((.ok (), (ran alarm script 1).1), (ran alarm script 1).2) :=
    play_eq_of_toOption (hentered script h)
  have hrunsOut := RunsOut.intro (asks_alarm h)
    ((reads_inquire _).play_of_toOption (hout script h)) hstep
  obtain ⟨hmemory, hstreams, hstack⟩ := hsame script h
  exact .succ .zero hrunsOut (returns_ran 2 (hinside script h) (hback script h))
    ⟨hmemory, hstreams, hstack⟩

/-- That story, answered after one alarm as if at once, and given up after a second. -/
theorem timeouts_transparent_alarm :
    SameEnd (alarm.play deaf step ())
        ((ran alarm [0, 0, 13] 3).1.play scripted step (ran alarm [0, 0, 13] 3).2) ∧
      ∃ after v, (ran alarm [0, 0, 0, 1] 6).1.play scripted step (ran alarm [0, 0, 0, 1] 6).2
          = ((.ok (), after), v) ∧
        GivenUp (alarmed 66 "no") (ran alarm [0, 0, 0, 1] 6).1 after := by
  have hreach : Reachable alarmImage (fun _ => False) alarm :=
    @Reachable.create _ (fun _ => False) Unit deaf {} () () alarm rfl
  constructor
  · have hresume : (ran alarm [0, 0, 13] 3).1.resume = some (alarmed 66 "no", 0) := by
      decide +kernel
    obtain ⟨typed, twin, t, hagain, hanswered, -⟩ := timeouts_transparent hreach rfl
      (asks_alarm (by decide)) (by decide) (by decide +kernel)
      (waits_alarm (by decide : [0, 0, 13] ∈ scripts))
    obtain ⟨hread, rfl, rfl⟩ := hagain.unique (.resumed hresume)
    rw [hread] at hanswered
    obtain ⟨⟨⟩, -, hsame⟩ := hanswered "" 13 _
      ((reads_inquire _).play_of_toOption (by decide +kernel)) Unit deaf ()
    exact hsame _ ((reads_inquire _).play_of_toOption (by decide +kernel))
      (fun hclick => absurd hclick (by decide))
  · have hresume : (ran alarm [0, 0, 0, 1] 3).1.resume = some (alarmed 66 "no", 0) := by
      decide +kernel
    have hback : (ran alarm [0, 0, 0, 1] 4).1.stack.depth
          = (ran alarm [0, 0, 0, 1] 6).1.stack.depth + 1 ∧
        (ran alarm [0, 0, 0, 1] 6).1.resume = some (alarmed 66 "no", 1) := by
      decide +kernel
    obtain ⟨typed, twin, t, -, -, hover⟩ := timeouts_transparent hreach rfl
      (asks_alarm (by decide)) (by decide) (by decide +kernel)
      (waits_alarm (by decide : [0, 0, 0, 1] ∈ scripts))
    obtain ⟨-, -, hgiven, -⟩ := hover "no" (ran alarm [0, 0, 0, 1] 4).1 _ 1 _ _
      (.intro (.resumed hresume) ((reads_inquire _).play_of_toOption (by decide +kernel))
        (play_ran (by decide +kernel)))
      (returns_ran 2 (by decide +kernel) hback) (by decide)
    have hcan : (ran alarm [0, 0, 0, 1] 6).1.CanAbandon (alarmed 66 "no") := by
      constructor
      · rintro _ ⟨⟩
        decide +kernel
      · rintro _ ⟨⟩
        show Play.globalAddress (ran alarm [0, 0, 0, 1] 6).1 16 + 1
          < (ran alarm [0, 0, 0, 1] 6).1.memory.dynamicCeiling
        decide +kernel
    obtain ⟨after, hplay, hafter⟩ := hgiven hcan
    exact ⟨after, _, hplay, hafter⟩

/-- A story that reads into a text buffer that cannot be written.  Its alarm goes off after a
second, and ends the read. -/
def muffledImage : Array UInt8 :=
  (storyOf [0xe4, 0x55, 0x58, 0x00, 0x0a, 0x14, 0x10, 0xba,
    0x00, 0xb0, 0, 0, 0, 0, 0, 0, 4, 0, 0, 0, 0, 0]).setIfInBounds 65 7

def muffled : Machine :=
  ((create deaf muffledImage {} ()).1.toOption).get rfl

/-- **Not every read can be given up.**  In that story, with no commands replayed and one frame,
the routine of the read returns 1 after its time has run out; then the step that is to store 0
fails, and the variable for the result is left as it was. -/
theorem not_abandoned_muffled :
    Reachable muffledImage (fun _ => False) muffled ∧
      ∃ pending poised typed entered returned v u w,
        Asks scripted muffled [0] pending poised v ∧ pending.routine ≠ 0 ∧
        poised.streams.replay = none ∧ poised.stack.depth < 1024 ∧
        RunsOut scripted muffled [0] typed entered u ∧
        Returns scripted entered u 1 returned w ∧ pending.store = some 16 ∧
        (returned.play scripted step w).1.1.toOption = none ∧
        (returned.play scripted step w).1.2.memory.wordAt (globalAddress returned 16) = 7 := by
  have hasks : Asks scripted muffled [0] (alarmed 88 "")
      (muffled.play scripted opening [0]).1.2 (muffled.play scripted opening [0]).2 :=
    asks_of_opening rfl (play_eq_of_toOption (by decide +kernel))
  have hstep : muffled.play scripted step [0]
      = ((.ok (), (ran muffled [0] 1).1), (ran muffled [0] 1).2) :=
    play_eq_of_toOption (by decide +kernel)
  refine ⟨@Reachable.create _ (fun _ => False) Unit deaf {} () () muffled rfl, _, _, "no",
    (ran muffled [0] 1).1, (ran muffled [0] 2).1, _, (ran muffled [0] 1).2, (ran muffled [0] 2).2,
    hasks, by decide, by decide +kernel, by decide +kernel,
    .intro hasks ((reads_inquire _).play_of_toOption (by decide +kernel)) hstep,
    ?_, rfl, by decide +kernel, by decide +kernel⟩
  have hback : (ran muffled [0] 1).1.stack.depth = (ran muffled [0] 2).1.stack.depth + 1 ∧
      (ran muffled [0] 2).1.resume = some (alarmed 88 "no", 1) := by
    decide +kernel
  exact returns_ran 1 (by decide +kernel) hback

end Play

end StoryMachine
