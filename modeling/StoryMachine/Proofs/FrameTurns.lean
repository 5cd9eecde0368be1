import StoryMachine.Proofs.Stepping

/-!
# What a step does to the frames

The current frame is worked on: words of its own are pushed, dropped or replaced, or a
local is set (`Touches`).  Frames are left one after another, and the value of the last
one is delivered to the frame below, unless a read waits for it (`Sheds`).  A routine
is entered, with a frame that owns no words yet.  One step does either of the last two,
after the first, and nothing else (`Turns`).

Only a step that starts the machine again or goes back to another state has other
frames afterwards (`Replaces`).
-/

namespace StoryMachine

variable {W α β : Type}

namespace CallStack

/-- What can be done to the current frame and its words. -/
inductive Touch (stack : CallStack) : CallStack → Prop
  | push (word : Word) : Touch stack (stack.pushed word)
  | drop (n : Nat) (h : n ≤ stack.current.size) : Touch stack (stack.dropped n)
  | poke (word : Word) (h : 0 < stack.current.size) : Touch stack (stack.poked word)
  | setLocal (number : UInt8) (value : Word) : Touch stack (stack.withLocal number value)

/-- What can be done to the stack without a new frame. -/
inductive Shed (stack : CallStack) : CallStack → Prop
  | touch {after : CallStack} (h : stack.Touch after) : Shed stack after
  | leave (caller : Frame) (older : List Frame) (h : stack.callers = caller :: older)
      (hvalues : stack.current.size ≤ stack.values.size) : Shed stack (stack.left caller older)

variable {stack after : CallStack}

/-- What touches the current frame needs no new one. -/
theorem shed_of_touched (h : Relation.ReflTransGen Touch stack after) :
    Relation.ReflTransGen Shed stack after :=
  h.lift id fun _ _ => .touch

/-- An edit of the stack touches the current frame. -/
theorem touched_of_edited (h : stack.Edited after) : Relation.ReflTransGen Touch stack after := by
  cases h with
  | stay => exact .refl
  | poke word hsize => exact .single (.poke word hsize)
  | setLocal number value => exact .single (.setLocal number value)

/-- Delivering a value touches the current frame. -/
theorem touched_delivered (stack : CallStack) (target : Option UInt8) (value : Word) :
    Relation.ReflTransGen Touch stack (stack.delivered target value) := by
  unfold delivered
  cases target with
  | none => exact .refl
  | some number =>
      dsimp only
      split
      · exact .single (.push value)
      · split
        · exact .single (.setLocal number value)
        · exact .refl

/-- Routines that are left one after another. -/
theorem shed_of_run_leave {n : Nat} (h : stack.run (leave n) = (.ok (), after)) :
    Relation.ReflTransGen Shed stack after := by
  induction n generalizing stack with
  | zero =>
      cases h
      exact .refl
  | succ n ih =>
      rcases stack.run_ret with
        ⟨caller, older, hcallers, hvalues, hret⟩ | ⟨fault, middle, hret, -⟩ <;>
        rw [run_eq_on] at h hret <;> simp only [leave, Work.on_bind, hret] at h
      · exact .head (.leave caller older hcallers hvalues) (ih h)
      · cases h

/-- Unwinding sheds frames. -/
theorem shed_of_run_unwind {depth : Nat} (h : stack.run (unwind depth) = (.ok (), after)) :
    Relation.ReflTransGen Shed stack after := by
  by_cases hbad : depth = 0 ∨ stack.depth < depth
  · simp only [run_eq_on, unwind, Work.on_bind, Work.on_get, if_pos hbad] at h
    cases h
  · simp only [run_eq_on, unwind, Work.on_bind, Work.on_get, if_neg hbad] at h
    exact shed_of_run_leave h

end CallStack

namespace Machine

/-- The current frame stays, and no read is to be gone on with that was not before. -/
structure Touches (machine after : Machine) : Prop where
  touched : Relation.ReflTransGen CallStack.Touch machine.stack after.stack
  resume_eq : after.resume = machine.resume

/-- Frames may be left.  Either no read waits for that, or the machine is left where the last of
them says, to go on with the read that waited for it. -/
inductive Sheds (machine after : Machine) : Prop
  | frames (h : Relation.ReflTransGen CallStack.Shed machine.stack after.stack)
      (hresume : after.resume = machine.resume)
  | awaited (last : CallStack) (caller : Frame) (older : List Frame) (read : PendingRead)
      (value : Word) (h : Relation.ReflTransGen CallStack.Shed machine.stack last)
      (hcallers : last.callers = caller :: older)
      (hvalues : last.current.size ≤ last.values.size)
      (hpending : last.current.pending = some read)
      (hstack : after.stack = last.left caller older) (hpc : after.pc = last.current.returnPc)
      (hresume : after.resume = some (read, value))

/-- What becomes of the frames in one step, unless the stack is replaced. -/
inductive Turns (machine after : Machine) : Prop
  | sheds (h : Sheds machine after)
  | enters (caller : CallStack) (frame : Frame)
      (h : Relation.ReflTransGen CallStack.Touch machine.stack caller)
      (hsize : frame.size = 0) (hstack : after.stack = caller.entered frame)
      (hresume : after.resume = machine.resume)

variable {machine middle after : Machine}

/-- Touching the current frame is shedding no frame. -/
theorem Touches.sheds (h : Touches machine after) : Sheds machine after :=
  .frames (CallStack.shed_of_touched h.touched) h.resume_eq

/-- A machine that sheds frames has a stack that did. -/
theorem Sheds.shed (h : Sheds machine after) :
    Relation.ReflTransGen CallStack.Shed machine.stack after.stack := by
  cases h with
  | frames h hresume => exact h
  | awaited last caller older read value h hcallers hvalues hpending hstack hpc hresume =>
      rw [hstack]
      exact h.tail (.leave caller older hcallers hvalues)

/-- What happens after some frames have been left. -/
theorem Sheds.of_shed (hshed : Relation.ReflTransGen CallStack.Shed machine.stack middle.stack)
    (hresume : middle.resume = machine.resume) (h : Sheds middle after) : Sheds machine after := by
  cases h with
  | frames h hresume' => exact .frames (hshed.trans h) (hresume'.trans hresume)
  | awaited last caller older read value h hcallers hvalues hpending hstack hpc hresume' =>
      exact .awaited last caller older read value (hshed.trans h) hcallers hvalues hpending hstack
        hpc hresume'

/-- What touches the current frame before belongs to the turn. -/
theorem Turns.of_touches (htouches : Touches machine middle) (h : Turns middle after) :
    Turns machine after := by
  obtain ⟨htouched, hresume⟩ := htouches
  cases h with
  | sheds h => exact .sheds (h.of_shed (CallStack.shed_of_touched htouched) hresume)
  | enters caller frame h hsize hstack hresume' =>
      exact .enters caller frame (htouched.trans h) hsize hstack (hresume'.trans hresume)

end Machine

namespace Play

open Machine

/-- Quiet work on the current frame. -/
abbrev Touching (work : Play (StateM W) α) : Prop :=
  Shifts (Relation.ReflTransGen CallStack.Touch) work

section

variable {work : Play (StateM W) α} {next : α → Play (StateM W) β}

/-- Calm work touches nothing of the current frame. -/
theorem Calm.touching (h : Calm work) : Touching work := by
  refine h.imp ?_
  rintro stack _ rfl
  exact .refl

/-- Delivering a result touches the current frame only. -/
theorem Delivers.touching {target : Option UInt8} (h : Delivers target work) : Touching work := by
  refine h.imp ?_
  rintro stack _ ⟨value, rfl⟩
  exact stack.touched_delivered target value

/-- An edit touches the current frame only. -/
theorem touching_of_edits (h : Shifts CallStack.Edited work) : Touching work :=
  h.imp CallStack.touched_of_edited

/-- Work on the current frame after such work is work on it. -/
theorem Touching.bind (h : Touching work) (hnext : ∀ a, Touching (next a)) :
    Touching (work >>= next) :=
  Leads.bind And.left
    (fun hfirst hsecond => ⟨hfirst.1.trans hsecond.1, hfirst.2.trans hsecond.2⟩) h hnext

/-- Work on the current frame touches it. -/
theorem Touching.touches (h : Touching work) : Leads Touches work :=
  Leads.imp h fun hboth => ⟨hboth.2, hboth.1.resume_eq⟩

/-- Work on the current frame is a turn of the frames. -/
theorem Touching.turns (h : Touching work) : Leads Turns work :=
  h.touches.imp fun htouches => .sheds htouches.sheds

/-- What happens to the frames after work on the current one. -/
theorem Touching.turns_bind (h : Touching work) (hnext : ∀ a, Leads Turns (next a)) :
    Leads Turns (work >>= next) :=
  Leads.bind And.left
    (fun hfirst hsecond => hsecond.of_touches ⟨hfirst.2, hfirst.1.resume_eq⟩) h hnext

end

/-! ## The parts of an instruction -/

/-- Pushing touches the current frame only. -/
theorem touching_push (word : Word) :
    Touching (onStack (CallStack.push word) : Play (StateM W) Unit) := by
  refine (shifts_push word).imp ?_
  rintro stack _ rfl
  exact .single (.push word)

/-- Popping touches the current frame only. -/
theorem touching_pop : Touching (onStack CallStack.pop : Play (StateM W) Word) := by
  refine shifts_onStack CallStack.bearable_pop fun stack _ after hrun => ?_
  rcases stack.run_pop with ⟨word, hpop, hsize, hvalues⟩ | hpop <;> rw [hpop] at hrun
  · cases hrun
    exact ⟨.single (.drop 1 hsize hvalues), .single (.drop 1 hsize)⟩
  · exact nomatch hrun

/-- Dropping words touches the current frame only. -/
theorem touching_popMany (count : Nat) :
    Touching (onStack (CallStack.popMany count) : Play (StateM W) Unit) := by
  refine shifts_onStack (CallStack.bearable_popMany count) fun stack _ after hrun => ?_
  rcases stack.run_popMany count with ⟨hpop, hsize, hvalues⟩ | hpop <;> rw [hpop] at hrun
  · cases hrun
    exact ⟨.single (.drop count hsize hvalues), .single (.drop count hsize)⟩
  · exact nomatch hrun

/-- Storing a result touches the current frame only. -/
theorem touching_store (instruction : Instruction) (value : Word) :
    Touching (store instruction value : Play (StateM W) Unit) :=
  (delivers_store instruction value).touching

/-- The value of a routine that no read waits for is stored, or ends the story. -/
theorem touches_handOver {frame : Frame} (value : Word) (h : frame.pending = none) :
    Leads Touches (handOver frame value : Play (StateM W) Unit) := by
  unfold handOver
  rw [h]
  exact reads_get.leads_bind fun _ =>
    .ite (leads_modify fun _ => ⟨.refl, rfl⟩) (delivers_storeTo frame.store value).touching.touches

/-- Returning leaves the current frame, and a read that waits for it gets its value. -/
theorem sheds_ret (value : Word) : Leads Sheds (ret value : Play (StateM W) Unit) := by
  intro host machine w
  refine ⟨fun _ after w' hplay => ?_, (ends_ret value host machine w).2⟩
  rcases play_ret host machine w value with
    ⟨caller, older, hcallers, hvalues, hret⟩ | ⟨fault, stack, hret, -⟩ <;> rw [hret] at hplay
  · cases hpending : machine.stack.current.pending with
    | some read =>
        rw [handOver, hpending] at hplay
        cases hplay
        exact .awaited machine.stack caller older read value .refl hcallers hvalues hpending rfl
          rfl rfl
    | none =>
        have htouches := (touches_handOver value hpending host (machine.backIn caller older) w).1
          () after w' hplay
        have hleft : Relation.ReflTransGen CallStack.Shed machine.stack
            (machine.backIn caller older).stack := .single (.leave caller older hcallers hvalues)
        exact htouches.sheds.of_shed hleft rfl
  · exact nomatch hplay

/-- Returning is a turn. -/
theorem turns_ret (value : Word) : Leads Turns (ret value : Play (StateM W) Unit) :=
  (sheds_ret value).imp .sheds

/-- A branch that is taken leaves the frame or touches nothing. -/
theorem sheds_jump (target : BranchTarget) :
    Leads Sheds (jump target : Play (StateM W) Unit) := by
  cases target with
  | returnFalse => exact sheds_ret 0
  | returnTrue => exact sheds_ret 1
  | address address => exact leads_modify fun _ => .frames .refl rfl

/-- A branch is a turn. -/
theorem turns_branch (instruction : Instruction) (outcome : Bool) :
    Leads Turns (branch instruction outcome : Play (StateM W) Unit) := by
  unfold branch
  cases instruction.branch with
  | none => exact (calm_pure ()).touching.turns
  | some branch => exact .ite ((sheds_jump _).imp .sheds) (calm_pure ()).touching.turns

/-- A report is a turn. -/
theorem turns_report (instruction : Instruction) (value : Word) :
    Leads Turns (report instruction value : Play (StateM W) Unit) :=
  .ite (touching_store instruction value).turns (turns_branch instruction _)

/-- A call is a turn. -/
theorem turns_callWith (operands : List Word) (target : Option UInt8) :
    Leads Turns (callWith operands target : Play (StateM W) Unit) := by
  cases operands with
  | nil => exact (calm_throw _).touching.turns
  | cons routine arguments =>
      refine .ite (delivers_storeTo target 0).touching.turns ?_
      refine Leads.imp
        (shifts_enter (fun machine => machine.memory.story.routineAddress routine) _ _ _) ?_
      rintro machine after ⟨hmoves, frame, -, hsize, hstack⟩
      exact .enters machine.stack frame .refl hsize hstack hmoves.resume_eq

/-- A read is answered, or enters a routine. -/
theorem turns_of_answers {target : Option UInt8} {work : Play (StateM W) α}
    (h : Shifts (fun stack after => stack.Answered target after) work) : Leads Turns work := by
  refine Leads.imp h ?_
  rintro machine after ⟨hmoves, hanswered⟩
  generalize hstack : after.stack = stack at hanswered
  cases hanswered with
  | delivered value =>
      refine .sheds (Touches.sheds ⟨?_, hmoves.resume_eq⟩)
      rw [hstack]
      exact machine.stack.touched_delivered target value
  | waiting frame hpending hsize =>
      exact .enters machine.stack frame .refl hsize hstack hmoves.resume_eq

/-- Frames are thrown away, and then one more is left. -/
theorem turns_throw (depth : Nat) (value : Word) : Leads Turns (do
    onStack (CallStack.unwind depth)
    ret value : Play (StateM W) Unit) := by
  have hunwind : Shifts (Relation.ReflTransGen CallStack.Shed)
      (onStack (CallStack.unwind depth) : Play (StateM W) Unit) := by
    refine shifts_onStack (CallStack.bearable_unwind depth) fun stack _ after hrun => ?_
    rcases stack.run_unwind depth with ⟨_, hunwind, hmoves⟩ | ⟨fault, _, hunwind⟩ <;>
      rw [hunwind] at hrun
    · cases hrun
      exact ⟨hmoves, CallStack.shed_of_run_unwind hunwind⟩
    · exact nomatch hrun
  refine Leads.imp (Leads.bind And.left ?_ hunwind fun _ => sheds_ret value) .sheds
  intro machine middle after hfirst hsecond
  exact hsecond.of_shed hfirst.2 hfirst.1.resume_eq

/-- Pulling touches the current frame only. -/
theorem touching_pull (instruction : Instruction) (operands : List Word) :
    Touching (pull instruction operands : Play (StateM W) Unit) := by
  refine (calm_view _).touching.bind fun version =>
    .ite ?_ (touching_pop.bind fun _ => touching_of_edits (edits_writeNamed _ _))
  cases operands with
  | nil => exact touching_pop.bind fun _ => touching_store _ _
  | cons stack rest =>
      exact (calm_edit (Table.keepsStory_pullFrom _)).touching.bind fun _ => touching_store _ _

/-- Dropping words from either stack touches the current frame only. -/
theorem touching_popStack (operands : List Word) :
    Touching (popStack operands : Play (StateM W) Unit) := by
  unfold popStack
  split
  · exact (calm_edit <|
      .bind (Edit.keepsStory_look _) fun _ => Edit.keepsStory_writeWord _ _).touching
  · exact touching_popMany _

/-- **One instruction** enters a routine, or leaves some, or neither.  What is not listed here
leaves the stack or delivers a result. -/
theorem turns_perform (instruction : Instruction) (operands : List Word)
    (hplain : IsPlain instruction.opcode operands) :
    Leads Turns (perform instruction operands : Play (StateM W) Unit) := by
  by_cases hcalm : leavesStack instruction.opcode = true
  · exact (calm_perform instruction operands hcalm).touching.turns
  by_cases hresult : deliversResult instruction.opcode = true
  · exact (delivers_perform instruction operands hresult).touching.turns
  refine reads_get.leads_bind fun machine => ?_
  generalize instruction.opcode = opcode at hplain hcalm hresult
  cases opcode with
  | je | jl | jg | jz | test | piracy | makeMenu => exact turns_branch _ _
  | verify => exact (calm_view _).touching.turns_bind fun _ => turns_branch _ _
  | checkArgCount => exact calm_get.touching.turns_bind fun _ => turns_branch _ _
  | incChk | decChk =>
      exact (touching_of_edits (edits_addToNamed _ _)).turns_bind fun _ => turns_branch _ _
  | jin => exact (calm_isInside _ _).touching.turns_bind fun _ => turns_branch _ _
  | testAttr => exact (calm_hasAttribute _ _).touching.turns_bind fun _ => turns_branch _ _
  | pushStack =>
      exact (calm_edit (Table.keepsStory_pushOnto _ _)).touching.turns_bind fun _ =>
        turns_branch _ _
  | getSibling | getChild =>
      exact (calm_linkOf _ _ _).touching.turns_bind fun _ =>
        (touching_store _ _).turns_bind fun _ => turns_branch _ _
  | scanTable =>
      exact (calm_scanTable _ _ _ _).touching.turns_bind fun _ =>
        (touching_store _ _).turns_bind fun _ => turns_branch _ _
  | pictureData =>
      refine (calm_ask _).touching.turns_bind fun size => ?_
      cases size with
      | some size =>
          exact (calm_writePair _ _ _).touching.turns_bind fun _ => turns_branch _ _
      | none => exact turns_branch _ _
  | store => exact (touching_of_edits (edits_writeNamed _ _)).turns
  | inc | dec =>
      exact (touching_of_edits ((edits_addToNamed _ _).bind_calm fun _ => calm_pure _)).turns
  | push => exact (touching_push _).turns
  | pull => exact (touching_pull _ _).turns
  | pop => exact touching_pop.turns_bind fun _ => (calm_pure _).touching.turns
  | popStack => exact (touching_popStack _).turns
  | call1s | call2s | callVs | callVs2 | call1n | call2n | callVn | callVn2 =>
      exact turns_callWith _ _
  | ret | rtrue | rfalse => exact turns_ret _
  | retPopped => exact touching_pop.turns_bind fun _ => turns_ret _
  | throwFrame => exact turns_throw _ _
  | jump | quit => exact leads_modify fun _ => .sheds (.frames .refl rfl)
  | printRet =>
      have hend : Leads Turns (do printCodes [13]; ret 1 : Play (StateM W) Unit) :=
        (calm_printCodes [13]).touching.turns_bind fun _ => turns_ret 1
      dsimp only
      cases instruction.text with
      | some address => exact (calm_printAt address).touching.turns_bind fun _ => hend
      | none => exact hend
  | read => exact turns_of_answers (answers_lineRead _)
  | readChar =>
      exact .ite (turns_of_answers ((calm_warn _).shifts_bind fun _ => answers_charRead _))
        (turns_of_answers (answers_charRead _))
  | save =>
      exact .ite ((calm_saveAuxiliary _ _).touching.turns_bind fun _ =>
          (touching_store _ _).turns)
        (leads_saveGame (turns_report _))
  | restore =>
      have htable : 2 ≤ operands.length := hplain
      simp only [if_pos htable]
      exact (calm_restoreAuxiliary _ _).touching.turns_bind fun _ =>
        (touching_store _ _).turns
  | restart | saveUndo | restoreUndo => exact hplain.elim
  | _ => first | exact absurd rfl hcalm | exact absurd rfl hresult

/-! ## One step -/

section

variable {host : Host (StateM W)} {machine after : Machine} {w w' : W}

/-- An attempt to go back goes well, or fails harmlessly and the story is told of it. -/
theorem play_reloadOr_ok {work otherwise : Play (StateM W) Unit} {opcode : Opcode}
    {operands : List Word} {warning : Fault → Notice} (h : attempt? opcode operands = some work)
    (hplay : machine.play host (reloadOr work warning otherwise) w = ((.ok (), after), w')) :
    (∃ v, machine.play host work w = ((.ok (), after), v)) ∨
      ∃ v, machine.play host otherwise v = ((.ok (), after), w') := by
  rcases hwork : machine.play host work w with ⟨⟨fault | _, middle⟩, v⟩
  · obtain ⟨-, hsame⟩ := reload_of_attempt h hwork
    cases hfatal : fault.isFatal with
    | true =>
        rw [reloadOr, play_tryCatch, hwork] at hplay
        dsimp only at hplay
        rw [hfatal] at hplay
        cases hplay
    | false =>
        obtain rfl := hsame hfatal
        rw [play_reloadOr_of_harmless warning hwork hfatal] at hplay
        exact .inr ⟨_, hplay⟩
  · rw [reloadOr, play_tryCatch, hwork] at hplay
    cases hplay
    exact .inl ⟨_, rfl⟩

/-- The step of a machine starts it again, or goes back to another state. -/
inductive Replaces (host : Host (StateM W)) (machine : Machine) (w : W) (after : Machine) : Prop
  | restart {instruction : Instruction} {operands : List Word} {poised : Machine} {v v' : W}
      (hresume : machine.resume = none)
      (hfetch : machine.play host fetch w = ((.ok (instruction, operands), poised), v))
      (hopcode : instruction.opcode = .restart)
      (hplay : poised.play host restart v = ((.ok (), after), v'))
  | goBack {instruction : Instruction} {operands : List Word} {poised : Machine} {v v' : W}
      {work : Play (StateM W) Unit} (hresume : machine.resume = none)
      (hfetch : machine.play host fetch w = ((.ok (instruction, operands), poised), v))
      (hattempt : attempt? instruction.opcode operands = some work)
      (hplay : poised.play host work v = ((.ok (), after), v'))

/-- **One step** enters a routine, or leaves some, or neither, unless it replaces the stack. -/
theorem turns_of_step (hplay : machine.play host step w = ((.ok (), after), w')) :
    Turns { machine with resume := none } after ∨ Replaces host machine w after := by
  cases hresume : machine.resume with
  | some read =>
      obtain ⟨pending, value⟩ := read
      rw [play_step_of_resume hresume] at hplay
      exact .inl ((turns_of_answers (answers_resumeRead value pending) host _ w).1 () after w'
        hplay)
  | none =>
      rw [play_step_of_fetch hresume] at hplay
      obtain ⟨⟨instruction, operands⟩, poised, v, hfetch, hcarry⟩ := play_bind_ok hplay
      have hperform := play_perform_of_carryOut hcarry
      have hfetched : Touches { machine with resume := none } poised := by
        have h := fetched_of_play hfetch
        refine ⟨?_, ?_⟩
        · rw [h.popped.after_eq]
          exact .single (.drop _ h.popped.size_le)
        · rw [h.poised_eq]
          exact hresume
      rcases @perform_cases W instruction operands with
        hplain | ⟨hopcode, hrestart⟩ | ⟨-, hkeep⟩ |
        ⟨work, otherwise, warning, hattempt, hotherwise, hback⟩
      · exact .inl (((turns_perform instruction operands hplain host poised v).1 () after w'
          hperform).of_touches hfetched)
      · rw [hrestart] at hperform
        exact .inr (.restart hresume hfetch hopcode hperform)
      · rw [hkeep] at hperform
        obtain ⟨v', hstore⟩ := play_saveUndo host poised v instruction
        rw [hstore] at hperform
        have hstored := ((touching_store instruction _).touches host _ v').1 () after w' hperform
        exact .inl (.of_touches hfetched
          (.sheds (Touches.sheds ⟨hstored.touched, hstored.resume_eq⟩)))
      · rw [hback] at hperform
        rcases play_reloadOr_ok hattempt hperform with ⟨_, hwork⟩ | ⟨v', hother⟩
        · exact .inr (.goBack hresume hfetch hattempt hwork)
        · have hturns : Leads Turns otherwise := by
            rcases hotherwise with rfl | rfl
            · exact turns_report instruction 0
            · exact (touching_store instruction 0).turns
          exact .inl (((hturns host poised v').1 () after w' hother).of_touches hfetched)

end

end Play

end StoryMachine
