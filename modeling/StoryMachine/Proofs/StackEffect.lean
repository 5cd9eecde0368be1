import StoryMachine.Proofs.Stepping

/-!
# What instructions do to the stack

Most instructions are not about the stack: they meet it only through variable 0, when
they take an operand from it and when they put their result on it.  What such an
instruction does to the frame it runs in can be read off its operands and its store
variable, whatever its opcode is; the frames below it and their words stay
(`stack_effect`).

Two of them may do more.  A read with a time limit may enter a routine before it has a
result, and a branch may be one that returns once all else is done.  `Concluded` tells
these apart.
-/

namespace StoryMachine

variable {W α β : Type}

/-- Instructions that are about the stack or its frames, or go back to another state. -/
def Opcode.handlesStack : Opcode → Bool
  | .push | .pull | .pop | .popStack | .retPopped | .ret | .rtrue | .rfalse | .printRet
  | .call1s | .call2s | .callVs | .callVs2 | .call1n | .call2n | .callVn | .callVn2
  | .throwFrame | .restart | .restore | .restoreUndo => true
  | _ => false

namespace Instruction

/-- How many words the operands of an instruction take from the stack. -/
def popped (instruction : Instruction) : Nat :=
  instruction.operands.count (.var 0)

/-- How many words the result of an instruction puts on the stack. -/
def pushed (instruction : Instruction) : Nat :=
  if instruction.store = some 0 then 1 else 0

end Instruction

/-! ## Stacks that differ in the current frame only -/

namespace CallStack

/-- The words of the frames below the current one, the oldest first. -/
def olderWords (stack : CallStack) : List Word :=
  stack.words.take (owned stack.callers)

/-- Whether the frames own exactly the words that there are. -/
def Accounted (stack : CallStack) : Prop :=
  owned stack.frames = stack.words.length

/-- The stack after some words were taken from the current frame and some were pushed.  Frames
below the current one, and so how many there are, and their words are the same. -/
structure Balanced (stack : CallStack) (popped pushed : Nat) (after : CallStack) : Prop where
  callers_eq : after.callers = stack.callers
  olderWords_eq : after.olderWords = stack.olderWords
  size_eq : after.current.size + popped = stack.current.size + pushed
  accounted : after.Accounted

variable {stack middle after : CallStack} {n k n' k' : Nat} {target : Option UInt8}

/-- The words are accounted for if the current frame and the callers own them all. -/
theorem accounted_iff :
    stack.Accounted ↔ stack.current.size + owned stack.callers = stack.values.size := by
  rw [Accounted, owned_frames, length_words]

/-- Two changes in balance are in balance together. -/
theorem Balanced.trans (h : stack.Balanced n k middle) (h' : middle.Balanced n' k' after) :
    stack.Balanced (n + n') (k + k') after := by
  have hsize := h.size_eq
  have hsize' := h'.size_eq
  exact ⟨h'.callers_eq.trans h.callers_eq, h'.olderWords_eq.trans h.olderWords_eq, by omega,
    h'.accounted⟩

/-- A word taken and one pushed cancel out. -/
theorem Balanced.cancel (h : stack.Balanced (n + 1) (k + 1) after) : stack.Balanced n k after := by
  have hsize := h.size_eq
  exact ⟨h.callers_eq, h.olderWords_eq, by omega, h.accounted⟩

/-- Taking words is in balance.  The words that are dropped are above those of the older frames. -/
theorem Popped.balanced (h : stack.Popped n after) (hstack : stack.Accounted) :
    stack.Balanced n 0 after := by
  obtain ⟨rfl, hsize, hvalues⟩ := h
  rw [accounted_iff] at hstack
  have hlength := stack.values.size_eq
  refine ⟨rfl, ?_, ?_, ?_⟩
  · simp only [olderWords, words, dropped, WordStack.drop, List.reverse_drop, List.take_take]
    rw [Nat.min_eq_left (by omega)]
  · simp only [dropped]
    omega
  · rw [accounted_iff]
    simp only [dropped, WordStack.drop]
    omega

/-- Pushing a word is in balance. -/
theorem balanced_pushed (hstack : stack.Accounted) (word : Word) :
    stack.Balanced 0 1 (stack.pushed word) := by
  rw [accounted_iff] at hstack
  have hlength := stack.length_words
  refine ⟨rfl, ?_, rfl, ?_⟩
  · have hwords : (stack.pushed word).words = stack.words ++ [word] :=
      List.reverse_cons
    rw [olderWords, hwords, List.take_append_of_le_length (by show owned stack.callers ≤ _; omega)]
    rfl
  · rw [accounted_iff]
    simp only [pushed, WordStack.push]
    omega

/-- Setting a local takes and pushes nothing. -/
theorem balanced_withLocal (hstack : stack.Accounted) (number : UInt8) (value : Word) :
    stack.Balanced 0 0 (stack.withLocal number value) := by
  rw [accounted_iff] at hstack
  exact ⟨rfl, rfl, rfl, accounted_iff.mpr hstack⟩

/-- Doing nothing takes and pushes nothing. -/
theorem balanced_self (hstack : stack.Accounted) : stack.Balanced 0 0 stack :=
  ⟨rfl, rfl, rfl, hstack⟩

/-- Replacing the top word is taking it and pushing another. -/
theorem poked_eq (word : Word) (h : 0 < stack.current.size) :
    stack.poked word = (stack.dropped 1).pushed word := by
  simp only [poked, pushed, dropped, Nat.sub_add_cancel h]

/-- An edit takes and pushes nothing. -/
theorem Edited.balanced (h : stack.Edited after) (hstack : stack.Accounted) :
    stack.Balanced 0 0 after := by
  cases h with
  | stay => exact balanced_self hstack
  | setLocal number value => exact balanced_withLocal hstack number value
  | poke word hsize =>
      have hpopped : stack.Popped 1 (stack.dropped 1) := by
        rw [accounted_iff] at hstack
        exact ⟨rfl, hsize, by omega⟩
      rw [poked_eq word hsize]
      have htaken := hpopped.balanced hstack
      exact (htaken.trans (balanced_pushed htaken.accounted word)).cancel

/-- Delivering a value pushes a word if it goes to variable 0, and only then. -/
theorem balanced_delivered (hstack : stack.Accounted) (target : Option UInt8) (value : Word) :
    stack.Balanced 0 (if target = some 0 then 1 else 0) (stack.delivered target value) := by
  cases target with
  | none => exact balanced_self hstack
  | some number =>
      unfold delivered
      simp only [Option.some.injEq]
      split
      · exact balanced_pushed hstack value
      · split
        · exact balanced_withLocal hstack number value
        · exact balanced_self hstack

/-- What an instruction does to the stack besides taking its operands, if it neither enters a
routine nor returns.  Its result is delivered to its store variable.  One that has none may
write a variable that an operand names. -/
inductive Settled (stack : CallStack) (target : Option UInt8) : CallStack → Prop
  | delivered (value : Word) : Settled stack target (stack.delivered target value)
  | edited {after : CallStack} (hnone : target = none) (h : stack.Edited after) :
      Settled stack target after

/-- What an instruction does to the stack pushes a word if its result goes there. -/
theorem Settled.balanced (h : stack.Settled target after) (hstack : stack.Accounted) :
    stack.Balanced 0 (if target = some 0 then 1 else 0) after := by
  cases h with
  | delivered value => exact balanced_delivered hstack target value
  | edited hnone h =>
      rw [hnone]
      exact h.balanced hstack

end CallStack

/-- The value that a branch returns if it is taken, if it does return. -/
def BranchTarget.value? : BranchTarget → Option Word
  | .returnFalse => some 0
  | .returnTrue => some 1
  | .address _ => none

namespace Play

open Machine

/-! ## What is left when an instruction has been carried out -/

/-- That a branch was taken which returns from the routine. -/
def ReturnsByBranch (instruction : Instruction) (machine after : Machine) : Prop :=
  ∃ branch value, instruction.branch = some branch ∧
    (branch.target instruction.next).value? = some value ∧ machine.CanReturn ∧
    after = machine.returned value

/-- How an instruction that does not handle the stack ends, given the stack without its operands
and what is to become of that. -/
inductive Concluded (instruction : Instruction) (stack : CallStack) (Q : CallStack → Prop)
    (after : Machine) : Prop
  | settled (h : Q after.stack)
  /-- A read has started an interrupt routine, and nothing else is done to the stack. -/
  | waiting (hread : instruction.opcode = .read ∨ instruction.opcode = .readChar) (frame : Frame)
      (hpending : frame.pending.isSome = true) (h : after.stack = stack.entered frame)
  /-- The routine has returned after all. -/
  | returned (middle : Machine) (h : Q middle.stack)
      (hreturns : ReturnsByBranch instruction middle after)

/-- What becomes of the stack is also anything wider. -/
theorem Concluded.imp {instruction : Instruction} {stack : CallStack} {Q R : CallStack → Prop}
    {after : Machine} (h : Concluded instruction stack Q after) (hR : ∀ {stack}, Q stack → R stack) :
    Concluded instruction stack R after := by
  cases h with
  | settled h => exact .settled (hR h)
  | waiting hread frame hpending h => exact .waiting hread frame hpending h
  | returned middle h hreturns => exact .returned middle (hR h) hreturns

/-- Work with which an instruction is done. -/
abbrev Concludes (instruction : Instruction) (work : Play (StateM W) α) : Prop :=
  Leads (fun machine after =>
    Concluded instruction machine.stack (machine.stack.Settled instruction.store) after) work

/-- Quiet work that does to the stack what an instruction is to do. -/
abbrev Settles (instruction : Instruction) (work : Play (StateM W) α) : Prop :=
  Shifts (fun stack after => stack.Settled instruction.store after) work

variable {instruction : Instruction} {work : Play (StateM W) α}

/-- Delivering the result settles an instruction. -/
theorem Delivers.settles (h : Delivers instruction.store work) : Settles instruction work := by
  refine h.imp ?_
  rintro stack _ ⟨value, rfl⟩
  exact .delivered value

/-- An edit settles an instruction without a result. -/
theorem settles_of_edits (hnone : instruction.store = none) (h : Shifts CallStack.Edited work) :
    Settles instruction work := h.imp fun hedited => .edited hnone hedited

/-- Calm work settles an instruction without a result. -/
theorem Calm.settles (h : Calm work) (hnone : instruction.store = none) :
    Settles instruction work := by
  refine h.imp ?_
  rintro stack _ rfl
  exact .edited hnone .stay

/-- What settles an instruction concludes it. -/
theorem Settles.concludes (h : Settles instruction work) : Concludes instruction work :=
  Leads.imp h fun hboth => .settled hboth.2

/-- Calm work before a conclusion belongs to it. -/
theorem Calm.concludes_bind {next : α → Play (StateM W) β} (h : Calm work)
    (hnext : ∀ a, Concludes instruction (next a)) : Concludes instruction (work >>= next) :=
  Calm.leads_bind
    (R := fun stack after => Concluded instruction stack (stack.Settled instruction.store) after)
    h hnext

/-- A read delivers its result, or waits for a routine. -/
theorem concludes_of_answers (hread : instruction.opcode = .read ∨ instruction.opcode = .readChar)
    (h : Shifts (fun stack after => stack.Answered instruction.store after) work) :
    Concludes instruction work := by
  refine Leads.imp h fun {machine after} hboth => ?_
  obtain ⟨-, hanswered⟩ := hboth
  generalize hstack : after.stack = stack at hanswered
  cases hanswered with
  | delivered value => exact .settled (hstack ▸ .delivered value)
  | waiting frame hpending hsize => exact .waiting hread frame hpending hstack

/-- A jump that was made could be made. -/
theorem leads_jump (target : BranchTarget) :
    Leads (fun machine after => machine.CanFollow target ∧ after = machine.follow target)
      (jump target : Play (StateM W) Unit) := by
  intro host machine w
  refine ⟨fun _ after w' hplay => ?_, (ends_jump target host machine w).2⟩
  by_cases hcan : machine.CanFollow target
  · rw [play_jump_of_can host machine w hcan] at hplay
    cases hplay
    exact ⟨hcan, rfl⟩
  · obtain ⟨fault, stack, pc, hfault, -⟩ := play_jump_of_not host machine w hcan
    rw [hfault] at hplay
    exact nomatch hplay

/-- A branch leaves the stack as it is, unless it is one that returns. -/
theorem leads_branch (instruction : Instruction) (outcome : Bool) :
    Leads (fun machine after =>
        after.stack = machine.stack ∨ ReturnsByBranch instruction machine after)
      (branch instruction outcome : Play (StateM W) Unit) := by
  have hstay : Leads (fun machine after =>
      after.stack = machine.stack ∨ ReturnsByBranch instruction machine after)
        (pure () : Play (StateM W) Unit) := Leads.imp (calm_pure ()) fun hboth => .inl hboth.2
  unfold branch
  cases hbranch : instruction.branch with
  | none => exact hstay
  | some data =>
      refine .ite ((leads_jump _).imp ?_) hstay
      rintro machine _ ⟨hcan, rfl⟩
      cases htarget : data.target instruction.next with
      | address pc => exact .inl rfl
      | returnFalse =>
          rw [htarget] at hcan
          exact .inr ⟨data, 0, hbranch, congrArg _ htarget, hcan, rfl⟩
      | returnTrue =>
          rw [htarget] at hcan
          exact .inr ⟨data, 1, hbranch, congrArg _ htarget, hcan, rfl⟩

/-- An instruction that tests something when all else is done. -/
theorem Settles.concludes_branch (h : Settles instruction work) (test : α → Bool) :
    Concludes instruction (work >>= fun a => branch instruction (test a)) := by
  refine Leads.bind And.left ?_ h fun a => leads_branch instruction (test a)
  intro machine middle after hfirst hsecond
  rcases hsecond with hsame | hreturns
  · exact .settled (hsame ▸ hfirst.2)
  · exact .returned middle hfirst.2 hreturns

/-- A branch concludes an instruction without a result. -/
theorem concludes_branch (hnone : instruction.store = none) (outcome : Bool) :
    Concludes instruction (branch instruction outcome : Play (StateM W) Unit) :=
  (calm_pure ()).settles hnone |>.concludes_branch fun _ => outcome

/-- A report concludes an instruction that saves. -/
theorem concludes_report (instruction : Instruction) (value : Word) :
    Concludes instruction (report instruction value : Play (StateM W) Unit) := by
  unfold report
  by_cases hstore : instruction.store.isSome = true
  · rw [if_pos hstore]
    exact (delivers_store instruction value).settles.concludes
  · rw [if_neg hstore]
    exact concludes_branch (Option.not_isSome_iff_eq_none.mp hstore) _

/-- **What an instruction that does not handle the stack does to it**, given its operands: one
case for each opcode.  Whether there is a store variable is what the table of opcodes says. What
is not listed leaves the stack, delivers a result or handles the stack. -/
theorem concludes_perform (operands : List Word) {version : Nat}
    (hstore : instruction.store.isSome = instruction.opcode.stores version)
    (hopcode : instruction.opcode.handlesStack = false) (hundo : instruction.opcode ≠ .saveUndo) :
    Concludes instruction (perform instruction operands : Play (StateM W) Unit) := by
  have hnone (h : instruction.opcode.stores version = false) : instruction.store = none :=
    Option.isSome_eq_false_iff.mp (hstore.trans h) |> Option.isNone_iff_eq_none.mp
  by_cases hcalm : leavesStack instruction.opcode = true
  · refine ((calm_perform instruction operands hcalm).settles (hnone ?_)).concludes
    revert hcalm
    cases instruction.opcode <;> first | exact fun _ => rfl | exact nofun
  by_cases hresult : deliversResult instruction.opcode = true
  · exact (delivers_perform instruction operands hresult).settles.concludes
  refine calm_get.concludes_bind fun machine => ?_
  generalize hop : instruction.opcode = opcode at hnone hopcode hundo hcalm hresult
  cases opcode with
  | je | jl | jg | jz | test | piracy | makeMenu => exact concludes_branch (hnone rfl) _
  | verify => exact (calm_view _).concludes_bind fun _ => concludes_branch (hnone rfl) _
  | checkArgCount => exact calm_get.concludes_bind fun _ => concludes_branch (hnone rfl) _
  | jin => exact (calm_isInside _ _).concludes_bind fun _ => concludes_branch (hnone rfl) _
  | testAttr => exact (calm_hasAttribute _ _).concludes_bind fun _ => concludes_branch (hnone rfl) _
  | pushStack =>
      exact (calm_edit (Table.keepsStory_pushOnto _ _)).concludes_bind fun _ =>
        concludes_branch (hnone rfl) _
  | pictureData =>
      refine (calm_ask _).concludes_bind fun size => ?_
      cases size with
      | some size =>
          exact (calm_writePair _ _ _).concludes_bind fun _ => concludes_branch (hnone rfl) _
      | none => exact concludes_branch (hnone rfl) _
  | getSibling | getChild =>
      exact (calm_linkOf _ _ _).concludes_bind fun _ =>
        (delivers_store _ _).settles.concludes_branch _
  | scanTable =>
      exact (calm_scanTable _ _ _ _).concludes_bind fun _ =>
        (delivers_store _ _).settles.concludes_branch _
  | incChk | decChk => exact (settles_of_edits (hnone rfl) (edits_addToNamed _ _)).concludes_branch _
  | store => exact (settles_of_edits (hnone rfl) (edits_writeNamed _ _)).concludes
  | inc | dec =>
      exact (settles_of_edits (hnone rfl)
        ((edits_addToNamed _ _).bind_calm fun _ => calm_pure _)).concludes
  | jump | quit => exact leads_modify fun _ => .settled (.edited (hnone rfl) .stay)
  | read => exact concludes_of_answers (.inl hop) (answers_lineRead _)
  | readChar =>
      exact concludes_of_answers (.inr hop) <|
        .ite ((calm_warn _).shifts_bind fun _ => answers_charRead _) (answers_charRead _)
  | save =>
      exact .ite ((calm_saveAuxiliary _ _).concludes_bind fun _ =>
        (delivers_store _ _).settles.concludes) (leads_saveGame (concludes_report instruction))
  | _ =>
      first
      | exact absurd rfl hcalm
      | exact absurd rfl hresult
      | exact absurd rfl hundo
      | exact nomatch hopcode

/-- Keeping an undo generation is no move, but it ends with a result like any other. -/
theorem concluded_of_perform {host : Host (StateM W)} {poised after : Machine} {w w' : W}
    {operands : List Word} {version : Nat}
    (hstore : instruction.store.isSome = instruction.opcode.stores version)
    (hopcode : instruction.opcode.handlesStack = false)
    (hplay : poised.play host (perform instruction operands) w = ((.ok (), after), w')) :
    Concluded instruction poised.stack (poised.stack.Settled instruction.store) after := by
  by_cases hundo : instruction.opcode = .saveUndo
  · rw [perform, play_bind_of_ok (play_get poised host w), hundo] at hplay
    obtain ⟨v, hsave⟩ := play_saveUndo host poised w instruction
    obtain ⟨-, value, hvalue⟩ :=
      (delivers_store instruction _ host _ v).1 () after w' (hsave.symm.trans hplay)
    exact .settled (hvalue ▸ .delivered value)
  · exact (concludes_perform operands hstore hopcode hundo host poised w).1 () after w' hplay

end Play

/-! ## What a step does to the stack -/

namespace Machine

open Play

/-- The stack after an instruction: its operands were taken, and its result was stored. -/
structure Used (machine : Machine) (instruction : Instruction) (stack : CallStack) : Prop where
  balanced : machine.stack.Balanced instruction.popped instruction.pushed stack
  /-- There is one result if there is a store variable. -/
  stored : instruction.store.isSome = true → ∃ value,
    stack = (machine.stack.dropped instruction.popped).delivered instruction.store value

variable {host : Host (StateM W)} {machine poised after : Machine} {w w' : W}
  {instruction : Instruction} {stack : CallStack}

/-- What settles the stack behind its operands is what the instruction uses of it. -/
theorem used_of_settled (howned : machine.stack.Accounted)
    (hfetched : Fetched machine instruction poised)
    (h : poised.stack.Settled instruction.store stack) : machine.Used instruction stack := by
  have htaken := hfetched.popped.balanced howned
  refine ⟨?_, fun hsome => ?_⟩
  · have hboth := htaken.trans (h.balanced htaken.accounted)
    rwa [Nat.add_zero, Nat.zero_add] at hboth
  · cases h with
    | delivered value => exact ⟨value, by rw [hfetched.popped.after_eq]; rfl⟩
    | edited hnone h =>
        rw [hnone] at hsome
        exact nomatch hsome

/-- **The stack effect of an instruction.**  Take any machine whose frames own exactly the words
of the stack, and any instruction that it executes without a fault and that is not about the
stack.  Where it neither starts an interrupt routine nor returns by a branch, the frames below
the current one stay with their words; the current one loses a word for each operand that is
variable 0, and gets one if the result goes there.  The opcodes that store are those with a store
variable, and each of them stores one result. -/
theorem stack_effect (howned : machine.stack.Accounted) (hresume : machine.resume = none)
    (hdecode : Instruction.decode machine.memory machine.pc = .ok instruction)
    (hopcode : instruction.opcode.handlesStack = false)
    (hstep : machine.play host step w = ((.ok (), after), w')) :
    instruction.store.isSome = instruction.opcode.stores machine.memory.version ∧
      Concluded instruction (machine.stack.dropped instruction.popped)
        (machine.Used instruction) after := by
  have hstore := Instruction.store_of_decode hdecode
  refine ⟨hstore, ?_⟩
  rw [play_step_of_fetch hresume] at hstep
  rcases hfetch : machine.play host fetch w with ⟨⟨fault | ⟨fetched, operands⟩, poised⟩, v⟩
  · rw [play_bind_of_error hfetch] at hstep
    exact nomatch hstep
  · rw [play_bind_of_ok hfetch] at hstep
    have hfetched := fetched_of_play hfetch
    obtain rfl : fetched = instruction := Except.ok.inj (hfetched.decode_eq.symm.trans hdecode)
    have hconcluded := concluded_of_perform hstore hopcode (play_perform_of_carryOut hstep)
    have hused := hconcluded.imp fun hsettled => used_of_settled howned hfetched hsettled
    rwa [hfetched.popped.after_eq] at hused

/-- A story that pushes 7 and calls a routine, which pushes 1 and 2 and then adds them up. -/
def adding : Array UInt8 :=
  storyOf [0xe8, 0x7f, 7, 0x8f, 0, 20, 0xba, 0, 0, 0xe8, 0x7f, 1, 0xe8, 0x7f, 2, 0x74, 0, 0, 0]

/-- The machine that is about to add. -/
def adder : Machine :=
  (Machine.execute (((create deaf adding {} ()).1.toOption).get rfl) deaf 4 ()).1.2

theorem decodes_adder : (Instruction.decode adder.memory adder.pc).toOption.isSome = true := by
  decide +kernel

def addition : Instruction :=
  (Instruction.decode adder.memory adder.pc).toOption.get decodes_adder

/-- Both operands are taken and the sum is pushed; the word of the caller stays. -/
theorem stack_effect_adder :
    adder.stack.words = [7, 1, 2] ∧ adder.stack.current.size = 2 ∧
      ∃ after w', adder.play deaf step () = ((.ok (), after), w') ∧
        after.stack.olderWords = [7] ∧ after.stack.current.size = 1 := by
  have holder : adder.stack.olderWords = [7] := by decide +kernel
  have hsize : adder.stack.current.size = 2 := by decide +kernel
  have hdecode : Instruction.decode adder.memory adder.pc = .ok addition :=
    eq_ok_of_toOption (Option.some_get decodes_adder).symm
  have hok : (adder.play deaf step ()).1.1.toOption = some () := by decide +kernel
  obtain ⟨hadd, hbranches, hpopped, hpushed⟩ : addition.opcode = .add ∧ addition.branch = none ∧
      addition.popped = 2 ∧ addition.pushed = 1 := by
    decide +kernel
  obtain ⟨after, w', hstep⟩ : ∃ after w', adder.play deaf step () = ((.ok (), after), w') :=
    ⟨_, _, play_eq_of_toOption hok⟩
  refine ⟨by decide +kernel, hsize, after, w', hstep, ?_⟩
  cases (stack_effect (by unfold CallStack.Accounted; decide +kernel)
    (by decide +kernel) hdecode (by decide +kernel) hstep).2 with
  | settled h =>
      have hbalance := h.balanced.size_eq
      rw [hpopped, hpushed, hsize] at hbalance
      exact ⟨h.balanced.olderWords_eq.trans holder, Nat.add_right_cancel hbalance⟩
  | waiting hread =>
      rw [hadd] at hread
      exact absurd hread (by decide)
  | returned middle h hreturns =>
      obtain ⟨branch, value, hbranch, -⟩ := hreturns
      rw [hbranches] at hbranch
      exact nomatch hbranch

/-- A step that goes on with a read takes nothing from the stack.  It stores the result of the
read, or starts the routine once more. -/
theorem balanced_or_entered_of_resume {pending : PendingRead} {value : Word}
    (howned : machine.stack.Accounted) (hresume : machine.resume = some (pending, value))
    (hstep : machine.play host step w = ((.ok (), after), w')) :
    machine.stack.Balanced 0 (if pending.store = some 0 then 1 else 0) after.stack ∨
      ∃ frame, frame.pending.isSome = true ∧ after.stack = machine.stack.entered frame := by
  rw [play_step_of_resume hresume] at hstep
  obtain ⟨-, hanswered⟩ := (answers_resumeRead value pending host _ w).1 () after w' hstep
  generalize after.stack = stack at hanswered
  cases hanswered with
  | delivered result => exact .inl (CallStack.balanced_delivered howned pending.store result)
  | waiting frame hpending hsize => exact .inr ⟨frame, hpending, rfl⟩

end Machine

end StoryMachine
