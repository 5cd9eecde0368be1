import StoryMachine.Proofs.CallIsolation
import StoryMachine.Proofs.FrameLimit
import StoryMachine.Proofs.FrameTurns

/-!
# A throw is a return from the frame that caught

`catch` delivers the depth, and `throw` leaves frames until there are so many, and then
one more.  What is below the frame of a routine stays as it is while steps are taken
that go well and leave that frame on the stack (`Stands`): every such step keeps the
frame `Inside` its place, right above the same stack (`inside_of_turns`).  So a throw finds
the frame again with its return address, its store variable and its read, and below it
the stack that was there when it caught.

No more is needed for that than that frames claim no words which are not there, and this
holds of every machine that can be reached (`covered_of_reachable`).
-/

namespace StoryMachine

variable {W V : Type}

namespace CallStack

variable {base stack : CallStack} {callee : Frame}

/-! ## Back to a frame that was not left -/

/-- **Thrown back to the frame of a routine**, the stack is left by a return as if nothing had been
done since the routine was entered. -/
theorem Inside.unwind (h : base.Inside callee stack) :
    ∃ now frame, stack.run (CallStack.unwind (base.depth + 1)) = (.ok (), now) ∧
      now.run CallStack.ret = (.ok frame, base) ∧ frame.ReturnsLike callee := by
  obtain ⟨newer, hatop, last, hlast, hreturns⟩ := h
  obtain ⟨gone, rfl⟩ : ∃ gone, newer = gone ++ [last] := List.getLast?_eq_some_iff.mp hlast
  have hdepth := hatop.depth_eq
  rw [List.length_append, List.length_singleton] at hdepth
  obtain ⟨now, hleave, hnow⟩ := hatop.leave
  obtain ⟨after, hret, hafter⟩ := hnow.ret
  have hgone : stack.depth - (base.depth + 1) = gone.length := by omega
  refine ⟨now, last, ?_, hafter.eq_base ▸ hret, hreturns⟩
  rw [run_unwind_of_le (Nat.succ_pos _) (by omega), hgone]
  exact hleave

/-- A routine is inside the stack that returning from it would leave. -/
theorem inside_left {caller : Frame} {older : List Frame}
    (hcallers : stack.callers = caller :: older)
    (hsize : stack.current.size ≤ stack.values.size) :
    (stack.left caller older).Inside stack.current stack := by
  refine ⟨[stack.current], ⟨?_, stack.values.words.take stack.current.size, ?_, ?_⟩,
    stack.current, rfl, .refl _⟩
  · rw [hcallers]
    rfl
  · exact (List.take_append_drop _ _).symm
  · rw [List.length_take, ← stack.values.size_eq, owned_cons, owned_nil]
    omega

/-- What is left when the current frame is left: exactly the words of the other frames, if the
frames own all words, and not otherwise. -/
theorem Covered.words_left_iff (h : stack.Covered) (caller : Frame) (older : List Frame) :
    (stack.left caller older).words = stack.olderWords ↔ stack.Accounted := by
  have howned := h.owned_le
  have hwords : (stack.left caller older).words
      = stack.words.take (stack.values.size - stack.current.size) := by
    show (stack.values.words.drop stack.current.size).reverse = _
    rw [words, List.take_reverse, ← stack.values.size_eq,
      Nat.sub_sub_self (by omega)]
  rw [accounted_iff, hwords]
  constructor
  · intro heq
    have hlength := congrArg List.length heq
    rw [olderWords, List.length_take, List.length_take, length_words] at hlength
    omega
  · intro haccounted
    rw [olderWords]
    congr 1
    omega

end CallStack

namespace Play

open Machine

/-! ## Frames claim no words that are not there -/

section

variable {host : Host (StateM W)} {machine after : Machine} {w w' : W}
  {outcome : Except Fault Unit}

/-- Work that is withstood leaves a covered stack. -/
theorem Withstood.covered {work : Play (StateM W) Unit} (h : Withstood work)
    (hplay : machine.play host work w = ((outcome, after), w')) (hcovered : machine.stack.Covered) :
    after.stack.Covered := by
  have hwithstands := h host machine w
  rw [hplay] at hwithstands
  exact hwithstands.stack_endures.covered hcovered

/-- Going back to a snapshot leaves a covered stack. -/
theorem covered_of_applySnapshot {bytes : List UInt8}
    (hplay : machine.play host (applySnapshot bytes) w = ((outcome, after), w'))
    (hcovered : machine.stack.Covered) : after.stack.Covered := by
  obtain ⟨-, hsame | ⟨restored, hparse, hendures⟩⟩ :=
    play_applySnapshot_stack host machine w bytes hplay
  · exact hsame ▸ hcovered
  · exact hendures.covered (Snapshot.accepted_of_parse hparse).storable.covered

/-- Restoring bytes leaves a covered stack. -/
theorem covered_of_restoreBytes {bytes : List UInt8}
    (hplay : machine.play host (restoreBytes bytes) w = ((outcome, after), w'))
    (hcovered : machine.stack.Covered) : after.stack.Covered := by
  rw [restoreBytes, play_bind] at hplay
  rcases happly : machine.play host (applySnapshot bytes) w with ⟨⟨fault | _, middle⟩, v⟩
  all_goals
    have hmiddle := covered_of_applySnapshot happly hcovered
    rw [happly] at hplay
    cases hplay
    exact hmiddle

/-- Undoing leaves a covered stack. -/
theorem covered_of_undo (hplay : machine.play host undo w = ((outcome, after), w'))
    (hcovered : machine.stack.Covered) : after.stack.Covered := by
  cases hpop : machine.undo.pop? with
  | none =>
      unfold undo at hplay
      rw [play_bind_of_ok (play_get machine host w), hpop] at hplay
      cases hplay
      exact hcovered
  | some pair =>
      obtain ⟨snapshot, ring⟩ := pair
      rw [play_undo host w hpop, play_bind, play_tryCatch] at hplay
      rcases happly : Machine.play { machine with undo := ring } host (applySnapshot snapshot) w
        with ⟨⟨fault | _, middle⟩, v⟩
      all_goals
        have hmiddle := covered_of_applySnapshot happly hcovered
        rw [happly] at hplay
        cases hplay
        exact hmiddle

/-- Every call to go back leaves a covered stack. -/
theorem covered_of_recall (how : Recall)
    (hplay : machine.play host how.work w = ((outcome, after), w'))
    (hcovered : machine.stack.Covered) : after.stack.Covered := by
  cases how with
  | undo => exact covered_of_undo hplay hcovered
  | bytes snapshot => exact covered_of_restoreBytes hplay hcovered
  | file =>
      exact of_file (P := fun _ after => after.stack.Covered) (fun _ => hcovered)
        (fun hrestore => covered_of_restoreBytes hrestore hcovered) hplay

/-- What an instruction tries that is to go back leaves a covered stack. -/
theorem covered_of_attempt {work : Play (StateM W) Unit} {opcode : Opcode} {operands : List Word}
    (h : attempt? opcode operands = some work)
    (hplay : machine.play host work w = ((outcome, after), w'))
    (hcovered : machine.stack.Covered) : after.stack.Covered := by
  unfold attempt? at h
  split at h
  · split at h
    · exact nomatch h
    · obtain rfl := Option.some.inj h
      exact of_file (P := fun _ after => after.stack.Covered) (fun _ => hcovered)
        (fun happly => covered_of_applySnapshot happly hcovered) hplay
  · obtain rfl := Option.some.inj h
    exact covered_of_undo hplay hcovered
  · exact nomatch h

/-- Starting again leaves a covered stack. -/
theorem covered_of_restart (hplay : machine.play host restart w = ((outcome, after), w'))
    (hcovered : machine.stack.Covered) : after.stack.Covered := by
  rcases (restarted_of_play hplay).started with ⟨-, hstack, -⟩ | ⟨-, -, hstorable, -⟩
  · exact hstack ▸ hcovered
  · exact hstorable.covered

/-- Carrying out an instruction leaves a covered stack. -/
theorem covered_of_carryOut {instruction : Instruction} {operands : List Word}
    (hplay : machine.play host (carryOut instruction operands) w = ((outcome, after), w'))
    (hcovered : machine.stack.Covered) : after.stack.Covered := by
  rcases @carryOut_cases W instruction operands with
    hends | hrestart | ⟨-, hkeep⟩ | ⟨work, otherwise, warning, hattempt, hotherwise, hback⟩
  · exact (withstood_of_ends hends).covered hplay hcovered
  · rw [hrestart] at hplay
    exact covered_of_restart hplay hcovered
  · rw [hkeep] at hplay
    obtain ⟨v, hstore⟩ := play_saveUndo host machine w instruction
    rw [hstore] at hplay
    exact (withstood_of_quiet (quiet_store instruction _)).covered hplay hcovered
  · rw [hback, reloadOr, play_tryCatch] at hplay
    rcases hwork : machine.play host work w with ⟨⟨fault | _, middle⟩, v⟩
    all_goals
      have hmiddle := covered_of_attempt hattempt hwork hcovered
      rw [hwork] at hplay
    · have hrest : Withstood (if fault.isFatal then throw fault else do
          note (warning fault)
          otherwise : Play (StateM W) Unit) :=
        withstood_of_ends <| .ite (quiet_throw _).ends <|
          (calm_note _).quiet.ends_bind fun _ => hotherwise
      exact hrest.covered hplay hmiddle
    · cases hplay
      exact hmiddle

/-- **A step leaves a covered stack.** -/
theorem covered_of_step (hplay : machine.play host step w = ((outcome, after), w'))
    (hcovered : machine.stack.Covered) : after.stack.Covered := by
  cases hresume : machine.resume with
  | some read =>
      obtain ⟨pending, value⟩ := read
      rw [play_step_of_resume hresume] at hplay
      exact (withstood_of_quiet (answers_resumeRead value pending).quiet).covered hplay hcovered
  | none =>
      rw [play_step_of_fetch hresume, play_bind] at hplay
      have hfetched := (withstood_fetch host machine w).stack_endures.covered hcovered
      rcases hfetch : machine.play host fetch w with
        ⟨⟨fault | ⟨instruction, operands⟩, poised⟩, v⟩ <;> rw [hfetch] at hplay hfetched
      · cases hplay
        exact hfetched
      · exact covered_of_carryOut hplay hfetched

end

end Play

namespace Machine

open Play

variable {image : Array UInt8} {ruledOut : Fault → Prop} {machine caught later : Machine}

/-- **No frame of any machine claims a word that is not there**, however the machine was reached. -/
theorem covered_of_reachable (h : Reachable image ruledOut machine) : machine.stack.Covered := by
  induction h with
  | create h => exact (created_of_create h).storable.covered
  | execute hreach h ih =>
      refine execute_induction (P := fun machine => machine.stack.Covered)
        (fun machine after outcome w w' _ hmachine hplay => ?_) ih h
      have hafter := covered_of_step hplay hmachine
      cases outcome with
      | ok _ => exact hafter
      | error fault => exact hafter
  | restart hreach h ih => exact covered_of_restart h ih
  | sendBack how hreach h hfault ih => exact covered_of_recall how h ih

/-! ## Steps that leave a frame where it is -/

/-- What one step does to frames on top of the routine's own leaves that one where it is. -/
theorem inside_of_turns {base : CallStack} {callee : Frame} {after : Machine}
    (h : base.Inside callee machine.stack) (hturns : Turns machine after)
    (hdepth : base.depth < after.stack.depth) : base.Inside callee after.stack := by
  cases hturns with
  | sheds hsheds => exact h.shed hsheds.shed hdepth
  | enters caller frame htouched hsize hstack =>
      rw [hstack]
      exact (h.touched htouched).enter hsize

/-- Steps that go well, each with any host, during which the frame at some depth stays on the
stack: none of them leaves fewer frames, starts again or goes back to another state. -/
inductive Stands (depth : Nat) (first : Machine) : Machine → Prop
  | refl : Stands depth first first
  | step {W : Type} {host : Host (StateM W)} {w w' : W} {machine after : Machine}
      (h : Stands depth first machine) (hplay : machine.play host step w = ((.ok (), after), w'))
      (hkept : ¬Replaces host machine w after) (hdepth : depth ≤ after.stack.depth) :
      Stands depth first after

/-- A frame that stays on the stack stays inside. -/
theorem inside_of_stands {base : CallStack} {callee : Frame}
    (hcaught : base.Inside callee caught.stack)
    (h : Stands (base.depth + 1) caught later) : base.Inside callee later.stack := by
  induction h with
  | refl => exact hcaught
  | @step _ _ _ _ machine _ _ hplay hkept hdepth ih =>
      rcases turns_of_step hplay with hturns | hreplaces
      · exact @inside_of_turns { machine with resume := none } _ _ _ ih hturns hdepth
      · exact absurd hreplaces hkept

/-! ## Catching and throwing -/

section

variable {host : Host (StateM W)} {poised : Machine} {w v : W} {opcode : Opcode}
  {instruction : Instruction} {operands : List Word}

/-- The next step of a machine carries out an instruction of some kind.  When it has been fetched
with its operands, the machine is `poised`. -/
structure ComesTo (host : Host (StateM W)) (machine : Machine) (w : W) (opcode : Opcode)
    (instruction : Instruction) (operands : List Word) (poised : Machine) (v : W) : Prop where
  resume_eq : machine.resume = none
  fetch_eq : machine.play host fetch w = ((.ok (instruction, operands), poised), v)
  opcode_eq : instruction.opcode = opcode

/-- The next step of a machine carries out what it comes to. -/
theorem ComesTo.play_step (h : ComesTo host machine w opcode instruction operands poised v) :
    machine.play host step w = poised.play host (carryOut instruction operands) v := by
  rw [play_step_of_fetch h.resume_eq, play_bind_of_ok h.fetch_eq]

/-- Operands are taken from the current frame. -/
theorem ComesTo.touch (h : ComesTo host machine w opcode instruction operands poised v) :
    machine.stack.Touch poised.stack := by
  obtain ⟨-, hpopped, -⟩ := fetched_of_play h.fetch_eq
  rw [hpopped.after_eq]
  exact .drop _ hpopped.size_le

/-- Fetching an instruction leaves the word that is caught. -/
theorem ComesTo.caught_eq (h : ComesTo host machine w opcode instruction operands poised v) :
    poised.stack.caught = machine.stack.caught := by
  rw [(fetched_of_play h.fetch_eq).popped.after_eq]
  rfl

/-- What the next step carries out, with a host that remembers nothing. -/
theorem comesTo_of_fetch {host : Host (StateM Unit)} (hresume : machine.resume = none)
    (hfetch : (machine.play host fetch ()).1.1.toOption.map
      (fun fetched => (fetched.1.opcode, fetched.2)) = some (opcode, operands)) :
    ∃ instruction, ComesTo host machine () opcode instruction operands
      (machine.play host fetch ()).1.2 () := by
  obtain ⟨⟨instruction, given⟩, hfetched, heq⟩ := Option.map_eq_some_iff.mp hfetch
  obtain ⟨hopcode, rfl⟩ := Prod.mk.inj heq
  exact ⟨instruction, hresume, play_unit_of_toOption hfetched, hopcode⟩

/-- Only three instructions can replace the stack. -/
theorem ComesTo.not_replaces {after : Machine}
    (h : ComesTo host machine w opcode instruction operands poised v)
    (hopcode : opcode ∉ [.restart, .restore, .restoreUndo]) : ¬Replaces host machine w after := by
  simp only [List.mem_cons, List.not_mem_nil, or_false, not_or] at hopcode
  obtain ⟨hrestart, hrestore, hundo⟩ := hopcode
  obtain ⟨-, hfetch, rfl⟩ := h
  rintro (⟨-, hfetch', hother, -⟩ | ⟨-, hfetch', hattempt, -⟩)
  · cases hfetch.symm.trans hfetch'
    exact hrestart hother
  · cases hfetch.symm.trans hfetch'
    unfold attempt? at hattempt
    split at hattempt
    case h_1 heq => exact hrestore heq
    case h_2 heq => exact hundo heq
    case h_3 => exact nomatch hattempt

/-- A throw unwinds the stack to its frame and returns from it. -/
theorem play_step_of_throw {value number : Word}
    (h : ComesTo host machine w .throwFrame instruction (value :: number :: operands) poised v) :
    machine.play host step w
      = poised.play host (do
        onStack (CallStack.unwind number.toNat)
        ret value) v := by
  have henough : ¬(instruction.count = .op2 ∧ (value :: number :: operands).length < 2) := by
    rintro ⟨-, hfew⟩
    simp only [List.length_cons] at hfew
    omega
  rw [h.play_step, carryOut, if_neg henough, perform, play_bind_of_ok (play_get poised host v),
    h.opcode_eq]
  rfl

/-- The depth is what a `catch` stores, and it does nothing else. -/
theorem play_store_of_catch {w' : W}
    (h : ComesTo host machine w .catchFrame instruction operands poised v)
    (hplay : machine.play host step w = ((.ok (), caught), w')) :
    poised.play host (store instruction machine.stack.caught) v = ((.ok (), caught), w') := by
  rw [h.play_step] at hplay
  have hperform := play_perform_of_carryOut hplay
  rwa [play_perform_catch h.opcode_eq, h.caught_eq] at hperform

/-- A frame that can be left returns where it says. -/
theorem play_ret_of_run {frame : Frame} {base : CallStack} (w : W) (value : Word)
    (h : machine.stack.run CallStack.ret = (.ok frame, base)) :
    machine.play host (ret value) w
      = Machine.play { machine with stack := base, pc := frame.returnPc } host
          (handOver frame value) w := by
  rw [ret, play_bind, play_onStack, h]
  rfl

/-- What becomes of a value depends on where the frame returns to. -/
theorem handOver_of_returnsLike {frame other : Frame} (h : frame.ReturnsLike other) (value : Word) :
    (handOver frame value : Play (StateM W) Unit) = handOver other value := by
  rw [handOver, handOver, h.pending_eq, h.store_eq]

/-- Throwing back to the frame of a routine leaves it, whatever has been put on top of it. -/
theorem play_throw_of_inside {base : CallStack} {callee : Frame}
    (h : base.Inside callee machine.stack) (w : W) (value : Word) :
    machine.play host (do
        onStack (CallStack.unwind (base.depth + 1))
        ret value) w
      = Machine.play { machine with stack := base, pc := callee.returnPc } host
          (handOver callee value) w := by
  obtain ⟨now, frame, hunwind, hret, hreturns⟩ := h.unwind
  have hthrown : machine.play host (onStack (CallStack.unwind (base.depth + 1))) w
      = ((.ok (), { machine with stack := now }), w) := by
    rw [play_onStack, hunwind]
  rw [play_bind_of_ok hthrown, play_ret_of_run w value hret, hreturns.returnPc_eq,
    handOver_of_returnsLike hreturns]

end

/-- **A throw is a return from the frame that caught.**  Take any machine that can be reached from
an image, by calls that go well or fail, in the frame of a routine at a depth that fits a word, and
let a `catch` go well there.  It stores the depth.  Let any steps go well that leave the frame on
the stack, and then let a `throw` come with a value and that number.  This does exactly what
returning the value would have done on the stack of the catch: the frames below remain, the
machine is where the catching frame returns to, and the value is handed over as that frame says.

The words that remain are exactly those of the frames below if and only if the frames owned all
words when the `catch` came, as they always do unless a call has reported a fault. -/
theorem throw_returns {host : Host (StateM W)} {host' : Host (StateM V)} {w v w' : W} {u u' : V}
    {poised thrown : Machine} {catching throwing : Instruction} {operands others : List Word}
    {value : Word} (hreach : Reachable image ruledOut machine) (hdeep : 2 ≤ machine.stack.depth)
    (hfits : machine.stack.depth ≤ 65535)
    (hcatch : ComesTo host machine w .catchFrame catching operands poised v)
    (hcaught : machine.play host step w = ((.ok (), caught), w'))
    (hstands : Stands machine.stack.depth caught later)
    (hthrow : ComesTo host' later u .throwFrame throwing (value :: machine.stack.caught :: others)
      thrown u') :
    (machine.stack.caught.toNat = machine.stack.depth ∧
      poised.play host (store catching machine.stack.caught) v = ((.ok (), caught), w')) ∧
    ∃ caller older, machine.stack.callers = caller :: older ∧
      later.play host' step u
        = Machine.play { thrown with stack := machine.stack } host' (ret value) u' ∧
      later.play host' step u
        = Machine.play { thrown with
            stack := machine.stack.left caller older
            pc := machine.stack.current.returnPc } host'
          (handOver machine.stack.current value) u' ∧
      ((machine.stack.left caller older).words = machine.stack.olderWords ↔
        machine.stack.Accounted) ∧
      (Untroubled image machine → machine.stack.Accounted) := by
  have hcovered := covered_of_reachable hreach
  have hsize : machine.stack.current.size ≤ machine.stack.values.size :=
    Nat.le_trans (Nat.le_add_right _ _) hcovered.owned_le
  have hnumber : machine.stack.caught.toNat = machine.stack.depth := by
    simp only [CallStack.caught, UInt16.toNat_ofNat']
    omega
  have hstored := play_store_of_catch hcatch hcaught
  refine ⟨⟨hnumber, hstored⟩, ?_⟩
  obtain ⟨caller, older, hcallers⟩ : ∃ caller older, machine.stack.callers = caller :: older := by
    refine List.exists_cons_of_ne_nil fun hnil => ?_
    rw [CallStack.depth, hnil, List.length_nil] at hdeep
    omega
  have hbase : (machine.stack.left caller older).depth + 1 = machine.stack.depth := by
    simp only [CallStack.depth, CallStack.left, hcallers, List.length_cons]
  have hcatching : (machine.stack.left caller older).Inside machine.stack.current poised.stack :=
    (CallStack.inside_left hcallers hsize).touch hcatch.touch
  have hafter := hcatching.touched
    (((touching_store catching _).touches host poised v).1 () caught w' hstored).touched
  have hthrowing := (inside_of_stands hafter (hbase ▸ hstands)).touch hthrow.touch
  have hthrown := (play_step_of_throw hthrow).trans
    (hnumber.trans hbase.symm ▸ play_throw_of_inside hthrowing u' value)
  have hreturned := @play_ret_of_run V { thrown with stack := machine.stack } host' _ _ u' value
    (machine.stack.run_ret_of_cons hcallers hsize)
  exact ⟨caller, older, hcallers, hthrown.trans hreturned.symm, hthrown,
    hcovered.words_left_iff caller older, fun h => (orderly_of_untroubled h).accounted⟩

/-- A story that pushes 5 and calls a routine.  This one catches into a global variable, pushes 7
and calls another, which pushes 9 and throws 33. -/
def hurling : Array UInt8 :=
  storyOf [0xe8, 0x7f, 5, 0x88, 0x00, 21, 16, 0xba, 0, 0, 0, 0,
    0, 0xb9, 17, 0xe8, 0x7f, 7, 0x88, 0x00, 25, 0, 0xb0, 0, 0, 0, 0, 0,
    0, 0xe8, 0x7f, 9, 0x3c, 33, 17]

def hurler : Machine := ((create deaf hurling {} ()).1.toOption).get rfl

/-- That story after some steps, counted from the catch. -/
def hurled : Nat → Machine
  | 0 => (hurler.execute deaf 2 ()).1.2
  | n + 1 => ((hurled n).play deaf step ()).1.2

/-- The story after a step that went well is the next. -/
theorem play_hurled {n : Nat} (h : ((hurled n).play deaf step ()).1.1.toOption = some ()) :
    (hurled n).play deaf step () = ((.ok (), hurled (n + 1)), ()) :=
  play_unit_of_toOption h

/-- The steps between the catch and the throw. -/
theorem stands_hurled : Stands 2 (hurled 1) (hurled 4) := by
  let steps : List (Nat × Opcode × List Word) :=
    [(1, .push, [7]), (2, .call1s, [25]), (3, .push, [9])]
  have hresume : ∀ next ∈ steps, (hurled next.1).resume = none := by decide +kernel
  have hfetch : ∀ next ∈ steps, ((hurled next.1).play deaf fetch ()).1.1.toOption.map
      (fun fetched => (fetched.1.opcode, fetched.2)) = some next.2 := by
    decide +kernel
  have hplain : ∀ next ∈ steps, next.2.1 ∉ [.restart, .restore, .restoreUndo] := by decide
  have hgood : ∀ next ∈ steps, ((hurled next.1).play deaf step ()).1.1.toOption = some () := by
    decide +kernel
  have hdepth : ∀ next ∈ steps, 2 ≤ (hurled (next.1 + 1)).stack.depth := by decide +kernel
  have hstep (next : Nat × Opcode × List Word) (hnext : next ∈ steps)
      (h : Stands 2 (hurled 1) (hurled next.1)) : Stands 2 (hurled 1) (hurled (next.1 + 1)) := by
    obtain ⟨_, hcomes⟩ := comesTo_of_fetch (hresume next hnext) (hfetch next hnext)
    exact h.step (play_hurled (hgood next hnext)) (hcomes.not_replaces (hplain next hnext))
      (hdepth next hnext)
  exact hstep (3, .push, [9]) (by decide) <| hstep (2, .call1s, [25]) (by decide) <|
    hstep (1, .push, [7]) (by decide) .refl

/-- What the catching routine and the other one had pushed is gone, the value is in the global
variable of the first call, and the story goes on behind that. -/
theorem throw_returns_nested :
    (hurled 4).stack.words = [5, 7, 9] ∧ (hurled 4).stack.depth = 3 ∧
      (hurled 4).play deaf step () = Machine.play
        { ((hurled 4).play deaf fetch ()).1.2 with stack := (hurled 0).stack } deaf (ret 33) () ∧
      (hurled 5).stack.words = [5] ∧ (hurled 5).stack.depth = 1 ∧ (hurled 5).pc = 79 ∧
      (hurled 5).memory.wordAt 64 = 33 := by
  have hcreate : Reachable hurling (fun _ => False) hurler :=
    @Reachable.create hurling _ Unit deaf {} () () hurler rfl
  have hreach : Reachable hurling (fun _ => False) (hurled 0) := by
    rw [hurled]
    exact reachable_executed deaf 2 hcreate
  have hdepth : (hurled 0).stack.depth = 2 := by decide +kernel
  have hdeep : 2 ≤ (hurled 0).stack.depth := by rw [hdepth]
  have hfits : (hurled 0).stack.depth ≤ 65535 := by
    rw [hdepth]
    decide
  have hstands : Stands (hurled 0).stack.depth (hurled 1) (hurled 4) := by
    rw [hdepth]
    exact stands_hurled
  have hgood : ((hurled 0).play deaf step ()).1.1.toOption = some () := by decide +kernel
  have hcatching : ((hurled 0).play deaf fetch ()).1.1.toOption.map
      (fun fetched => (fetched.1.opcode, fetched.2)) = some (.catchFrame, []) := by
    decide +kernel
  have hthrowing : ((hurled 4).play deaf fetch ()).1.1.toOption.map
      (fun fetched => (fetched.1.opcode, fetched.2))
        = some (.throwFrame, [33, (hurled 0).stack.caught]) := by
    decide +kernel
  obtain ⟨catching, hcatch⟩ := comesTo_of_fetch (by decide +kernel) hcatching
  obtain ⟨throwing, hthrow⟩ := comesTo_of_fetch (by decide +kernel) hthrowing
  obtain ⟨-, caller, older, -, hret, -⟩ := throw_returns hreach hdeep hfits hcatch
    (play_hurled hgood) hstands hthrow
  exact ⟨by decide +kernel, by decide +kernel, hret, by decide +kernel, by decide +kernel,
    by decide +kernel, by decide +kernel⟩

end Machine

end StoryMachine
