import StoryMachine.Proofs.FrameTurns
import StoryMachine.Proofs.StackDiscipline
import StoryMachine.Proofs.Unwinding

/-!
# Calls are isolated

A routine is entered with a frame of its own (`Entered`).  From then on the stack has
that frame, right above those that were there before; its locals and words change,
and more frames may come on top of it, but it goes back to where its caller said
(`Inside`).  Every operation that does not leave the frame keeps this
(`Inside.step`), so any number of them does (`Inside.runs`).

When the frame is the current one again, returning finds the stack as it was
before the call (`calls_isolated`).
-/

namespace StoryMachine

/-- The operations on the call stack. -/
inductive StackOperation
  | push (word : Word)
  | pop
  | popMany (count : Nat)
  | poke (word : Word)
  | setLocal (number : UInt8) (value : Word)
  | call (memory : Memory) (address : Nat) (arguments : List Word) (returnPc : Nat)
      (store : Option UInt8) (pending : Option PendingRead)
  | ret
  | unwind (depth : Nat)

/-- What an operation does to the stack; its result is not looked at. -/
def StackOperation.work : StackOperation → StackWork Unit
  | .push word => CallStack.push word
  | .pop => do let _ ← CallStack.pop
  | .popMany count => CallStack.popMany count
  | .poke word => CallStack.poke word
  | .setLocal number value => CallStack.setLocal number value
  | .call memory address arguments returnPc store pending => do
    let _ ← CallStack.call memory address arguments returnPc store pending
  | .ret => do let _ ← CallStack.ret
  | .unwind depth => CallStack.unwind depth

/-- Frames that go back to the same place when they return. -/
structure Frame.ReturnsLike (frame other : Frame) : Prop where
  returnPc_eq : frame.returnPc = other.returnPc
  store_eq : frame.store = other.store
  pending_eq : frame.pending = other.pending

/-- A frame goes back where it goes back. -/
theorem Frame.ReturnsLike.refl (frame : Frame) : frame.ReturnsLike frame :=
  ⟨rfl, rfl, rfl⟩

/-- Frames that go back to the same place as a third go back to the same place. -/
theorem Frame.ReturnsLike.trans {frame middle other : Frame} (h : frame.ReturnsLike middle)
    (h' : middle.ReturnsLike other) : frame.ReturnsLike other :=
  ⟨h.returnPc_eq.trans h'.returnPc_eq, h.store_eq.trans h'.store_eq,
    h.pending_eq.trans h'.pending_eq⟩

namespace CallStack

/-! ## Entering a routine -/

/-- What a routine with `count` locals is entered with, and where it begins.  Locals without an
argument start as the words behind the count in versions 3 and 4, and as zeros later. -/
structure Entered (memory : Memory) (address : Nat) (arguments : List Word) (count : UInt8)
    (frame : Frame) (first : Nat) : Prop where
  count_eq : memory.readByte address = .ok count
  length_eq : frame.locals.length = count.toNat
  argument_eq : ∀ i argument, i < count.toNat → arguments[i]? = some argument →
    frame.locals[i]? = some argument
  word_eq : memory.version ≤ 4 → ∀ i, i < count.toNat → arguments.length ≤ i →
    ∃ word, memory.readWord (address + 1 + 2 * i) = .ok word ∧ frame.locals[i]? = some word
  zero_eq : 4 < memory.version → ∀ i, i < count.toNat → arguments.length ≤ i →
    frame.locals[i]? = some 0
  first_eq : first =
    if memory.version ≤ 4 then address + 1 + 2 * count.toNat else address + 1

/-- The arguments take the place of the first locals, as far as there are locals. -/
theorem getElem?_withArguments (locals arguments : List Word) (i : Nat) :
    (withArguments locals arguments)[i]? = locals[i]?.map (arguments[i]?.getD ·) := by
  induction locals generalizing arguments i with
  | nil => cases arguments <;> rfl
  | cons value locals ih =>
      cases arguments with
      | nil => simp [withArguments]
      | cons argument arguments =>
          cases i with
          | zero => rfl
          | succ i => simpa [withArguments] using ih arguments i

/-- A local starts as a word of the routine's header up to version 4, and later as zero. -/
theorem getElem?_initialLocals {memory : Memory} {address count i : Nat} {locals : List Word}
    (h : initialLocals memory address count = .ok locals) (hi : i < count) :
    if memory.version ≤ 4 then
      ∃ word, memory.readWord (address + 2 * i) = .ok word ∧ locals[i]? = some word
    else locals[i]? = some 0 := by
  unfold initialLocals at h
  split at h
  case isTrue hversion =>
      rw [if_pos hversion]
      exact getElem?_of_mapM h (List.getElem?_range hi)
  case isFalse hversion =>
      rw [if_neg hversion]
      obtain rfl : List.replicate count 0 = locals := Except.ok.inj h
      exact List.getElem?_replicate_of_lt hi

variable {base stack after entered : CallStack} {callee frame top : Frame}
  {newer rest : List Frame} {memory : Memory} {address returnPc first : Nat}
  {arguments : List Word} {store : Option UInt8} {pending : Option PendingRead}

/-- A routine that is entered has a frame of its own. -/
theorem entered_of_run_call
    (h : stack.run (call memory address arguments returnPc store pending)
      = (.ok first, entered)) :
    ∃ frame count, entered = stack.entered frame ∧ frame.size = 0 ∧
      frame.ReturnsLike { returnPc, store, pending } ∧
      Entered memory address arguments count frame first := by
  by_cases hdepth : maxFrames ≤ stack.depth
  · simp only [run_eq_on, call, Work.on_bind, Work.on_get, if_pos hdepth] at h
    cases h
  rcases hcount : memory.readByte address with fault | count
  · simp only [run_eq_on, call, Work.on_bind, Work.on_get, if_neg hdepth, Work.on_ofExcept,
      hcount] at h
    cases h
  by_cases hmany : 15 < count.toNat
  · simp only [run_eq_on, call, Work.on_bind, Work.on_get, if_neg hdepth, Work.on_ofExcept,
      hcount, if_pos hmany] at h
    cases h
  rcases hlocals : initialLocals memory (address + 1) count.toNat with fault | locals
  · simp only [run_eq_on, call, Work.on_bind, Work.on_get, if_neg hdepth, Work.on_ofExcept,
      hcount, if_neg hmany, hlocals] at h
    cases h
  simp only [run_eq_on, call, Work.on_bind, Work.on_get, if_neg hdepth, Work.on_ofExcept,
    hcount, if_neg hmany, hlocals, Work.on_set] at h
  obtain ⟨hfirst, rfl⟩ := Prod.mk.inj h
  have hlength := (initialLocals_eq_ok hlocals).1
  have hlocal (i : Nat) (hi : i < count.toNat) := getElem?_initialLocals hlocals hi
  refine ⟨_, count, rfl, rfl, ⟨rfl, rfl, rfl⟩, ?_⟩
  refine ⟨hcount, (length_withArguments locals arguments).trans hlength, ?_, ?_, ?_,
    (Except.ok.inj hfirst).symm⟩
  · intro i argument hi hargument
    rw [getElem?_withArguments, hargument, List.getElem?_eq_getElem (hlength ▸ hi)]
    rfl
  · intro hversion i hi harguments
    have hword := hlocal i hi
    rw [if_pos hversion] at hword
    obtain ⟨word, hread, hword⟩ := hword
    refine ⟨word, hread, ?_⟩
    rw [getElem?_withArguments, hword, List.getElem?_eq_none harguments]
    rfl
  · intro hversion i hi harguments
    have hzero := hlocal i hi
    rw [if_neg (Nat.not_le.mpr hversion)] at hzero
    rw [getElem?_withArguments, hzero, List.getElem?_eq_none harguments]
    rfl

/-! ## Inside a routine -/

/-- The frame of a routine is right above the base, whatever has become of its locals and
words; other frames may be on top of it. -/
def Inside (base : CallStack) (callee : Frame) (stack : CallStack) : Prop :=
  ∃ newer, base.Atop newer stack ∧ ∃ frame ∈ newer.getLast?, frame.ReturnsLike callee

/-- The newest frame may be another one that returns to the same place. -/
theorem Atop.inside (h : base.Atop (frame :: rest) after)
    (hlast : ∃ last ∈ (top :: rest).getLast?, last.ReturnsLike callee)
    (hframe : frame.ReturnsLike top) : base.Inside callee after := by
  refine ⟨_, h, ?_⟩
  obtain ⟨last, hlast, hreturns⟩ := hlast
  cases rest with
  | nil =>
      obtain rfl : top = last := by simpa using hlast
      exact ⟨frame, rfl, hframe.trans hreturns⟩
  | cons below rest => exact ⟨last, by simpa using hlast, hreturns⟩

/-- Frames on top of the routine's own may be left. -/
theorem Atop.inside_of_append {gone : List Frame} (h : base.Atop newer after)
    (hlast : ∃ last ∈ (gone ++ newer).getLast?, last.ReturnsLike callee)
    (hdepth : base.depth < after.depth) : base.Inside callee after := by
  have hne : newer ≠ [] := by
    rintro rfl
    rw [h.eq_base] at hdepth
    exact Nat.lt_irrefl _ hdepth
  rw [List.getLast?_append, List.getLast?_eq_some_getLast hne, Option.some_or] at hlast
  rw [← List.getLast?_eq_some_getLast hne] at hlast
  exact ⟨newer, h, hlast⟩

/-- A callee that is inside is the oldest of the frames above the base. -/
theorem Inside.exists_atop (h : base.Inside callee stack) :
    ∃ frame rest, base.Atop (frame :: rest) stack ∧
      ∃ last ∈ (frame :: rest).getLast?, last.ReturnsLike callee := by
  obtain ⟨newer, hatop, last, hlast, hreturns⟩ := h
  obtain ⟨frame, rest, rfl⟩ : ∃ frame rest, newer = frame :: rest :=
    List.exists_cons_of_ne_nil fun hnil => by simp [hnil] at hlast
  exact ⟨frame, rest, hatop, last, hlast, hreturns⟩

/-- What is done to the newest frame leaves those below it alone. -/
theorem Atop.touch (h : base.Atop (frame :: rest) stack) (htouch : stack.Touch after) :
    ∃ other, base.Atop (other :: rest) after ∧ other.ReturnsLike frame := by
  have hcurrent := h.current_eq
  cases htouch with
  | push word => exact ⟨_, h.pushed word, rfl, rfl, rfl⟩
  | drop n hsize => exact ⟨_, h.dropped (hcurrent ▸ hsize), rfl, rfl, rfl⟩
  | poke word hsize => exact ⟨_, h.poked (hcurrent ▸ hsize) word, .refl frame⟩
  | setLocal number value => exact ⟨_, h.withLocal number value, rfl, rfl, rfl⟩

/-- What touches the current frame leaves the callee inside. -/
theorem Inside.touch (h : base.Inside callee stack) (htouch : stack.Touch after) :
    base.Inside callee after := by
  obtain ⟨frame, rest, hatop, hlast⟩ := h.exists_atop
  obtain ⟨other, hafter, hreturns⟩ := hatop.touch htouch
  exact hafter.inside hlast hreturns

/-- So does touching it many times. -/
theorem Inside.touched (h : base.Inside callee stack)
    (htouched : Relation.ReflTransGen Touch stack after) : base.Inside callee after := by
  induction htouched with
  | refl => exact h
  | tail _ htouch ih => exact ih.touch htouch

/-- Shedding adds no frame. -/
theorem Shed.depth_le (h : stack.Shed after) : after.depth ≤ stack.depth := by
  cases h with
  | touch htouch => cases htouch <;> exact Nat.le_refl _
  | leave caller older hcallers hvalues => exact (Move.leave caller older hcallers hvalues).depth_le

/-- Frames on top of the routine's own may be left.  No frame comes back, so the stack was deep
enough before this as well. -/
theorem Inside.shed (h : base.Inside callee stack)
    (hshed : Relation.ReflTransGen Shed stack after) (hdepth : base.depth < after.depth) :
    base.Inside callee after := by
  induction hshed with
  | refl => exact h
  | @tail middle after _ hshed ih =>
      have hinside := ih (Nat.lt_of_lt_of_le hdepth hshed.depth_le)
      cases hshed with
      | touch htouch => exact hinside.touch htouch
      | leave caller older hcallers hvalues =>
          obtain ⟨frame, rest, hatop, hlast⟩ := hinside.exists_atop
          obtain ⟨left, hret, hrest⟩ := hatop.ret
          rw [run_ret_of_cons _ hcallers hvalues] at hret
          cases hret
          have hkept : ∃ last ∈ ([middle.current] ++ rest).getLast?,
              last.ReturnsLike callee := hlast
          exact hrest.inside_of_append hkept hdepth

/-- A routine that is entered leaves the callee inside, below it. -/
theorem Inside.enter (h : base.Inside callee stack) (hsize : frame.size = 0) :
    base.Inside callee (stack.entered frame) := by
  obtain ⟨newer, hatop, last, hlast, hreturns⟩ := h
  refine ⟨_, hatop.entered hsize, last, ?_, hreturns⟩
  rw [List.getLast?_cons, hlast]
  rfl

/-- **One operation.**  A routine that is not left stays where it is. -/
theorem Inside.step {operation : StackOperation} (h : base.Inside callee stack)
    (hwork : stack.run operation.work = (.ok (), after)) (hdepth : base.depth < after.depth) :
    base.Inside callee after := by
  cases operation with
  | push word =>
      have hroom : stack.values.size < WordStack.limit := by
        refine Nat.not_le.mp fun hfull => ?_
        rw [StackOperation.work, stack.run_push_of_le word hfull] at hwork
        exact nomatch hwork
      rw [StackOperation.work, stack.run_push_of_lt word hroom] at hwork
      cases hwork
      exact h.touch (.push word)
  | pop =>
      rcases stack.run_pop with ⟨word, hpop, hsize, -⟩ | hpop
      all_goals
        rw [run_eq_on] at hpop hwork
        simp only [StackOperation.work, Work.on_bind, hpop] at hwork
        cases hwork
      exact h.touch (.drop 1 hsize)
  | popMany count =>
      rcases stack.run_popMany count with ⟨hpop, hsize, -⟩ | hpop
      all_goals
        rw [StackOperation.work, hpop] at hwork
        cases hwork
      exact h.touch (.drop count hsize)
  | poke word =>
      rcases stack.run_poke word with ⟨hpoke, hsize, -⟩ | hpoke
      all_goals
        rw [StackOperation.work, hpoke] at hwork
        cases hwork
      exact h.touch (.poke word hsize)
  | setLocal number value =>
      rcases stack.run_setLocal number value with hset | ⟨fault, hset⟩
      all_goals
        rw [StackOperation.work, hset] at hwork
        cases hwork
      exact h.touch (.setLocal number value)
  | call memory address arguments returnPc store pending =>
      rcases hcall : stack.run (call memory address arguments returnPc store pending)
        with ⟨fault | first, middle⟩
      all_goals
        have hon := hcall
        rw [run_eq_on] at hon hwork
        simp only [StackOperation.work, Work.on_bind, hon] at hwork
        cases hwork
      obtain ⟨other, -, rfl, hsize, -⟩ := entered_of_run_call hcall
      exact h.enter hsize
  | ret =>
      rcases stack.run_ret with ⟨caller, older, hcallers, hvalues, hret⟩ | ⟨fault, middle, hret, -⟩
      all_goals
        rw [run_eq_on] at hret hwork
        simp only [StackOperation.work, Work.on_bind, hret] at hwork
        cases hwork
      exact h.shed (.single (.leave caller older hcallers hvalues)) hdepth
  | unwind depth => exact h.shed (shed_of_run_unwind hwork) hdepth

/-! ## Runs of operations -/

/-- Operations one after another, all of which go well and none of which leaves fewer frames
than the given number. -/
inductive Runs (floor : Nat) : CallStack → List StackOperation → CallStack → Prop
  | done (stack : CallStack) : Runs floor stack [] stack
  | next {stack middle after : CallStack} {operation : StackOperation}
      {operations : List StackOperation} (hwork : stack.run operation.work = (.ok (), middle))
      (hfloor : floor ≤ middle.depth) (hrest : Runs floor middle operations after) :
      Runs floor stack (operation :: operations) after

/-- **Operations that leave enough frames leave the callee inside.** -/
theorem Inside.runs {operations : List StackOperation} (h : base.Inside callee stack)
    (hruns : Runs (base.depth + 1) stack operations after) : base.Inside callee after := by
  induction hruns with
  | done => exact h
  | next hwork hfloor _ ih => exact ih (h.step hwork hfloor)

/-- A routine that is the current one again returns to its caller, with nothing left behind. -/
theorem Inside.ret (h : base.Inside callee stack) (hdepth : stack.depth = base.depth + 1) :
    ∃ frame, stack.run CallStack.ret = (.ok frame, base) ∧ frame.ReturnsLike callee := by
  obtain ⟨newer, hatop, frame, hlast, hreturns⟩ := h
  obtain ⟨only, rfl⟩ : ∃ only, newer = [only] :=
    List.length_eq_one_iff.mp (by have := hatop.depth_eq; omega)
  obtain rfl : only = frame := by simpa using hlast
  obtain ⟨after, hret, hafter⟩ := hatop.ret
  rw [hafter.eq_base] at hret
  exact ⟨only, hret, hreturns⟩

/-- **Calls are isolated.**  A routine is entered with its arguments and the initial values of
its other locals, at the instruction right behind its header.  Whatever it then does to the
stack, as long as all of it goes well and the frame is not left: as soon as the frame is the
current one again, returning gives the return address, the store variable and the waiting read
of the call, and the stack as it was before, with the same frames and the same words.  The
stack need not be in order for that. -/
theorem calls_isolated {operations : List StackOperation}
    (hcall : stack.run (call memory address arguments returnPc store pending)
      = (.ok first, entered))
    (hruns : Runs (stack.depth + 1) entered operations after) :
    (∃ count, Entered memory address arguments count entered.current first) ∧
    (after.depth = stack.depth + 1 → ∃ frame, after.run CallStack.ret = (.ok frame, stack) ∧
      frame.returnPc = returnPc ∧ frame.store = store ∧ frame.pending = pending) := by
  obtain ⟨callee, count, rfl, hsize, hreturns, hentered⟩ := entered_of_run_call hcall
  have hinside : stack.Inside callee (stack.entered callee) :=
    ⟨[callee], (atop_self stack).entered hsize, callee, rfl, .refl callee⟩
  refine ⟨⟨count, hentered⟩, fun hdepth => ?_⟩
  obtain ⟨frame, hret, hlike⟩ := (hinside.runs hruns).ret hdepth
  obtain ⟨hpc, hstore, hpending⟩ := hlike.trans hreturns
  exact ⟨frame, hret, hpc, hstore, hpending⟩

/-- An operation that goes well and leaves enough frames may come first. -/
theorem Runs.ran {floor : Nat} {operation : StackOperation} {operations : List StackOperation}
    (hwork : (stack.run operation.work).1 = .ok ())
    (hfloor : floor ≤ (stack.run operation.work).2.depth)
    (hrest : Runs floor (stack.run operation.work).2 operations after) :
    Runs floor stack (operation :: operations) after :=
  .next (Prod.ext hwork rfl) hfloor hrest

/-- The memory of a version 4 story with a routine at 72 that has two locals, 7 and 9. -/
def routines : Memory :=
  ((Memory.ofImage ((Machine.storyOf [2, 0, 7, 0, 9]).set! 0 4)).toOption).get rfl

/-- Two frames with a word each. -/
def lender : CallStack where
  values := .ofList [0x22, 0x11]
  current := { returnPc := 70, locals := [3, 4], size := 1 }
  callers := [{ size := 1 }]

/-- A call of that routine. -/
def callFrom (returnPc : Nat) (arguments : List Word) : StackOperation :=
  .call routines 72 arguments returnPc (some 16) none

/-- The routine pushes words, calls itself twice over, throws back to its own frame and sets a
local.  When it returns nothing of all this is left. -/
theorem calls_isolated_nested :
    ∃ first entered after frame,
      lender.run (call routines 72 [5] 99 (some 16) none) = (.ok first, entered) ∧
      first = 77 ∧ entered.current.locals = [5, 9] ∧
      Runs 3 entered [.push 1, .push 2, callFrom 80 [], .push 3, .poke 4, callFrom 81 [],
        .unwind 3, .setLocal 1 8, .popMany 1] after ∧
      after.words = [0x11, 0x22, 1] ∧ after.current.locals = [8, 9] ∧
      after.run CallStack.ret = (.ok frame, lender) ∧ frame.returnPc = 99 := by
  have hcall : lender.run (call routines 72 [5] 99 (some 16) none)
      = (.ok 77, lender.entered
          { returnPc := 99, store := some 16, locals := [5, 9], arguments := 1 }) := by
    decide +kernel
  have hruns : Runs 3 (lender.entered
        { returnPc := 99, store := some 16, locals := [5, 9], arguments := 1 })
      [.push 1, .push 2, callFrom 80 [], .push 3, .poke 4, callFrom 81 [], .unwind 3,
        .setLocal 1 8, .popMany 1]
      { lender with
        values := .ofList [1, 0x22, 0x11]
        current := { returnPc := 99, store := some 16, locals := [8, 9], arguments := 1, size := 1 }
        callers := lender.current :: lender.callers } := by
    iterate 8 refine .ran (by decide +kernel) (by decide +kernel) ?_
    exact .next (by decide +kernel) (by decide +kernel) (.done _)
  obtain ⟨-, hreturn⟩ := calls_isolated hcall hruns
  obtain ⟨frame, hret, hpc, -, -⟩ := hreturn rfl
  exact ⟨77, _, _, frame, hcall, rfl, rfl, hruns, by decide +kernel, rfl, hret, hpc⟩

end CallStack

end StoryMachine
