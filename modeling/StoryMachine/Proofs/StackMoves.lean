import StoryMachine.Proofs.SnapshotRoundTrip
import StoryMachine.Proofs.StoryKept
import Mathlib.Logic.Relation

/-!
# How the call stack moves

Each operation on the call stack has one law here that says all it can do.  Those
that go well are made of five moves: a word is pushed, words are dropped, the top
word is replaced, a local is set, a frame is left.  Entering a routine is kept
apart (`Entry`), because what it puts into the new frame comes from outside.

A stack in order stays so under every move (`Orderly.move`), and so does one that a
snapshot has room for (`Storable.move`).  No move makes the stack deeper
(`Move.depth_le`).
-/

namespace StoryMachine

/-- The variable that the result of a read goes to. -/
def PendingRead.store : PendingRead → Option UInt8
  | .line read => read.store
  | .char read => read.store

namespace CallStack

/-- Frames own what their older and their newer part own. -/
theorem owned_append (frames newer : List Frame) :
    owned (frames ++ newer) = owned frames + owned newer := by
  induction frames with
  | nil => simp
  | cons frame frames ih => rw [List.cons_append, owned_cons, owned_cons, ih, Nat.add_assoc]

/-- How many words frames own does not depend on their order. -/
theorem owned_reverse (frames : List Frame) : owned frames.reverse = owned frames := by
  induction frames with
  | nil => rfl
  | cons frame frames ih =>
      rw [List.reverse_cons, owned_append, ih, owned_cons, owned_cons, owned_nil]
      omega

/-- The frames of a stack own what the current one and its callers do. -/
theorem owned_frames (stack : CallStack) :
    owned stack.frames = stack.current.size + owned stack.callers := by
  rw [frames, owned_reverse, owned_cons]

/-- A frame of the stack is the current one or a caller. -/
theorem mem_frames {stack : CallStack} {frame : Frame} :
    frame ∈ stack.frames ↔ frame = stack.current ∨ frame ∈ stack.callers := by
  simp [frames, or_comm]

/-- The size that is kept counts the words. -/
theorem length_words (stack : CallStack) : stack.words.length = stack.values.size := by
  simp [words, stack.values.size_eq]

/-- The stack with a word more, which the current frame owns. -/
def pushed (stack : CallStack) (word : Word) : CallStack :=
  { stack with values := stack.values.push word, current.size := stack.current.size + 1 }

/-- The stack with a local of the current frame set, counted from one. -/
def withLocal (stack : CallStack) (number : UInt8) (value : Word) : CallStack :=
  { stack with current.locals := stack.current.locals.set (number.toNat - 1) value }

/-- The stack without words of the current frame. -/
def dropped (stack : CallStack) (n : Nat) : CallStack :=
  { stack with values := stack.values.drop n, current.size := stack.current.size - n }

/-- The stack with its top word replaced. -/
def poked (stack : CallStack) (word : Word) : CallStack :=
  { stack with values := (stack.values.drop 1).push word }

/-- The stack with a frame more. -/
def entered (stack : CallStack) (frame : Frame) : CallStack :=
  { stack with current := frame, callers := stack.current :: stack.callers }

/-- The stack without its current frame, given the frames below it. -/
def left (stack : CallStack) (caller : Frame) (older : List Frame) : CallStack where
  values := stack.values.drop stack.current.size
  current := caller
  callers := older

/-- The stack with a value delivered to a variable: pushed, or put into a local.  Globals are
not on the stack. -/
def delivered (stack : CallStack) (target : Option UInt8) (value : Word) : CallStack :=
  match target with
  | none => stack
  | some number =>
    if number = 0 then stack.pushed value
    else if number < 16 then stack.withLocal number value
    else stack

/-- What writing a variable can do to the stack where an operand names it: the top word or a
local is replaced. -/
inductive Edited (stack : CallStack) : CallStack → Prop
  | stay : Edited stack stack
  | poke (word : Word) (h : 0 < stack.current.size) : Edited stack (stack.poked word)
  | setLocal (number : UInt8) (value : Word) : Edited stack (stack.withLocal number value)

/-- What a read can do to the stack: its result is delivered, or it waits in the frame of a
routine. -/
inductive Answered (stack : CallStack) (target : Option UInt8) : CallStack → Prop
  | delivered (value : Word) : Answered stack target (stack.delivered target value)
  | waiting (frame : Frame) (hpending : frame.pending.isSome = true) (hsize : frame.size = 0) :
      Answered stack target (stack.entered frame)

/-- What one operation on the call stack can do if it goes well. -/
inductive Move (stack : CallStack) : CallStack → Prop
  | push (word : Word) (h : stack.values.size < WordStack.limit) : Move stack (stack.pushed word)
  | drop (n : Nat) (h : n ≤ stack.current.size) (hvalues : n ≤ stack.values.size) :
      Move stack (stack.dropped n)
  | poke (word : Word) (h : 0 < stack.values.size) : Move stack (stack.poked word)
  | setLocal (number : UInt8) (value : Word) : Move stack (stack.withLocal number value)
  | leave (caller : Frame) (older : List Frame) (h : stack.callers = caller :: older)
      (hvalues : stack.current.size ≤ stack.values.size) : Move stack (stack.left caller older)

/-- What is left of the stack after its current frame has given `n` words. -/
structure Popped (stack : CallStack) (n : Nat) (after : CallStack) : Prop where
  after_eq : after = stack.dropped n
  size_le : n ≤ stack.current.size
  values_le : n ≤ stack.values.size

/-- A stack from which no words are taken stays. -/
theorem Popped.refl (stack : CallStack) : stack.Popped 0 stack :=
  ⟨rfl, Nat.zero_le _, Nat.zero_le _⟩

/-- Words taken twice are words taken once. -/
theorem Popped.trans {stack middle after : CallStack} {n k : Nat} (h : stack.Popped n middle)
    (h' : middle.Popped k after) : stack.Popped (n + k) after := by
  obtain ⟨rfl, hsize, hvalues⟩ := h
  obtain ⟨rfl, hsize', hvalues'⟩ := h'
  simp only [dropped, WordStack.drop] at hsize' hvalues'
  refine ⟨?_, by omega, by omega⟩
  simp only [dropped, WordStack.drop, List.drop_drop, Nat.sub_sub]

/-- Taking words is a move. -/
theorem Popped.move {stack after : CallStack} {n : Nat} (h : stack.Popped n after) :
    stack.Move after := h.after_eq ▸ .drop n h.size_le h.values_le

/-- A stack in order: the frames own exactly the words there are, these are not too many, and no
frame has more locals than a routine can have. -/
structure Orderly (stack : CallStack) : Prop where
  owned_eq : owned stack.frames = stack.words.length
  words_le : stack.words.length ≤ 65535
  locals_le : ∀ frame ∈ stack.frames, frame.locals.length ≤ 15

/-- A stack that a snapshot has room for is in order. -/
theorem Storable.orderly {stack : CallStack} (h : stack.Storable) : stack.Orderly :=
  ⟨h.owned_eq, h.words_le, fun frame hframe => (h.frames_storable frame hframe).locals_le⟩

/-- **A move leaves the stack in order.**  The frames below the current one stay, or are left one
by one. -/
theorem Orderly.move {stack after : CallStack} (h : stack.Orderly) (hmove : stack.Move after) :
    after.Orderly := by
  obtain ⟨howned, hwords, hlocals⟩ := h
  rw [owned_frames, length_words] at howned
  rw [length_words] at hwords
  have hcurrent := hlocals stack.current (mem_frames.mpr (.inl rfl))
  have hcallers : ∀ frame ∈ stack.callers, frame.locals.length ≤ 15 :=
    fun frame hframe => hlocals frame (mem_frames.mpr (.inr hframe))
  have hothers : ∀ {values : WordStack} {current : Frame},
      current.size + owned stack.callers = values.size → values.size ≤ 65535 →
      current.locals.length ≤ 15 → Orderly { values, current, callers := stack.callers } := by
    intro values current hsum hle hlength
    refine ⟨?_, ?_, ?_⟩
    · rw [owned_frames, length_words, hsum]
    · rw [length_words]
      exact hle
    · intro frame hframe
      rcases mem_frames.mp hframe with rfl | hframe
      · exact hlength
      · exact hcallers frame hframe
  cases hmove with
  | push word hlimit =>
      have hlimit' : stack.values.size < 65535 := hlimit
      refine hothers ?_ ?_ hcurrent
      · simp only [WordStack.push]
        omega
      · simp only [WordStack.push]
        omega
  | drop n hsize hvalues =>
      refine hothers ?_ ?_ hcurrent
      · simp only [WordStack.drop]
        omega
      · simp only [WordStack.drop]
        omega
  | poke word hsize =>
      refine hothers ?_ ?_ hcurrent
      · simp only [WordStack.push, WordStack.drop]
        omega
      · simp only [WordStack.push, WordStack.drop]
        omega
  | setLocal number value =>
      refine hothers howned hwords ?_
      rw [List.length_set]
      exact hcurrent
  | leave caller older heq hvalues =>
      rw [heq, owned_cons] at howned
      refine ⟨?_, ?_, ?_⟩
      · rw [owned_frames, length_words]
        simp only [left, WordStack.drop]
        omega
      · rw [length_words]
        simp only [left, WordStack.drop]
        omega
      · intro frame hframe
        refine hcallers frame ?_
        rw [heq, List.mem_cons]
        exact mem_frames.mp hframe

/-- No move gives a frame another return address or other arguments. -/
theorem Move.origin {stack after : CallStack} (hmove : stack.Move after) {frame : Frame}
    (h : frame ∈ after.frames) : ∃ old ∈ stack.frames, frame.returnPc = old.returnPc ∧
      frame.arguments = old.arguments := by
  have hkept (hframe : frame ∈ stack.callers) : ∃ old ∈ stack.frames,
      frame.returnPc = old.returnPc ∧ frame.arguments = old.arguments :=
    ⟨frame, mem_frames.mpr (.inr hframe), rfl, rfl⟩
  cases hmove with
  | leave caller older heq hvalues =>
      refine hkept ?_
      rw [heq, List.mem_cons]
      exact mem_frames.mp h
  | _ =>
      rcases mem_frames.mp h with rfl | hframe
      · exact ⟨stack.current, mem_frames.mpr (.inl rfl), rfl, rfl⟩
      · exact hkept hframe

/-- A snapshot has room for what a move makes of a stack that it has room for. -/
theorem Storable.move {stack after : CallStack} (h : stack.Storable) (hmove : stack.Move after) :
    after.Storable := by
  have horderly := h.orderly.move hmove
  refine ⟨horderly.owned_eq, horderly.words_le, fun frame hframe => ?_⟩
  obtain ⟨old, hold, hreturn, harguments⟩ := hmove.origin hframe
  have hstorable := h.frames_storable old hold
  exact ⟨hreturn ▸ hstorable.returnPc_lt, horderly.locals_le frame hframe,
    harguments ▸ hstorable.arguments_le⟩

/-- No move makes the stack deeper. -/
theorem Move.depth_le {stack after : CallStack} (h : stack.Move after) :
    after.depth ≤ stack.depth := by
  cases h with
  | leave caller older heq hvalues => simp [depth, left, heq]
  | _ => exact Nat.le_refl _

/-- A frame more that owns no words leaves the stack in order. -/
theorem Orderly.entered {stack : CallStack} {frame : Frame} (h : stack.Orderly)
    (hlocals : frame.locals.length ≤ 15) (hsize : frame.size = 0) :
    (stack.entered frame).Orderly := by
  refine ⟨?_, h.words_le, ?_⟩
  · have howned := h.owned_eq
    rw [owned_frames, length_words] at howned ⊢
    simp only [CallStack.entered, owned_cons, hsize, Nat.zero_add]
    exact howned
  · intro other hother
    rcases mem_frames.mp hother with rfl | hother
    · exact hlocals
    · rcases List.mem_cons.mp hother with rfl | hother
      · exact h.locals_le _ (mem_frames.mpr (.inl rfl))
      · exact h.locals_le _ (mem_frames.mpr (.inr hother))

/-- A snapshot has room for a frame more that owns no words. -/
theorem Storable.entered {stack : CallStack} {frame : Frame} (h : stack.Storable)
    (hframe : frame.Storable) (hsize : frame.size = 0) : (stack.entered frame).Storable := by
  have horderly := h.orderly.entered hframe.locals_le hsize
  refine ⟨horderly.owned_eq, horderly.words_le, fun other hother => ?_⟩
  rcases mem_frames.mp hother with rfl | hother
  · exact hframe
  · exact h.frames_storable other (mem_frames.mpr (List.mem_cons.mp hother))

/-! ## The operations -/

variable (stack : CallStack)

theorem run_eq_on {α : Type} (work : StackWork α) : stack.run work = Work.on work stack := rfl

theorem on_onWords {α : Type} (work : Work WordStack α) :
    Work.on (onWords work) stack
      = ((work.on stack.values).1, { stack with values := (work.on stack.values).2 }) := rfl

/-- A word is pushed if there is room for it. -/
theorem run_push_of_lt (word : Word) (h : stack.values.size < WordStack.limit) :
    stack.run (push word) = (.ok (), stack.pushed word) := by
  have hfit : ¬(stack.values.push word).isOverfull = true := by
    rw [WordStack.isOverfull, WordStack.push, decide_eq_true_eq]
    exact Nat.not_lt.mpr h
  simp only [run_eq_on, push, Work.on_bind, on_onWords, WordStack.tryPush, Work.on_modify,
    Work.on_get, if_neg hfit]
  rfl

/-- A word too many is on the stack all the same, but no frame owns it. -/
theorem run_push_of_le (word : Word) (h : WordStack.limit ≤ stack.values.size) :
    stack.run (push word)
      = (.error (WordStack.overflow fullDetail),
        { stack with values := stack.values.push word }) := by
  have hfull : (stack.values.push word).isOverfull = true := by
    rw [WordStack.isOverfull, WordStack.push, decide_eq_true_eq]
    exact Nat.lt_succ_of_le h
  simp only [run_eq_on, push, Work.on_bind, on_onWords, WordStack.tryPush, Work.on_modify,
    Work.on_get, if_pos hfull]
  rfl

/-- A frame that owns no word has none to pop. -/
theorem run_pop_of_zero (h : stack.current.size = 0) :
    stack.run pop = (.error WordStack.underflow, stack) := by
  simp only [run_eq_on, pop, Work.on_bind, Work.on_get, if_pos h]
  rfl

/-- A frame that owns words pops the top one. -/
theorem run_pop_of_cons {word : Word} {rest : List Word} (h : stack.current.size ≠ 0)
    (hwords : stack.values.words = word :: rest) :
    stack.run pop = (.ok word, stack.dropped 1) := by
  simp only [run_eq_on, pop, Work.on_bind, Work.on_get, if_neg h, on_onWords, WordStack.tryPop,
    hwords]
  rfl

/-- Only a word of the current frame can be taken. -/
theorem run_pop :
    (∃ word, stack.run pop = (.ok word, stack.dropped 1) ∧
        0 < stack.current.size ∧ 0 < stack.values.size) ∨
      stack.run pop = (.error WordStack.underflow, stack) := by
  by_cases hsize : stack.current.size = 0
  · exact .inr (stack.run_pop_of_zero hsize)
  · rcases hwords : stack.values.words with _ | ⟨word, rest⟩
    · right
      simp only [run_eq_on, pop, Work.on_bind, Work.on_get, if_neg hsize, on_onWords,
        WordStack.tryPop, hwords]
      rfl
    · exact .inl ⟨word, stack.run_pop_of_cons hsize hwords, Nat.pos_of_ne_zero hsize,
        by simp [stack.values.size_eq, hwords]⟩

/-- A frame cannot drop more words than it owns. -/
theorem run_popMany_of_lt {count : Nat} (h : stack.current.size < count) :
    stack.run (popMany count) = (.error WordStack.underflow, stack) := by
  simp only [run_eq_on, popMany, Work.on_bind, Work.on_get, if_pos h]
  rfl

/-- A frame drops words that it owns. -/
theorem run_popMany_of_le {count : Nat} (h : count ≤ stack.current.size)
    (hvalues : count ≤ stack.values.size) :
    stack.run (popMany count) = (.ok (), stack.dropped count) := by
  simp only [run_eq_on, popMany, Work.on_bind, Work.on_get, if_neg (Nat.not_lt.mpr h), on_onWords,
    WordStack.tryPopMany, if_neg (Nat.not_lt.mpr hvalues)]
  rfl

/-- Dropping words succeeds with all of them, or underflows with none dropped. -/
theorem run_popMany (count : Nat) :
    (stack.run (popMany count) = (.ok (), stack.dropped count) ∧
        count ≤ stack.current.size ∧ count ≤ stack.values.size) ∨
      stack.run (popMany count) = (.error WordStack.underflow, stack) := by
  by_cases hsize : stack.current.size < count
  · exact .inr (stack.run_popMany_of_lt hsize)
  · by_cases hvalues : stack.values.size < count
    · right
      simp only [run_eq_on, popMany, Work.on_bind, Work.on_get, if_neg hsize, on_onWords,
        WordStack.tryPopMany, if_pos hvalues]
      rfl
    · rw [Nat.not_lt] at hsize hvalues
      exact .inl ⟨stack.run_popMany_of_le hsize hvalues, hsize, hvalues⟩

/-- A frame that owns no word has none to replace. -/
theorem run_poke_of_zero (word : Word) (h : stack.current.size = 0) :
    stack.run (poke word) = (.error WordStack.underflow, stack) := by
  rcases hwords : stack.values.words with _ | ⟨top, rest⟩
  · simp only [run_eq_on, poke, Work.on_bind, Work.on_get, hwords]
    rfl
  · simp only [run_eq_on, poke, Work.on_bind, Work.on_get, hwords, if_pos h]
    rfl

/-- A frame that owns words replaces the top one. -/
theorem run_poke_of_cons (word : Word) {top : Word} {rest : List Word}
    (h : stack.current.size ≠ 0) (hwords : stack.values.words = top :: rest) :
    stack.run (poke word) = (.ok (), stack.poked word) := by
  simp only [run_eq_on, poke, Work.on_bind, Work.on_get, hwords, if_neg h]
  rfl

/-- Replacing the top word succeeds, or underflows with nothing replaced. -/
theorem run_poke (word : Word) :
    (stack.run (poke word) = (.ok (), stack.poked word) ∧
        0 < stack.current.size ∧ 0 < stack.values.size) ∨
      stack.run (poke word) = (.error WordStack.underflow, stack) := by
  by_cases hsize : stack.current.size = 0
  · exact .inr (stack.run_poke_of_zero word hsize)
  · rcases hwords : stack.values.words with _ | ⟨top, rest⟩
    · right
      simp only [run_eq_on, poke, Work.on_bind, Work.on_get, hwords]
      rfl
    · exact .inl ⟨stack.run_poke_of_cons word hsize hwords, Nat.pos_of_ne_zero hsize,
        by simp [stack.values.size_eq, hwords]⟩

/-- A local that the frame has is set. -/
theorem run_setLocal_of_le {number : UInt8} (value : Word) (hzero : number ≠ 0)
    (h : number.toNat ≤ stack.current.locals.length) :
    stack.run (setLocal number value) = (.ok (), stack.withLocal number value) := by
  have hbad : ¬(number = 0 ∨ stack.current.locals.length < number.toNat) := by
    rintro (hnumber | hlength)
    · exact hzero hnumber
    · omega
  simp only [run_eq_on, setLocal, Work.on_bind, Work.on_get, if_neg hbad]
  rfl

/-- A local beyond those of the frame is not set. -/
theorem run_setLocal_of_lt {number : UInt8} (value : Word)
    (h : stack.current.locals.length < number.toNat) :
    stack.run (setLocal number value) = (.error (badLocal number), stack) := by
  simp only [run_eq_on, setLocal, Work.on_bind, Work.on_get, if_pos (Or.inr h)]
  rfl

/-- Setting a local succeeds, or fails with the stack as it was. -/
theorem run_setLocal (number : UInt8) (value : Word) :
    stack.run (setLocal number value) = (.ok (), stack.withLocal number value) ∨
      ∃ fault, stack.run (setLocal number value) = (.error fault, stack) := by
  by_cases hbad : number = 0 ∨ stack.current.locals.length < number.toNat
  · right
    simp only [run_eq_on, setLocal, Work.on_bind, Work.on_get, if_pos hbad]
    exact ⟨_, rfl⟩
  · left
    rw [not_or, Nat.not_lt] at hbad
    exact stack.run_setLocal_of_le value hbad.1 hbad.2

/-- The frame that is left is the current one; what it owned goes with it. -/
theorem run_ret_of_cons {caller : Frame} {older : List Frame}
    (hcallers : stack.callers = caller :: older)
    (hvalues : stack.current.size ≤ stack.values.size) :
    stack.run ret = (.ok stack.current, stack.left caller older) := by
  simp only [run_eq_on, ret, Work.on_bind, Work.on_get, hcallers, Work.on_set, on_onWords,
    WordStack.tryPopMany, if_neg (Nat.not_lt.mpr hvalues)]
  rfl

/-- The main routine has nowhere to return to. -/
theorem run_ret_of_nil (hcallers : stack.callers = []) :
    stack.run ret
      = (.error { kind := .stackUnderflow, detail := "RETURN FROM MAIN ROUTINE" }, stack) := by
  simp only [run_eq_on, ret, Work.on_bind, Work.on_get, hcallers]
  rfl

/-- Returning fails in the main routine, and on a stack whose frames claim more words
than there are. -/
theorem run_ret :
    (∃ caller older, stack.callers = caller :: older ∧ stack.current.size ≤ stack.values.size ∧
        stack.run ret = (.ok stack.current, stack.left caller older)) ∨
      ∃ fault after, stack.run ret = (.error fault, after) ∧ fault.isFatal = true ∧
        (stack.Storable → after = stack) := by
  rcases hcallers : stack.callers with _ | ⟨caller, older⟩
  · exact .inr ⟨_, _, stack.run_ret_of_nil hcallers, rfl, fun _ => rfl⟩
  · by_cases hvalues : stack.values.size < stack.current.size
    · right
      simp only [run_eq_on, ret, Work.on_bind, Work.on_get, hcallers, Work.on_set, on_onWords,
        WordStack.tryPopMany, if_pos hvalues]
      refine ⟨_, _, rfl, rfl, fun hstorable => ?_⟩
      have howned := hstorable.owned_eq
      rw [owned_frames, length_words] at howned
      omega
    · left
      exact ⟨caller, older, rfl, Nat.not_lt.mp hvalues,
        stack.run_ret_of_cons hcallers (Nat.not_lt.mp hvalues)⟩

/-- Arguments are put into locals and add none. -/
theorem length_withArguments (locals arguments : List Word) :
    (withArguments locals arguments).length = locals.length := by
  induction locals generalizing arguments with
  | nil => cases arguments <;> rfl
  | cons value locals ih =>
      cases arguments with
      | nil => rfl
      | cons argument arguments => simp [withArguments, ih]

/-- The locals of a routine lie in memory where they have initial values. -/
theorem initialLocals_eq_ok {memory : Memory} {address count : Nat} {locals : List Word}
    (h : initialLocals memory address count = .ok locals) :
    locals.length = count ∧
      (memory.version ≤ 4 → 0 < count → address + 2 * count ≤ memory.size) := by
  unfold initialLocals at h
  split at h
  case isTrue hversion =>
      obtain ⟨hlength, hread⟩ := mapM_eq_ok h
      refine ⟨by rw [hlength, List.length_range], fun _ hcount => ?_⟩
      obtain ⟨word, hword⟩ := hread (count - 1) (List.mem_range.mpr (by omega))
      unfold Memory.readWord at hword
      split at hword
      · omega
      · exact nomatch hword
  case isFalse hversion =>
      obtain rfl : List.replicate count 0 = locals := Except.ok.inj h
      exact ⟨List.length_replicate, fun h => absurd h hversion⟩

/-- What a routine is entered with. -/
structure Entry (memory : Memory) (returnPc : Nat) (store : Option UInt8)
    (pending : Option PendingRead) (frame : Frame) (first : Nat) : Prop where
  returnPc_eq : frame.returnPc = returnPc
  store_eq : frame.store = store
  pending_eq : frame.pending = pending
  size_eq : frame.size = 0
  locals_le : frame.locals.length ≤ 15
  arguments_le : frame.arguments ≤ 7
  /-- The first instruction is looked for within memory, or right after it. -/
  first_le : first ≤ memory.size

/-- A routine is entered with a frame of its own, or not at all. -/
theorem run_call (memory : Memory) (address : Nat) (arguments : List Word) (returnPc : Nat)
    (store : Option UInt8) (pending : Option PendingRead) :
    (∃ frame first, stack.run (call memory address arguments returnPc store pending)
          = (.ok first, stack.entered frame) ∧
        Entry memory returnPc store pending frame first ∧ stack.depth < maxFrames) ∨
      ∃ fault, stack.run (call memory address arguments returnPc store pending)
        = (.error fault, stack) := by
  by_cases hdepth : maxFrames ≤ stack.depth
  · right
    simp only [run_eq_on, call, Work.on_bind, Work.on_get, if_pos hdepth]
    exact ⟨_, rfl⟩
  rcases hcount : memory.readByte address with fault | count
  · right
    simp only [run_eq_on, call, Work.on_bind, Work.on_get, if_neg hdepth, Work.on_ofExcept, hcount]
    exact ⟨_, rfl⟩
  by_cases hmany : 15 < count.toNat
  · right
    simp only [run_eq_on, call, Work.on_bind, Work.on_get, if_neg hdepth, Work.on_ofExcept, hcount,
      if_pos hmany]
    exact ⟨_, rfl⟩
  rcases hlocals : initialLocals memory (address + 1) count.toNat with fault | locals
  · right
    simp only [run_eq_on, call, Work.on_bind, Work.on_get, if_neg hdepth, Work.on_ofExcept, hcount,
      if_neg hmany, hlocals]
    exact ⟨_, rfl⟩
  left
  obtain ⟨hlength, hroom⟩ := initialLocals_eq_ok hlocals
  have hbyte : address < memory.size := by
    unfold Memory.readByte at hcount
    split at hcount
    case isTrue h => exact h
    case isFalse h => exact nomatch hcount
  have hfirst : (if memory.version ≤ 4 then address + 1 + 2 * count.toNat else address + 1)
      ≤ memory.size := by
    split
    case isTrue hversion =>
        rcases Nat.eq_zero_or_pos count.toNat with hzero | hpos
        · omega
        · have := hroom hversion hpos
          omega
    case isFalse => omega
  have hlocals_le : (withArguments locals arguments).length ≤ 15 := by
    rw [length_withArguments, hlength]
    exact Nat.not_lt.mp hmany
  let frame : Frame :=
    { returnPc, store, locals := withArguments locals arguments,
      arguments := min arguments.length 7, size := 0, pending }
  have hentry : Entry memory returnPc store pending frame _ :=
    ⟨rfl, rfl, rfl, rfl, hlocals_le, Nat.min_le_right arguments.length 7, hfirst⟩
  refine ⟨frame, _, ?_, hentry, Nat.not_le.mp hdepth⟩
  simp only [run_eq_on, call, Work.on_bind, Work.on_get, if_neg hdepth, Work.on_ofExcept, hcount,
    if_neg hmany, hlocals, Work.on_set]
  rfl

/-- Leaving routines one after another is made of moves. -/
theorem run_leave (n : Nat) :
    (∃ after, stack.run (leave n) = (.ok (), after) ∧ Relation.ReflTransGen Move stack after) ∨
      ∃ fault after, stack.run (leave n) = (.error fault, after) := by
  induction n generalizing stack with
  | zero => exact .inl ⟨stack, rfl, .refl⟩
  | succ n ih =>
      rcases stack.run_ret with ⟨caller, older, hcallers, hvalues, hret⟩ | ⟨fault, after, hret, -⟩
      · rw [run_eq_on] at hret
        have hstep : stack.run (leave (n + 1)) = (stack.left caller older).run (leave n) := by
          simp only [run_eq_on, leave, Work.on_bind, hret]
        rw [hstep]
        rcases ih (stack.left caller older) with ⟨after, hafter, hmoves⟩ | hfault
        · exact .inl ⟨after, hafter, .head (.leave caller older hcallers hvalues) hmoves⟩
        · exact .inr hfault
      · rw [run_eq_on] at hret
        right
        simp only [run_eq_on, leave, Work.on_bind, hret]
        exact ⟨_, _, rfl⟩

/-- Unwinding that succeeds leaves one frame after another. -/
theorem run_unwind (depth : Nat) :
    (∃ after, stack.run (unwind depth) = (.ok (), after) ∧ Relation.ReflTransGen Move stack after) ∨
      ∃ fault after, stack.run (unwind depth) = (.error fault, after) := by
  by_cases hdepth : depth = 0 ∨ stack.depth < depth
  · right
    simp only [run_eq_on, unwind, Work.on_bind, Work.on_get, if_pos hdepth]
    exact ⟨_, _, rfl⟩
  · have hleave : stack.run (unwind depth) = stack.run (leave (stack.depth - depth)) := by
      simp only [run_eq_on, unwind, Work.on_bind, Work.on_get, if_neg hdepth]
    rw [hleave]
    exact stack.run_leave _

end CallStack

end StoryMachine
