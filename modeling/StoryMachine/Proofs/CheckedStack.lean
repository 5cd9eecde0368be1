import StoryMachine.Proofs.CheckedMemory
import StoryMachine.Proofs.Endurance

/-!
# The call stack with checked positions

The current frame is the last of a list, and is looked up by its position.  Its size is
counted up and down with the words, and the locals of a routine are read with an address
that moves on.

A stack is `Steady` if each word that a frame claims is there, and if its frames have
arguments and reads of the sizes that calls and snapshots can give them.  Every operation
leaves a steady stack, whether it goes well or not.
-/

namespace StoryMachine

open Checked

variable {α β : Type}

/-- A read that waits has its buffers below 2^16. -/
def PendingRead.Steady : PendingRead → Prop
  | .line read => read.text < 0x10000 ∧ read.parse < 0x10000
  | .char _ => True

/-- A frame that a call or a snapshot can have made. -/
structure Frame.Steady (frame : Frame) : Prop where
  arguments_le : frame.arguments ≤ 8
  pending : ∀ read, frame.pending = some read → read.Steady

namespace CallStack

/-- A stack with all the words that its frames claim, and with frames as they should be. -/
structure Steady (stack : CallStack) : Prop where
  covered : stack.Covered
  frames : ∀ frame ∈ stack.frames, frame.Steady

/-- A stack that is worked on is steady before and after. -/
def upkeep : Upkeep CallStack := .always Steady

/-- Work that leaves frames as they should be. -/
abbrev KeepsFrames (work : StackWork α) : Prop :=
  Preserves (fun stack : CallStack => ∀ frame ∈ stack.frames, frame.Steady) work

/-- Work on the words keeps the frames. -/
theorem keepsFrames_onWords (work : ExceptT Fault (StateM WordStack) α) :
    KeepsFrames (onWords work) := fun _ h => h

/-- The frames below the current one stay, and of that one only words and locals change. -/
theorem keepsFrames_modify {f : CallStack → CallStack}
    (hcallers : ∀ stack, (f stack).callers = stack.callers)
    (harguments : ∀ stack, (f stack).current.arguments = stack.current.arguments)
    (hpending : ∀ stack, (f stack).current.pending = stack.current.pending) :
    KeepsFrames (modify f : StackWork PUnit) := by
  intro stack h frame hframe
  change frame ∈ (f stack).frames at hframe
  rw [mem_frames, hcallers] at hframe
  rcases hframe with rfl | hframe
  · have hcurrent := h _ (mem_frames.mpr (.inl rfl))
    refine ⟨?_, ?_⟩
    · rw [harguments]
      exact hcurrent.arguments_le
    · rw [hpending]
      exact hcurrent.pending
  · exact h _ (mem_frames.mpr (.inr hframe))

/-- Stopping keeps the frames. -/
theorem keepsFrames_throw (fault : Fault) : KeepsFrames (throw fault : StackWork α) :=
  fun _ h => h

/-- Pushing keeps the frames but for their sizes. -/
theorem keepsFrames_push (word : Word) : KeepsFrames (push word) :=
  .bind (keepsFrames_onWords _) fun _ =>
    keepsFrames_modify (fun _ => rfl) (fun _ => rfl) fun _ => rfl

/-- Popping keeps the frames but for their sizes. -/
theorem keepsFrames_pop : KeepsFrames pop :=
  .bind .get fun _ => .ite (keepsFrames_throw _) <| .bind (keepsFrames_onWords _) fun _ =>
    .bind (keepsFrames_modify (fun _ => rfl) (fun _ => rfl) fun _ => rfl) fun _ => .pure _

/-- Dropping words keeps the frames but for their sizes. -/
theorem keepsFrames_popMany (count : Nat) : KeepsFrames (popMany count) :=
  .bind .get fun _ => .ite (keepsFrames_throw _) <| .bind (keepsFrames_onWords _) fun _ =>
    keepsFrames_modify (fun _ => rfl) (fun _ => rfl) fun _ => rfl

/-- Replacing the top word keeps the frames. -/
theorem keepsFrames_poke (word : Word) : KeepsFrames (poke word) := by
  intro stack h
  rw [← run_eq_on]
  rcases stack.run_poke word with ⟨hpoke, -⟩ | hpoke <;> rw [hpoke] <;> exact h

/-- Setting a local keeps the frames but for this local. -/
theorem keepsFrames_setLocal (number : UInt8) (value : Word) :
    KeepsFrames (setLocal number value) := by
  intro stack h
  rw [← run_eq_on]
  rcases stack.run_setLocal number value with hset | ⟨fault, hset⟩ <;> rw [hset]
  · exact (keepsFrames_modify (f := (·.withLocal number value)) (fun _ => rfl) (fun _ => rfl)
      fun _ => rfl) stack h
  · exact h

/-- The frames that are left have been there before. -/
theorem keepsFrames_ret : KeepsFrames ret := by
  intro stack h
  have hleft {caller : Frame} {older : List Frame} {after : CallStack}
      (hcallers : stack.callers = caller :: older) (hcurrent : after.current = caller)
      (holder : after.callers = older) : ∀ frame ∈ after.frames, frame.Steady := by
    intro frame hframe
    refine h frame (mem_frames.mpr (.inr ?_))
    rw [hcallers, List.mem_cons, ← hcurrent, ← holder]
    exact mem_frames.mp hframe
  rcases stack.run_ret with ⟨caller, older, hcallers, -, hret⟩ | ⟨fault, after, hret, -, -⟩
  · rw [run_eq_on] at hret
    rw [hret]
    exact hleft hcallers rfl rfl
  · rcases hcallers : stack.callers with _ | ⟨caller, older⟩
    · rw [← run_eq_on, stack.run_ret_of_nil hcallers]
      exact h
    · simp only [ret, Work.on_bind, Work.on_get, hcallers, Work.on_set, on_onWords]
      rcases Work.on (WordStack.tryPopMany stack.current.size) stack.values
        with ⟨fault | words, values⟩ <;> exact hleft hcallers rfl rfl

/-- Leaving routines keeps the frames that are left. -/
theorem keepsFrames_leave (n : Nat) : KeepsFrames (leave n) := by
  induction n with
  | zero => exact .pure ()
  | succ n ih => exact .bind keepsFrames_ret fun _ => ih

/-- Unwinding keeps the frames that are left. -/
theorem keepsFrames_unwind (depth : Nat) : KeepsFrames (unwind depth) := by
  intro stack h
  by_cases hbad : depth = 0 ∨ stack.depth < depth
  · simp only [unwind, Work.on_bind, Work.on_get, if_pos hbad]
    exact h
  · simp only [unwind, Work.on_bind, Work.on_get, if_neg hbad]
    exact keepsFrames_leave _ stack h

end CallStack

/-! ## The operations -/

namespace CheckedStack

open CallStack

/-- The current frame, which is the last one. -/
def top : CheckedWork CallStack Frame := do
  let stack ← get
  let last ← difference stack.depth 1
  item stack.frames last

/-- Takes the top `n` words, from the length that is left on. -/
def takeWords (n : Nat) : CheckedWork CallStack (List Word) := do
  let stack ← get
  if stack.values.size < n then throw WordStack.underflow
  else
    let _ ← difference stack.values.size n
    CheckedWork.whole (onWords (WordStack.tryPopMany n))

/-- Sets how many words the current frame has. -/
def resize (size : Nat) : StackWork Unit :=
  modify fun stack => { stack with current.size := size }

/-- Pushes a word for the current frame. -/
def push (word : Word) : CheckedWork CallStack Unit := do
  CheckedWork.whole (onWords (WordStack.tryPush fullDetail word))
  let frame ← top
  let size ← sum frame.size 1
  CheckedWork.whole (resize size)

/-- Takes the top word of the current frame. -/
def pop : CheckedWork CallStack Word := do
  let frame ← top
  if frame.size = 0 then throw WordStack.underflow
  else
    let word ← CheckedWork.whole (onWords WordStack.tryPop)
    let frame ← top
    let size ← difference frame.size 1
    CheckedWork.whole (resize size)
    return word

/-- Drops words of the current frame. -/
def popMany (count : Nat) : CheckedWork CallStack Unit := do
  let frame ← top
  if frame.size < count then throw WordStack.underflow
  else
    let _ ← takeWords count
    let frame ← top
    let size ← difference frame.size count
    CheckedWork.whole (resize size)

/-- The top word of the current frame. -/
def peek : CheckedWork CallStack Word := do
  let frame ← top
  let stack ← get
  match stack.values.words with
  | word :: _ => if 0 < frame.size then return word else throw WordStack.underflow
  | [] => throw WordStack.underflow

/-- Replaces the top word of the current frame. -/
def poke (word : Word) : CheckedWork CallStack Unit := do
  let _ ← top
  CheckedWork.whole (CallStack.poke word)

/-- The value of a local of the current frame. -/
def localValue (number : UInt8) : CheckedWork CallStack Word := do
  let frame ← top
  if number = 0 then throw (badLocal number)
  else match frame.locals[number.toNat - 1]? with
    | some value => return value
    | none => throw (badLocal number)

/-- Sets a local of the current frame. -/
def setLocal (number : UInt8) (value : Word) : CheckedWork CallStack Unit := do
  let _ ← top
  CheckedWork.whole (CallStack.setLocal number value)

/-- How many arguments the current frame was given. -/
def argumentCount : CheckedWork CallStack Nat := do
  let frame ← top
  return frame.arguments

/-- The initial values of `count` locals, and the address after them. -/
def initialLocals (memory : Memory) : (count address : Nat) → Checked (List Word × Nat)
  | 0, address => pure ([], address)
  | count + 1, address =>
    if memory.version ≤ 4 then do
      let word ← memory.readWordAt address
      let next ← sum address 2
      let (others, stop) ← initialLocals memory count next
      return (word :: others, stop)
    else do
      let (others, stop) ← initialLocals memory count address
      return (0 :: others, stop)

/-- Enters the routine at an address. -/
def call (memory : Memory) (address : Nat) (arguments : List Word) (returnPc : Nat)
    (store : Option UInt8) (pending : Option PendingRead) : CheckedWork CallStack Nat := do
  let stack ← get
  if maxFrames ≤ stack.depth then
    throw (WordStack.overflow s!"{maxFrames} NESTED CALLS")
  let count := (← CheckedWork.compute (inRange (memory.readByte address))).toNat
  if 15 < count then
    throw { kind := .corruptImage,
            detail := "ROUTINE " ++ Numeral.marked 4 address ++ s!" HAS {count} LOCALS" }
  let first ← sum address 1
  let (locals, stop) ← CheckedWork.compute (initialLocals memory count first)
  set { stack with
    current := { returnPc, store, locals := withArguments locals arguments,
                 arguments := min arguments.length 7, size := 0, pending }
    callers := stack.current :: stack.callers }
  return stop

/-- Leaves the current routine, dropping its words. -/
def ret : CheckedWork CallStack Frame := do
  let stack ← get
  match stack.callers with
  | [] => throw { kind := .stackUnderflow, detail := "RETURN FROM MAIN ROUTINE" }
  | caller :: older =>
    set { stack with current := caller, callers := older }
    let _ ← takeWords stack.current.size
    return stack.current

/-- Leaves `n` routines one after another. -/
def leave : (n : Nat) → CheckedWork CallStack Unit
  | 0 => pure ()
  | n + 1 => do
    let _ ← ret
    leave n

/-- Leaves routines until `depth` frames remain. -/
def unwind (depth : Nat) : CheckedWork CallStack Unit := do
  let stack ← get
  if depth = 0 ∨ stack.depth < depth then
    throw { kind := .badOperands, detail := s!"THROW TO FRAME {depth} OF {stack.depth}" }
  else
    let count ← difference stack.depth depth
    leave count

section

variable {stack : CallStack}

/-- The last frame is the current one. -/
theorem on_top (stack : CallStack) : top.on stack = some (.ok stack.current, stack) := by
  have hitem : stack.frames[stack.depth - 1]? = some stack.current := by
    simp [CallStack.frames, CallStack.depth]
  rw [top, CheckedWork.on_get_bind, difference_of_le (show 1 ≤ stack.depth from Nat.le_add_left ..),
    pure_bind, item_of_eq hitem]
  rfl

/-- What begins with the current frame goes on with it. -/
theorem on_top_bind (next : Frame → CheckedWork CallStack α) (stack : CallStack) :
    (top >>= next).on stack = (next stack.current).on stack :=
  CheckedWork.on_bind_of_ok (on_top stack)

/-- Words are taken as ever. -/
theorem on_takeWords (n : Nat) (stack : CallStack) :
    (takeWords n).on stack = some (Work.on (onWords (WordStack.tryPopMany n)) stack) := by
  rw [takeWords, CheckedWork.on_get_bind]
  by_cases h : stack.values.size < n
  · simp only [on_onWords, WordStack.tryPopMany, Work.on_bind, Work.on_get, if_pos h]
    rfl
  · rw [if_neg h, difference_of_le (Nat.not_lt.mp h), pure_bind]
    rfl

/-- The count of a frame is far from its bound. -/
theorem on_push (word : Word) (h : stack.current.size + 1 < 2 ^ 64) :
    (push word).on stack = some (Work.on (CallStack.push word) stack) := by
  rw [push, CheckedWork.on_bind, CallStack.push, Work.on_bind]
  change Option.bind (some (Work.on (onWords (WordStack.tryPush fullDetail word)) stack)) _ = _
  rw [Option.bind_some, on_onWords]
  rcases Work.on (WordStack.tryPush fullDetail word) stack.values with ⟨fault | _, values⟩
  · rfl
  · dsimp only
    rw [on_top_bind, sum_of_lt h, pure_bind]
    rfl

/-- A word is only taken from a frame that has one. -/
theorem on_pop (stack : CallStack) : pop.on stack = some (Work.on CallStack.pop stack) := by
  rw [pop, on_top_bind, CallStack.pop, Work.on_bind, Work.on_get]
  by_cases h : stack.current.size = 0
  · simp only [if_pos h]
    rfl
  · simp only [if_neg h]
    rw [CheckedWork.on_bind, Work.on_bind]
    change Option.bind (some (Work.on (onWords WordStack.tryPop) stack)) _ = _
    rw [Option.bind_some, on_onWords]
    rcases Work.on WordStack.tryPop stack.values with ⟨fault | word, values⟩
    · rfl
    · dsimp only
      rw [on_top_bind, difference_of_le (Nat.pos_of_ne_zero h), pure_bind]
      rfl

/-- Words are only dropped from a frame that has them. -/
theorem on_popMany (count : Nat) (stack : CallStack) :
    (popMany count).on stack = some (Work.on (CallStack.popMany count) stack) := by
  rw [popMany, on_top_bind, CallStack.popMany, Work.on_bind, Work.on_get]
  by_cases h : stack.current.size < count
  · simp only [if_pos h]
    rfl
  · simp only [if_neg h]
    rw [CheckedWork.on_bind, Work.on_bind, on_takeWords, Option.bind_some, on_onWords]
    rcases Work.on (WordStack.tryPopMany count) stack.values with ⟨fault | word, values⟩
    · rfl
    · dsimp only
      rw [on_top_bind, difference_of_le (Nat.not_lt.mp h), pure_bind]
      rfl

/-- The word on top is that of the current frame. -/
theorem on_peek (stack : CallStack) : peek.on stack = some (stack.peek, stack) := by
  rw [peek, on_top_bind, CheckedWork.on_get_bind, CallStack.peek]
  rcases stack.values.words with _ | ⟨word, rest⟩
  · rfl
  · dsimp only
    split <;> rfl

/-- A local is that of the current frame. -/
theorem on_localValue (number : UInt8) (stack : CallStack) :
    (localValue number).on stack = some (stack.localValue number, stack) := by
  rw [localValue, on_top_bind, CallStack.localValue]
  split
  · rfl
  · rcases stack.current.locals[number.toNat - 1]? with _ | value <;> rfl

/-- A routine is left with all its words. -/
theorem on_ret (stack : CallStack) : ret.on stack = some (Work.on CallStack.ret stack) := by
  rw [ret, CheckedWork.on_get_bind, CallStack.ret, Work.on_bind, Work.on_get]
  rcases hcallers : stack.callers with _ | ⟨caller, older⟩
  · simp only [hcallers]
    rfl
  · simp only [hcallers]
    rw [Work.on_bind, Work.on_set, CheckedWork.on_set_bind, CheckedWork.on_bind, on_takeWords,
      Option.bind_some]
    dsimp only
    rw [Work.on_bind]
    rcases Work.on (onWords (WordStack.tryPopMany stack.current.size)) _
      with ⟨fault | words, after⟩ <;> rfl

/-- Routines are left one after another as ever. -/
theorem on_leave (n : Nat) (stack : CallStack) :
    (leave n).on stack = some (Work.on (CallStack.leave n) stack) := by
  induction n generalizing stack with
  | zero => rfl
  | succ n ih =>
      rw [leave, CheckedWork.on_bind, on_ret, Option.bind_some, CallStack.leave, Work.on_bind]
      rcases Work.on CallStack.ret stack with ⟨fault | frame, middle⟩
      · rfl
      · exact ih middle

/-- Routines are only left where there are more than remain. -/
theorem on_unwind (depth : Nat) (stack : CallStack) :
    (unwind depth).on stack = some (Work.on (CallStack.unwind depth) stack) := by
  rw [unwind, CheckedWork.on_get_bind, CallStack.unwind, Work.on_bind, Work.on_get]
  by_cases h : depth = 0 ∨ stack.depth < depth
  · simp only [if_pos h]
    rfl
  · simp only [if_neg h]
    rw [not_or, Nat.not_lt] at h
    rw [difference_of_le h.2, pure_bind]
    exact on_leave _ stack

end

/-! ## Entering a routine -/

section

variable {memory : Memory} {address count : Nat}

/-- The locals of a routine are words after one another, where they are in memory. -/
theorem initialLocals_succ (hversion : memory.version ≤ 4) (address count : Nat) :
    CallStack.initialLocals memory address (count + 1) = do
      let word ← memory.readWord address
      let others ← CallStack.initialLocals memory (address + 2) count
      return word :: others := by
  have hplace (i : Nat) : address + 2 + 2 * i = address + 2 * (i + 1) := by omega
  simp only [CallStack.initialLocals, if_pos hversion, List.range_succ_eq_map, List.mapM_cons,
    List.mapM_map, hplace]
  rfl

/-- **The locals of a routine are read in range**: after each word that is read, the next
address is still in memory or right after it. -/
theorem initialLocals_eq (hroom : memory.Addressable) (haddress : address ≤ memory.size) :
    initialLocals memory count address
      = inRange ((CallStack.initialLocals memory address count).map fun locals =>
          (locals, if memory.version ≤ 4 then address + 2 * count else address)) := by
  induction count generalizing address with
  | zero =>
      unfold CallStack.initialLocals
      split <;> rfl
  | succ count ih =>
      rw [initialLocals]
      by_cases hversion : memory.version ≤ 4
      · rw [if_pos hversion, initialLocals_succ hversion,
          Memory.readWordAt_eq (hroom.next_lt haddress)]
        rcases hword : memory.readWord address with fault | word
        · rfl
        · have hnext : address + 2 ≤ memory.size := by
            unfold Memory.readWord at hword
            split at hword
            · assumption
            · exact nomatch hword
          have hplace : address + 2 + 2 * count = address + 2 * (count + 1) := by omega
          rw [inRange_ok, pure_bind, sum_of_lt (hroom.next_lt haddress), pure_bind, ih hnext]
          simp only [if_pos hversion, hplace]
          rcases CallStack.initialLocals memory (address + 2) count with fault | locals <;> rfl
      · rw [if_neg hversion, ih haddress]
        simp only [CallStack.initialLocals, if_neg hversion]
        rfl

/-- A routine that can be entered has its addresses in range. -/
theorem on_call (hroom : memory.Addressable) (address : Nat) (arguments : List Word)
    (returnPc : Nat) (store : Option UInt8) (pending : Option PendingRead) (stack : CallStack) :
    (call memory address arguments returnPc store pending).on stack
      = some (Work.on (CallStack.call memory address arguments returnPc store pending) stack) := by
  rw [call, CheckedWork.on_get_bind, CallStack.call, Work.on_bind, Work.on_get]
  by_cases hdepth : maxFrames ≤ stack.depth
  · simp only [if_pos hdepth]
    rfl
  simp only [if_neg hdepth]
  rcases hcount : memory.readByte address with fault | b
  · rfl
  have haddress : address + 1 ≤ memory.size := Memory.lt_of_readByte hcount
  by_cases hmany : 15 < b.toNat
  · simp only [Work.on_bind, Work.on_ofExcept, if_pos hmany]
    rw [CheckedWork.on_compute_bind]
    simp only [if_pos hmany]
    rfl
  simp only [Work.on_bind, Work.on_ofExcept, if_neg hmany]
  rw [CheckedWork.on_compute_bind]
  simp only [if_neg hmany]
  rw [hroom.sum_eq (Nat.le_of_succ_le haddress) (by decide), pure_bind,
    initialLocals_eq hroom haddress]
  rcases CallStack.initialLocals memory (address + 1) b.toNat with fault | locals <;> rfl

end

/-! ## What follows -/

section

variable {P : α → Prop}

/-- Checked work that does the same follows if a steady stack stays so. -/
theorem follows_of_on {checked : CheckedWork CallStack α} {work : StackWork α}
    (hbearable : Bearable work) (hframes : KeepsFrames work)
    (h : ∀ stack : CallStack, stack.Steady → checked.on stack = some (Work.on work stack))
    (hP : ∀ stack a after, stack.Steady → Work.on work stack = (.ok a, after) → P a) :
    Follows upkeep checked work P := by
  intro stack hsteady
  have hafter : (Work.on work stack).2.Steady :=
    ⟨(hbearable stack).covered hsteady.covered, hframes stack hsteady.frames⟩
  refine ⟨h stack hsteady, ?_⟩
  rcases hwork : Work.on work stack with ⟨fault | a, after⟩ <;> rw [hwork] at hafter
  · exact hafter
  · exact ⟨hafter, hP stack a after hsteady hwork⟩

/-- A frame of a steady stack claims no more words than a stack can have. -/
theorem current_lt {stack : CallStack} (h : stack.Steady) : stack.current.size < 0x10000 := by
  have := h.covered.claimed_le
  omega

/-- Pushing counts the words of the frame in their range. -/
theorem follows_push (word : Word) : Follows upkeep (push word) (CallStack.push word) := by
  refine follows_of_on (bearable_push word) (keepsFrames_push word) (fun stack hsteady => ?_)
    fun _ _ _ _ _ => trivial
  have hsize := current_lt hsteady
  exact on_push word (by omega)

/-- Popping counts the words of the frame in their range. -/
theorem follows_pop : Follows upkeep pop CallStack.pop :=
  follows_of_on bearable_pop keepsFrames_pop (fun stack _ => on_pop stack) fun _ _ _ _ _ => trivial

/-- Dropping words counts them in their range. -/
theorem follows_popMany (count : Nat) :
    Follows upkeep (popMany count) (CallStack.popMany count) :=
  follows_of_on (bearable_popMany count) (keepsFrames_popMany count)
    (fun stack _ => on_popMany count stack) fun _ _ _ _ _ => trivial

/-- Replacing the top word keeps the count. -/
theorem follows_poke (word : Word) : Follows upkeep (poke word) (CallStack.poke word) :=
  follows_of_on (bearable_poke word) (keepsFrames_poke word)
    (fun stack _ => on_top_bind _ stack) fun _ _ _ _ _ => trivial

/-- Setting a local indexes one that the frame has. -/
theorem follows_setLocal (number : UInt8) (value : Word) :
    Follows upkeep (setLocal number value) (CallStack.setLocal number value) :=
  follows_of_on (bearable_setLocal number value) (keepsFrames_setLocal number value)
    (fun stack _ => on_top_bind _ stack) fun _ _ _ _ _ => trivial

/-- Unwinding counts the frames in their range. -/
theorem follows_unwind (depth : Nat) :
    Follows upkeep (unwind depth) (CallStack.unwind depth) :=
  follows_of_on (bearable_unwind depth) (keepsFrames_unwind depth)
    (fun stack _ => on_unwind depth stack) fun _ _ _ _ _ => trivial

/-- The frame that is left was one of the stack. -/
theorem follows_ret : Follows upkeep ret CallStack.ret Frame.Steady := by
  refine follows_of_on bearable_ret keepsFrames_ret (fun stack _ => on_ret stack)
    fun stack frame after hsteady hret => ?_
  rcases stack.run_ret with ⟨caller, older, -, -, hrun⟩ | ⟨fault, other, hrun, -, -⟩
  · rw [run_eq_on, hret] at hrun
    obtain rfl := Except.ok.inj (congrArg Prod.fst hrun)
    exact hsteady.frames _ (mem_frames.mpr (.inl rfl))
  · rw [run_eq_on, hret] at hrun
    exact nomatch congrArg Prod.fst hrun

/-- A routine that is entered begins in memory or right after it. -/
theorem follows_call {memory : Memory} (hroom : memory.Addressable) (address : Nat)
    (arguments : List Word) (returnPc : Nat) (store : Option UInt8) (pending : Option PendingRead)
    (hpending : ∀ read, pending = some read → read.Steady) :
    Follows upkeep (call memory address arguments returnPc store pending)
      (CallStack.call memory address arguments returnPc store pending) fun first =>
        first ≤ memory.size := by
  refine follows_of_on (fun stack => ?_) (fun stack hframes => ?_)
    (fun stack _ => on_call hroom address arguments returnPc store pending stack)
    fun stack first after _ hcall => ?_
  · rcases stack.run_call memory address arguments returnPc store pending
      with ⟨frame, first, hrun, hentry, hdepth⟩ | ⟨fault, hrun⟩ <;> rw [hrun]
    · exact endures_entered hdepth hentry.size_eq hentry.locals_le
    · exact .refl stack
  · rw [← run_eq_on]
    rcases stack.run_call memory address arguments returnPc store pending
      with ⟨frame, first, hrun, hentry, -⟩ | ⟨fault, hrun⟩ <;> rw [hrun]
    · intro other hother
      rcases mem_frames.mp hother with rfl | hother
      · refine ⟨Nat.le_succ_of_le hentry.arguments_le, fun read hread => hpending read ?_⟩
        rw [← hentry.pending_eq]
        exact hread
      · exact hframes other (mem_frames.mpr (List.mem_cons.mp hother))
    · exact hframes
  · rcases stack.run_call memory address arguments returnPc store pending
      with ⟨frame, first', hrun, hentry, -⟩ | ⟨fault, hrun⟩
    · rw [run_eq_on, hcall] at hrun
      obtain rfl := Except.ok.inj (congrArg Prod.fst hrun)
      exact hentry.first_le
    · rw [run_eq_on, hcall] at hrun
      exact nomatch congrArg Prod.fst hrun

end

end CheckedStack

end StoryMachine
