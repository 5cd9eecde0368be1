import StoryMachine.Proofs.Decoding
import StoryMachine.Proofs.InstructionMoves

/-!
# Delivering the result of a save

An instruction that saves ends with a store variable, or in version 3 with branch
data: its `Ending`.  The result is delivered through that, by the instruction itself
when it has saved, and once more when the snapshot is restored, from nothing but the
address where the ending stands.

For each way of delivering, a predicate says when it is possible (`CanAssign`,
`CanReturn`, `CanConclude`) and a function says what becomes of the machine
(`assign`, `returned`, `conclude`).  Both paths are shown to do just that
(`play_report_of_can`, `play_completeRestore_of_can`); where they cannot, the fault is
fatal and memory is as it was.
-/

namespace StoryMachine

variable {W : Type}

/-! ## What can be delivered, and what it makes of the machine -/

namespace Machine

variable (machine : Machine)

/-- Whether a variable can be written. -/
def CanAssign (number : UInt8) : Prop :=
  if number = 0 then machine.stack.values.size < WordStack.limit
  else if number < 16 then number.toNat ≤ machine.stack.current.locals.length
  else Play.globalAddress machine number + 1 < machine.memory.dynamicCeiling

/-- The machine with a variable written that can be. -/
def assign (number : UInt8) (value : Word) : Machine :=
  if number = 0 then { machine with stack := machine.stack.pushed value }
  else if number < 16 then { machine with stack := machine.stack.withLocal number value }
  else if h : Play.globalAddress machine number + 1 < machine.memory.dynamicCeiling then
    { machine with memory := machine.memory.setWord (Play.globalAddress machine number) value h }
  else machine

/-- Whether the value of a routine can be handed over, its frame being gone. -/
def CanHand (frame : Frame) : Prop :=
  frame.pending = none → ¬(machine.memory.version = 6 ∧ machine.stack.depth = 1) →
    ∀ target, frame.store = some target → machine.CanAssign target

/-- The machine with the value of a routine handed over. -/
def handed (frame : Frame) (value : Word) : Machine :=
  match frame.pending with
  | some pending => { machine with resume := some (pending, value) }
  | none =>
    if machine.memory.version = 6 ∧ machine.stack.depth = 1 then
      { machine with halted := some .quit }
    else match frame.store with
      | some target => machine.assign target value
      | none => machine

/-- Whether the current routine can return. -/
def CanReturn : Prop :=
  ∃ caller older, machine.stack.callers = caller :: older ∧
    machine.stack.current.size ≤ machine.stack.values.size ∧
    (machine.backIn caller older).CanHand machine.stack.current

/-- The machine after the current routine has returned a value. -/
def returned (value : Word) : Machine :=
  match machine.stack.callers with
  | caller :: older => (machine.backIn caller older).handed machine.stack.current value
  | [] => machine

/-- Whether a branch can be taken. -/
def CanFollow : BranchTarget → Prop
  | .returnFalse | .returnTrue => machine.CanReturn
  | .address _ => True

/-- The machine after a branch was taken. -/
def follow : BranchTarget → Machine
  | .returnFalse => machine.returned 0
  | .returnTrue => machine.returned 1
  | .address pc => { machine with pc }

end Machine

/-- What follows the operands of an instruction that delivers one result. -/
inductive Ending where
  | store (target : UInt8)
  | branch (branch : Branch)
  deriving DecidableEq

/-- The ending of a saving instruction at an address, and how many bytes it takes: a
store variable, in version 3 branch data. -/
def Ending.read (memory : Memory) (address : Nat) : Except Fault (Ending × Nat) :=
  if 4 ≤ memory.version then (memory.readByte address).map fun b => (.store b, 1)
  else (Branch.decode memory address).map fun (data, length) => (.branch data, length)

/-- The ending of an instruction. -/
def Instruction.ending? (instruction : Instruction) : Option Ending :=
  match instruction.store with
  | some target => some (.store target)
  | none => instruction.branch.map .branch

namespace Machine

variable (machine : Machine)

/-- Whether a result can be delivered, with the machine right behind the ending. -/
def CanConclude (value : Word) : Ending → Prop
  | .store target => machine.CanAssign target
  | .branch branch =>
    branch.condition = (value != 0) → machine.CanFollow (branch.target machine.pc)

/-- The machine with a result delivered. -/
def conclude (value : Word) : Ending → Machine
  | .store target => machine.assign target value
  | .branch branch =>
    if branch.condition = (value != 0) then machine.follow (branch.target machine.pc)
    else machine

end Machine

/-! ## That this is what is done -/

namespace Play

open Machine

variable (host : Host (StateM W)) (machine : Machine) (w : W)

/-- Writing a word of memory for the machine. -/
theorem play_writeWord_of_lt {address : Nat} (value : Word)
    (h : address + 1 < machine.memory.dynamicCeiling) :
    machine.play host (edit (Edit.writeWord address value)) w
      = ((.ok (), { machine with memory := machine.memory.setWord address value h }), w) := by
  rw [play_edit, Edit.run_eq_on, @Edit.on_writeWord_of_lt { memory := machine.memory } address h]
  rfl

/-- A word that is not wholly in dynamic memory cannot be written, which is fatal. -/
theorem play_writeWord_of_le {address : Nat} (value : Word)
    (h : machine.memory.dynamicCeiling ≤ address + 1) :
    ∃ fault, machine.play host (edit (Edit.writeWord address value)) w
      = ((.error fault, machine), w) ∧ fault.isFatal = true := by
  obtain ⟨place, hfault⟩ := @Edit.on_writeWord_of_le { memory := machine.memory } address h value
  refine ⟨_, ?_, Edit.isFatal_writeFault machine.memory place⟩
  rw [play_edit, Edit.run_eq_on, hfault]
  rfl

/-- A variable that can be written is. -/
theorem play_writeVariable_of_can {number : UInt8} (value : Word)
    (h : machine.CanAssign number) :
    machine.play host (writeVariable number value) w
      = ((.ok (), machine.assign number value), w) := by
  unfold CanAssign at h
  unfold writeVariable assign
  split at h
  case isTrue hzero =>
      rw [if_pos hzero, if_pos hzero, play_onStack, machine.stack.run_push_of_lt value h]
  case isFalse hzero =>
    rw [if_neg hzero, if_neg hzero]
    split at h
    case isTrue hlocal =>
        rw [if_pos hlocal, if_pos hlocal, play_onStack,
          machine.stack.run_setLocal_of_le value hzero h]
    case isFalse hlocal =>
        rw [if_neg hlocal, if_neg hlocal, dif_pos h, play_bind_of_ok (play_get machine host w)]
        exact play_writeWord_of_lt host machine w value h

/-- What a failed delivery makes of the stack.  The fault is fatal; the stack can still
be stored, unless it was one word too many that made the delivery fail. -/
def Spilt (before : CallStack) (fault : Fault) (stack : CallStack) : Prop :=
  fault.isFatal = true ∧
    (before.Storable → fault.kind = .stackOverflow ∨ stack.Storable)

/-- A variable that cannot be written fails fatally, with the stack spilt at the most. -/
theorem play_writeVariable_of_not {number : UInt8} (value : Word)
    (h : ¬machine.CanAssign number) :
    ∃ fault stack, machine.play host (writeVariable number value) w
        = ((.error fault, { machine with stack }), w) ∧ Spilt machine.stack fault stack := by
  unfold CanAssign at h
  unfold writeVariable
  split at h
  case isTrue hzero =>
      rw [if_pos hzero, play_onStack, machine.stack.run_push_of_le value (Nat.not_lt.mp h)]
      exact ⟨_, _, rfl, rfl, fun _ => .inl rfl⟩
  case isFalse hzero =>
    rw [if_neg hzero]
    split at h
    case isTrue hlocal =>
        rw [if_pos hlocal, play_onStack, machine.stack.run_setLocal_of_lt value (Nat.not_le.mp h)]
        exact ⟨_, _, rfl, rfl, fun hstorable => .inr hstorable⟩
    case isFalse hlocal =>
        rw [if_neg hlocal, play_bind_of_ok (play_get machine host w)]
        obtain ⟨fault, hfault, hfatal⟩ :=
          play_writeWord_of_le host machine w value (Nat.not_lt.mp h)
        exact ⟨fault, machine.stack, hfault, hfatal, fun hstorable => .inr hstorable⟩

/-- A value that can be handed over is. -/
theorem play_handOver_of_can {frame : Frame} (value : Word) (h : machine.CanHand frame) :
    machine.play host (handOver frame value) w = ((.ok (), machine.handed frame value), w) := by
  unfold handOver handed
  unfold CanHand at h
  cases hpending : frame.pending with
  | some pending => rfl
  | none =>
      dsimp only
      rw [play_bind_of_ok (play_get machine host w)]
      by_cases hend : machine.memory.version = 6 ∧ machine.stack.depth = 1
      · rw [if_pos hend, if_pos hend]
        rfl
      · rw [if_neg hend, if_neg hend]
        cases hstore : frame.store with
        | none => rfl
        | some target => exact play_writeVariable_of_can host machine w value (h hpending hend target hstore)

/-- A value that cannot be handed over fails fatally, with the stack spilt at the most. -/
theorem play_handOver_of_not {frame : Frame} (value : Word) (h : ¬machine.CanHand frame) :
    ∃ fault stack, machine.play host (handOver frame value) w
        = ((.error fault, { machine with stack }), w) ∧ Spilt machine.stack fault stack := by
  have h' : frame.pending = none ∧ ¬(machine.memory.version = 6 ∧ machine.stack.depth = 1) ∧
      ∃ target, frame.store = some target ∧ ¬machine.CanAssign target := by
    unfold CanHand at h
    grind
  obtain ⟨hpending, hend, target, hstore, hnot⟩ := h'
  unfold handOver
  rw [hpending]
  dsimp only
  rw [play_bind_of_ok (play_get machine host w), if_neg hend, hstore]
  exact play_writeVariable_of_not host machine w value hnot

/-- A routine that can return does. -/
theorem play_ret_of_can (value : Word) (h : machine.CanReturn) :
    machine.play host (ret value) w = ((.ok (), machine.returned value), w) := by
  obtain ⟨caller, older, hcallers, hvalues, hhand⟩ := h
  have hleft := machine.stack.run_ret_of_cons hcallers hvalues
  have hreturned : machine.returned value
      = (machine.backIn caller older).handed machine.stack.current value := by
    rw [returned, hcallers]
  rw [hreturned, ret, play_bind, play_onStack, hleft]
  exact play_handOver_of_can host (machine.backIn caller older) w value hhand

/-- A routine that cannot return fails fatally, with the stack spilt at the most. -/
theorem play_ret_of_not (value : Word) (h : ¬machine.CanReturn) :
    ∃ fault stack pc, machine.play host (ret value) w
        = ((.error fault, { machine with stack, pc }), w) ∧ Spilt machine.stack fault stack := by
  rcases play_ret host machine w value with
    ⟨caller, older, hcallers, hvalues, hplay⟩ | ⟨fault, stack, hplay, hfatal, hsame, -⟩
  · have hhand : ¬(machine.backIn caller older).CanHand machine.stack.current :=
      fun hhand => h ⟨caller, older, hcallers, hvalues, hhand⟩
    obtain ⟨fault, stack, hfault, hfatal, hspilt⟩ :=
      play_handOver_of_not host (machine.backIn caller older) w value hhand
    exact ⟨fault, stack, machine.stack.current.returnPc, hplay.trans hfault, hfatal,
      fun hstorable => hspilt (hstorable.move (.leave caller older hcallers hvalues))⟩
  · exact ⟨fault, stack, machine.pc, hplay, hfatal, fun hstorable => .inr (hsame hstorable ▸ hstorable)⟩

/-- A branch that can be taken is. -/
theorem play_jump_of_can {target : BranchTarget} (h : machine.CanFollow target) :
    machine.play host (jump target) w = ((.ok (), machine.follow target), w) := by
  cases target with
  | returnFalse => exact play_ret_of_can host machine w 0 h
  | returnTrue => exact play_ret_of_can host machine w 1 h
  | address pc => rfl

/-- A branch that cannot be taken fails fatally, with the stack spilt at the most. -/
theorem play_jump_of_not {target : BranchTarget} (h : ¬machine.CanFollow target) :
    ∃ fault stack pc, machine.play host (jump target) w
        = ((.error fault, { machine with stack, pc }), w) ∧ Spilt machine.stack fault stack := by
  cases target with
  | returnFalse => exact play_ret_of_not host machine w 0 h
  | returnTrue => exact play_ret_of_not host machine w 1 h
  | address pc => exact absurd trivial h

variable {machine}

/-- **A saving instruction delivers its result through its ending**, if it can. -/
theorem play_report_of_can {instruction : Instruction} {ending : Ending} {value : Word}
    (hpc : machine.pc = instruction.next) (hending : instruction.ending? = some ending)
    (h : machine.CanConclude value ending) :
    machine.play host (report instruction value) w
      = ((.ok (), machine.conclude value ending), w) := by
  unfold Instruction.ending? at hending
  unfold report
  split at hending
  case h_1 target hstore =>
      obtain rfl := Option.some.inj hending
      rw [if_pos (by rw [hstore]; rfl), store, hstore]
      exact play_writeVariable_of_can host machine w value h
  case h_2 hstore =>
      obtain ⟨data, hdata, rfl⟩ := Option.map_eq_some_iff.mp hending
      rw [if_neg (by rw [hstore]; decide), branch, hdata]
      unfold conclude
      dsimp only
      unfold CanConclude at h
      by_cases htaken : data.condition = (value != 0)
      · rw [if_pos htaken, if_pos htaken, ← hpc]
        exact play_jump_of_can host machine w (h htaken)
      · rw [if_neg htaken, if_neg htaken]
        rfl

/-- Where an instruction delivered its result, it could. -/
theorem canConclude_of_report {instruction : Instruction} {ending : Ending} {value : Word}
    {after : Machine} {w' : W} (hpc : machine.pc = instruction.next)
    (hending : instruction.ending? = some ending)
    (h : machine.play host (report instruction value) w = ((.ok (), after), w')) :
    machine.CanConclude value ending ∧ after = machine.conclude value ending := by
  have hcan : machine.CanConclude value ending := by
    refine Classical.byContradiction fun hnot => ?_
    unfold Instruction.ending? at hending
    unfold report at h
    split at hending
    case h_1 target hstore =>
        obtain rfl := Option.some.inj hending
        rw [if_pos (by rw [hstore]; rfl), store, hstore] at h
        obtain ⟨fault, stack, hfault, -⟩ := play_writeVariable_of_not host machine w value hnot
        rw [storeTo, hfault] at h
        cases h
    case h_2 hstore =>
        obtain ⟨data, hdata, rfl⟩ := Option.map_eq_some_iff.mp hending
        have hnot' : data.condition = (value != 0) ∧
            ¬machine.CanFollow (data.target instruction.next) := by
          rw [CanConclude, hpc] at hnot
          exact Classical.not_imp.mp hnot
        rw [if_neg (by rw [hstore]; decide), branch, hdata] at h
        dsimp only at h
        rw [if_pos hnot'.1] at h
        obtain ⟨fault, stack, pc, hfault, -⟩ := play_jump_of_not host machine w hnot'.2
        rw [hfault] at h
        cases h
  refine ⟨hcan, ?_⟩
  rw [play_report_of_can host w hpc hending hcan] at h
  cases h
  rfl

end Play

namespace Machine

/-- Whether the instruction whose ending stands at an address can be finished with the
result 2, by what memory and the stack are now. -/
def CanFinish (machine : Machine) (result : Nat) : Prop :=
  ∃ ending length, Ending.read machine.memory result = .ok (ending, length) ∧
    { machine with pc := result + length }.CanConclude 2 ending

end Machine

namespace Play

open Machine

variable (host : Host (StateM W)) {machine : Machine} (w : W)

/-- Delivers the result 2 through an ending, with the next instruction at `next`. -/
def finish (next : Nat) : Ending → Play (StateM W) Unit
  | .store target => writeVariable target 2
  | .branch data => if data.condition then jump (data.target next) else pure ()

/-- What finishing does once the ending is known. -/
theorem play_completeRestore_of_read {result length : Nat} {ending : Ending}
    (hread : Ending.read machine.memory result = .ok (ending, length)) :
    machine.play host (completeRestore result) w
      = { machine with pc := result + length }.play host (finish (result + length) ending) w := by
  unfold Ending.read at hread
  unfold completeRestore
  rw [play_bind_of_ok (play_view machine host w _)]
  by_cases hversion : 4 ≤ machine.memory.version
  · rw [if_pos hversion] at hread ⊢
    cases hbyte : machine.memory.readByte result with
    | error fault =>
        rw [hbyte] at hread
        exact nomatch hread
    | ok target =>
        rw [hbyte] at hread
        obtain ⟨rfl, rfl⟩ := Prod.mk.inj (Except.ok.inj hread)
        rw [play_bind, play_look, hbyte]
        rfl
  · rw [if_neg hversion] at hread ⊢
    cases hbranch : Branch.decode machine.memory result with
    | error fault =>
        rw [hbranch] at hread
        exact nomatch hread
    | ok pair =>
        rw [hbranch] at hread
        obtain ⟨rfl, rfl⟩ := Prod.mk.inj (Except.ok.inj hread)
        rw [play_bind, play_look, hbranch]
        rfl

/-- **Restoring delivers the result 2 through the ending that it finds**, if it can. -/
theorem play_completeRestore_of_can {result length : Nat} {ending : Ending}
    (hread : Ending.read machine.memory result = .ok (ending, length))
    (h : { machine with pc := result + length }.CanConclude 2 ending) :
    machine.play host (completeRestore result) w
      = ((.ok (), { machine with pc := result + length }.conclude 2 ending), w) := by
  rw [play_completeRestore_of_read host w hread]
  cases ending with
  | store target => exact play_writeVariable_of_can host _ w 2 h
  | branch data =>
      have htwo : (2 != (0 : Word)) = true := rfl
      unfold CanConclude at h
      unfold conclude finish
      rw [htwo] at h ⊢
      dsimp only
      by_cases htaken : data.condition = true
      · rw [if_pos htaken, if_pos htaken]
        exact play_jump_of_can host _ w (h htaken)
      · rw [if_neg htaken, if_neg htaken]
        rfl

/-- A byte that cannot be read is a fatal fault. -/
theorem isFatal_of_readByte {memory : Memory} {address : Nat} {fault : Fault}
    (h : memory.readByte address = .error fault) : fault.isFatal = true := by
  unfold Memory.readByte at h
  split at h
  · exact nomatch h
  · obtain rfl := Except.error.inj h
    rfl

/-- A branch that cannot be decoded is a fatal fault. -/
theorem isFatal_of_branch {memory : Memory} {address : Nat} {fault : Fault}
    (h : Branch.decode memory address = .error fault) : fault.isFatal = true := by
  unfold Branch.decode at h
  cases hfirst : memory.readByte address with
  | error fault' =>
      rw [hfirst] at h
      obtain rfl := Except.error.inj h
      exact isFatal_of_readByte hfirst
  | ok first =>
      rw [hfirst] at h
      simp only [bind, Except.bind] at h
      split at h
      · exact nomatch h
      · cases hsecond : memory.readByte (address + 1) with
        | error fault' =>
            rw [hsecond] at h
            obtain rfl := Except.error.inj h
            exact isFatal_of_readByte hsecond
        | ok second =>
            rw [hsecond] at h
            exact nomatch h

/-- An ending that is not there is fatal. -/
theorem play_completeRestore_of_unread {result : Nat} {fault : Fault}
    (hread : Ending.read machine.memory result = .error fault) :
    machine.play host (completeRestore result) w = ((.error fault, machine), w) ∧
      fault.isFatal = true := by
  unfold Ending.read at hread
  unfold completeRestore
  rw [play_bind_of_ok (play_view machine host w _)]
  by_cases hversion : 4 ≤ machine.memory.version
  · rw [if_pos hversion] at hread ⊢
    cases hbyte : machine.memory.readByte result with
    | ok target =>
        rw [hbyte] at hread
        exact nomatch hread
    | error fault' =>
        rw [hbyte] at hread
        obtain rfl := Except.error.inj hread
        rw [play_bind, play_look, hbyte]
        exact ⟨rfl, isFatal_of_readByte hbyte⟩
  · rw [if_neg hversion] at hread ⊢
    cases hbranch : Branch.decode machine.memory result with
    | ok pair =>
        rw [hbranch] at hread
        exact nomatch hread
    | error fault' =>
        rw [hbranch] at hread
        obtain rfl := Except.error.inj hread
        rw [play_bind, play_look, hbranch]
        exact ⟨rfl, isFatal_of_branch hbranch⟩

/-- Where an ending cannot be read, or the result not be delivered, the fault is
fatal, and nothing but the stack and the place of the machine has changed. -/
theorem play_completeRestore_of_not {result : Nat} (h : ¬machine.CanFinish result) :
    ∃ fault stack pc, machine.play host (completeRestore result) w
        = ((.error fault, { machine with stack, pc }), w) ∧ Spilt machine.stack fault stack := by
  cases hread : Ending.read machine.memory result with
  | error fault =>
      obtain ⟨hfault, hfatal⟩ := play_completeRestore_of_unread host w hread
      exact ⟨fault, machine.stack, machine.pc, hfault, hfatal, fun hstorable => .inr hstorable⟩
  | ok pair =>
      obtain ⟨ending, length⟩ := pair
      have hnot : ¬{ machine with pc := result + length }.CanConclude 2 ending :=
        fun hcan => h ⟨ending, length, hread, hcan⟩
      rw [play_completeRestore_of_read host w hread]
      cases ending with
      | store target =>
          obtain ⟨fault, stack, hfault, hspilt⟩ := play_writeVariable_of_not host _ w 2 hnot
          exact ⟨fault, stack, result + length, hfault, hspilt⟩
      | branch data =>
          obtain ⟨htaken, hfollow⟩ := Classical.not_imp.mp hnot
          have htaken : data.condition = true := htaken
          rw [finish, if_pos htaken]
          exact play_jump_of_not host _ w hfollow

end Play

end StoryMachine
