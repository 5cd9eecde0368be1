import StoryMachine.Proofs.CheckedDecoding
import StoryMachine.Proofs.CheckedObjects
import StoryMachine.Proofs.CheckedSnapshot
import StoryMachine.Proofs.CheckedStreams

/-!
# The machine with checked arithmetic

What a machine does is put together from work on memory, on the call stack and on the
streams.  Here it is put together in the same way from the checked work on each of them.
The addresses that are computed in between are checked too: those of global variables, of
routines and texts, and the places that branches lead to.

`Machine.Roomy` is what keeps all of it in range: memory leaves room, the tables that the
header names begin below 2^16, the stack is steady, and no stream into memory has got
further than a bound.  `Machine.upkeep` lets a fault cost a stream some bytes; work that
prints nothing costs none.
-/

namespace StoryMachine

open Checked

variable {W α β : Type}

/-- A machine none of whose addresses is near the end of its range; the streams into memory have
got no further than a bound. -/
structure Machine.Roomy (b : Nat) (machine : Machine) : Prop where
  memory : machine.memory.Addressable
  objects : machine.objects.address < 0x10000
  globals : machine.globals < 0x10000
  abbreviations : machine.codec.abbreviations < 0x10000
  extras : machine.codec.unicode.extras.size ≤ 97
  stack : machine.stack.Steady
  resume : ∀ read value, machine.resume = some (read, value) → read.Steady
  tables : ∀ stream ∈ machine.streams.tables, stream.stop ≤ b

/-- A machine with room has room for more. -/
theorem Machine.Roomy.mono {b c : Nat} {machine : Machine} (h : machine.Roomy b) (hle : b ≤ c) :
    machine.Roomy c :=
  { h with tables := fun stream hstream => Nat.le_trans (h.tables stream hstream) hle }

/-- A machine that is at work is roomy, and a fault costs the streams no more than so much. -/
def Machine.upkeep (b cost : Nat) : Upkeep Machine where
  during := Machine.Roomy b
  atFault := Machine.Roomy (b + cost)
  imp := fun _ h => h.mono (Nat.le_add_right _ _)

/-- What a machine with checked arithmetic does, with a host. -/
abbrev CheckedPlay (W α : Type) := CheckedHosted Machine W α

namespace CheckedPlay

/-- Works on memory. -/
def edit (work : CheckedWork Draft α) : CheckedPlay W α := fun host => ExceptT.mk fun machine w =>
  (work.on { memory := machine.memory }).map fun result =>
    ((result.1, { machine with memory := result.2.memory }),
      ((result.2.notices.forM host.note : StateM W PUnit) w).2)

/-- Works on the call stack. -/
def onStack (work : CheckedWork CallStack α) : CheckedPlay W α := fun _ =>
  ExceptT.mk fun machine w =>
  (work.on machine.stack).map fun result => ((result.1, { machine with stack := result.2 }), w)

/-- Works with the streams. -/
def onStreams (work : CheckedHosted Desk W α) : CheckedPlay W α := fun host =>
  ExceptT.mk fun machine w =>
    (work.on host { memory := machine.memory, streams := machine.streams } w).map fun result =>
      ((result.1.1,
        { machine with memory := result.1.2.memory, streams := result.1.2.streams }), result.2)

/-- Looks at memory. -/
def look (f : Memory → Checked α) : CheckedPlay W α :=
  CheckedHosted.look fun machine => f machine.memory

/-- Asks the host. -/
def ask (f : Host (StateM W) → StateM W α) : CheckedPlay W α := CheckedHosted.whole (Play.ask f)

/-- Sends a notice to the host. -/
def note (notice : Notice) : CheckedPlay W Unit := ask (·.note notice)

/-- Warns about something that the story does. -/
def warn (message : String) : CheckedPlay W Unit := CheckedHosted.whole (Play.warn message)

/-- Warns if there is something to warn about. -/
def warnIf (message : Option String) : CheckedPlay W Unit :=
  CheckedHosted.whole (Play.warnIf message)

/-- Changes the machine. -/
def change (f : Machine → Machine) : CheckedPlay W PUnit := CheckedHosted.whole (modify f)

/-- Goes on at an address. -/
def setPc (pc : Nat) : CheckedPlay W Unit := CheckedHosted.whole (Play.setPc pc)

/-! ## Work on the parts of the machine -/

section

variable {b cost : Nat} {P : α → Prop}

/-- Checked work on memory accompanies the work on memory of an instruction. -/
theorem accompanies_edit {checked : CheckedWork Draft α} {work : Edit α}
    (h : Follows Draft.upkeep checked work P) :
    Accompanies (Machine.upkeep b cost) (edit checked : CheckedPlay W α) (Play.edit work) P := by
  intro host machine w hroomy
  obtain ⟨hsame, hleaves⟩ := h { memory := machine.memory } hroomy.memory
  have hchecked : (edit checked).on host machine w
      = some (machine.play host (Play.edit work) w) := by
    rw [Machine.play_edit, Edit.run_eq_on]
    show (checked.on { memory := machine.memory }).map _ = _
    rw [hsame]
    rfl
  refine ⟨hchecked, ?_⟩
  change (Machine.upkeep b cost).Leaves P (machine.play host (Play.edit work) w).1
  rw [Machine.play_edit, Edit.run_eq_on]
  rcases hwork : Work.on work { memory := machine.memory } with ⟨fault | a, draft⟩ <;>
    rw [hwork] at hleaves
  · exact { hroomy.mono (Nat.le_add_right b cost) with memory := hleaves }
  · exact ⟨{ hroomy with memory := hleaves.1 }, hleaves.2⟩

/-- Checked work on the stack accompanies the work on the stack of an instruction. -/
theorem accompanies_onStack {checked : CheckedWork CallStack α} {work : StackWork α}
    (h : Follows CallStack.upkeep checked work P) :
    Accompanies (Machine.upkeep b cost) (onStack checked : CheckedPlay W α)
      (Play.onStack work) P := by
  intro host machine w hroomy
  obtain ⟨hsame, hleaves⟩ := h machine.stack hroomy.stack
  have hchecked : (onStack checked).on host machine w
      = some (machine.play host (Play.onStack work) w) := by
    rw [Machine.play_onStack, CallStack.run_eq_on]
    show (checked.on machine.stack).map _ = _
    rw [hsame]
    rfl
  refine ⟨hchecked, ?_⟩
  change (Machine.upkeep b cost).Leaves P (machine.play host (Play.onStack work) w).1
  rw [Machine.play_onStack, CallStack.run_eq_on]
  rcases hwork : Work.on work machine.stack with ⟨fault | a, stack⟩ <;> rw [hwork] at hleaves
  · exact { hroomy.mono (Nat.le_add_right b cost) with stack := hleaves }
  · exact ⟨{ hroomy with stack := hleaves.1 }, hleaves.2⟩

/-- Reading the stack changes nothing. -/
theorem accompanies_readStack {checked : CheckedWork CallStack α} {g : CallStack → Except Fault α}
    (h : ∀ stack, checked.on stack = some (g stack, stack)) :
    Accompanies (Machine.upkeep b cost) (onStack checked : CheckedPlay W α)
      (do MonadExcept.ofExcept (g (← get).stack) : Play (StateM W) α) := by
  intro host machine w hroomy
  have hwork :
      Hosted.on (do MonadExcept.ofExcept (g (← get).stack) : Play (StateM W) α) host machine w
      = ((g machine.stack, machine), w) :=
    (Machine.play_bind_of_ok (Machine.play_get machine host w)).trans
      (Machine.play_ofExcept machine host w _)
  have hchecked : (onStack checked).on host machine w = some ((g machine.stack, machine), w) := by
    show (checked.on machine.stack).map _ = _
    rw [h]
    rfl
  rw [hwork]
  refine ⟨hchecked, ?_⟩
  cases g machine.stack with
  | error fault => exact hroomy.mono (Nat.le_add_right b cost)
  | ok a => exact ⟨hroomy, trivial⟩

/-- Checked work of the streams accompanies their work, and may drive a stream two bytes further
where it fails. -/
theorem accompanies_onStreams {checked : CheckedHosted Desk W α} {work : StreamWork (StateM W) α}
    (h : Accompanies (Desk.upkeep b) checked work P) :
    Accompanies (Machine.upkeep b 2) (onStreams checked) (Play.onStreams work) P := by
  intro host machine w hroomy
  obtain ⟨hsame, hleaves⟩ := h host { memory := machine.memory, streams := machine.streams } w
    ⟨hroomy.memory, hroomy.tables⟩
  have hchecked : (onStreams checked).on host machine w
      = some (machine.play host (Play.onStreams work) w) := by
    rw [Machine.play_onStreams]
    show (checked.on host { memory := machine.memory, streams := machine.streams } w).map _ = _
    rw [hsame]
    rfl
  refine ⟨hchecked, ?_⟩
  change (Machine.upkeep b 2).Leaves P (machine.play host (Play.onStreams work) w).1
  change (Desk.upkeep b).Leaves P
    (work.on host { memory := machine.memory, streams := machine.streams } w).1 at hleaves
  rw [Machine.play_onStreams]
  rcases hwork : work.on host { memory := machine.memory, streams := machine.streams } w
    with ⟨⟨fault | a, desk⟩, v⟩ <;> rw [hwork] at hleaves
  · exact { hroomy.mono (Nat.le_add_right b 2) with
      memory := hleaves.memory, tables := hleaves.tables }
  · exact ⟨{ hroomy with memory := hleaves.1.memory, tables := hleaves.1.tables }, hleaves.2⟩

/-- Looking at memory follows if it stays in range. -/
theorem accompanies_look {f : Memory → Checked α} {g : Memory → Except Fault α}
    (h : ∀ memory, memory.Addressable → f memory = inRange (g memory))
    (hP : ∀ memory a, memory.Addressable → g memory = .ok a → P a) :
    Accompanies (Machine.upkeep b cost) (look f : CheckedPlay W α) (Play.look g) P :=
  .look (fun host machine w => Machine.play_look machine host w g)
    (fun machine hroomy => h machine.memory hroomy.memory)
    fun machine a hroomy => hP machine.memory a hroomy.memory

/-- Looking at memory where the answer is no matter of room. -/
theorem accompanies_read {f : Memory → Checked α} {g : Memory → Except Fault α}
    (h : ∀ memory, memory.Addressable → f memory = inRange (g memory)) :
    Accompanies (Machine.upkeep b cost) (look f : CheckedPlay W α) (Play.look g) :=
  accompanies_look h fun _ _ _ _ => trivial

/-- Looking at memory where nothing can fail. -/
theorem accompanies_view {f : Memory → Checked α} {g : Memory → α}
    (h : ∀ memory, memory.Addressable → f memory = pure (g memory)) :
    Accompanies (Machine.upkeep b cost) (look f : CheckedPlay W α) (Play.view g) := by
  exact .look (g := fun machine => .ok (g machine.memory))
    (fun host machine w => Machine.play_view machine host w g)
    (fun machine hroomy => h machine.memory hroomy.memory) fun _ _ _ _ => trivial

/-! ## What is left whole -/

/-- Asking the host maintains every fact about the machine. -/
theorem maintains_ask {P : Machine → Prop} (f : Host (StateM W) → StateM W α) :
    Hosted.Maintains P (Play.ask f) := .of_eq fun _ _ _ => rfl

/-- A warning is the host's. -/
theorem maintains_warn {P : Machine → Prop} (message : String) :
    Hosted.Maintains P (Play.warn message : Play (StateM W) Unit) :=
  .bind .get fun _ => .ite (.throw _) (maintains_ask _)

/-- A change maintains a fact if it does so of every machine. -/
theorem maintains_modify {P : Machine → Prop} {f : Machine → Machine}
    (h : ∀ machine, P machine → P (f machine)) :
    Hosted.Maintains P (modify f : Play (StateM W) PUnit) := fun _ machine _ => h machine

/-- Asking the host leaves the machine as it is. -/
theorem accompanies_ask (f : Host (StateM W) → StateM W α) :
    Accompanies (Machine.upkeep b cost) (ask f) (Play.ask f) := .maintained (maintains_ask f)

/-- A notice costs nothing. -/
theorem accompanies_note (notice : Notice) :
    Accompanies (Machine.upkeep b cost) (note notice : CheckedPlay W Unit) (Play.note notice) :=
  accompanies_ask _

/-- A warning costs nothing. -/
theorem accompanies_warn (message : String) :
    Accompanies (Machine.upkeep b cost) (warn message : CheckedPlay W Unit) (Play.warn message) :=
  .maintained (maintains_warn message)

/-- Nor does one that there may be. -/
theorem accompanies_warnIf (message : Option String) :
    Accompanies (Machine.upkeep b cost) (warnIf message : CheckedPlay W Unit)
      (Play.warnIf message) := by
  cases message with
  | none => exact .maintained (.pure ())
  | some message => exact accompanies_warn message

/-- A change that keeps the machine roomy. -/
theorem accompanies_change {f : Machine → Machine}
    (h : ∀ machine, machine.Roomy b → (f machine).Roomy b) :
    Accompanies (Machine.upkeep b cost) (change f : CheckedPlay W PUnit) (modify f) :=
  .maintained (maintains_modify h)

/-- Where the machine goes on is no matter of its room. -/
theorem accompanies_setPc (pc : Nat) :
    Accompanies (Machine.upkeep b cost) (setPc pc : CheckedPlay W Unit) (Play.setPc pc) :=
  accompanies_change fun _ hroomy => { hroomy with }

end

/-! ## Variables -/

/-- The address of a global variable. -/
def globalAddress {m : Type → Type} [Monad m] [Breaks m] (machine : Machine) (number : UInt8) :
    m Nat := do
  let place ← difference number.toNat 16
  let far ← product 2 place
  sum machine.globals far

/-- Reads a variable. -/
def readVariable (number : UInt8) : CheckedPlay W Word := do
  if number = 0 then onStack CheckedStack.pop
  else if number < 16 then onStack (CheckedStack.localValue number)
  else
    let machine ← get
    let address ← globalAddress machine number
    look (·.readWordAt address)

/-- Writes a variable. -/
def writeVariable (number : UInt8) (value : Word) : CheckedPlay W Unit := do
  if number = 0 then onStack (CheckedStack.push value)
  else if number < 16 then onStack (CheckedStack.setLocal number value)
  else
    let machine ← get
    let address ← globalAddress machine number
    edit (CheckedEdit.writeWord address value)

/-- Reads a variable that an operand names. -/
def readNamed (number : UInt8) : CheckedPlay W Word :=
  if number = 0 then onStack CheckedStack.peek else readVariable number

/-- Writes a variable that an operand names. -/
def writeNamed (number : UInt8) (value : Word) : CheckedPlay W Unit :=
  if number = 0 then onStack (CheckedStack.poke value) else writeVariable number value

/-- The value of an operand. -/
def operandValue : Operand → CheckedPlay W Word
  | .large value => pure value
  | .small value => pure value.toUInt16
  | .var number => readVariable number

/-- The values of operands, taken from left to right. -/
def operandValues : List Operand → CheckedPlay W (List Word)
  | [] => pure []
  | operand :: rest => do
    let value ← operandValue operand
    return value :: (← operandValues rest)

/-- Delivers a result to a variable, or drops it. -/
def storeTo (target : Option UInt8) (value : Word) : CheckedPlay W Unit :=
  match target with
  | some number => writeVariable number value
  | none => pure ()

/-- Delivers the result of an instruction. -/
def store (instruction : Instruction) (value : Word) : CheckedPlay W Unit :=
  storeTo instruction.store value

section

variable {b cost : Nat}

/-- Every variable from 16 on is a global, and lies less than 2^17 bytes from the beginning. -/
theorem globalAddress_eq {m : Type → Type} [Monad m] [LawfulMonad m] [Breaks m] {machine : Machine}
    (h : machine.globals < 0x10000) {number : UInt8} (hnumber : 16 ≤ number.toNat) :
    (globalAddress machine number : m Nat) = pure (Play.globalAddress machine number) := by
  have hlt := number.toNat_lt
  rw [globalAddress, difference_of_le hnumber, pure_bind, product_of_lt (by omega), pure_bind,
    sum_of_lt (by omega), Play.globalAddress]

/-- A global variable lies below 2^17. -/
theorem globalAddress_lt {machine : Machine} (h : machine.globals < 0x10000) (number : UInt8) :
    Play.globalAddress machine number < 0x20000 := by
  have hlt := number.toNat_lt
  unfold Play.globalAddress
  omega

/-- A variable is read with its address in its range. -/
theorem accompanies_readVariable (number : UInt8) :
    Accompanies (Machine.upkeep b cost) (readVariable number : CheckedPlay W Word)
      (Play.readVariable number) := by
  refine .ite (fun _ => accompanies_onStack CheckedStack.follows_pop) fun _ => ?_
  refine .ite (fun _ => accompanies_readStack (CheckedStack.on_localValue number)) fun hnumber => ?_
  refine Accompanies.get.bind fun machine hroomy => ?_
  have hlt := globalAddress_lt hroomy.globals number
  rw [globalAddress_eq hroomy.globals (Nat.not_lt.mp hnumber), pure_bind]
  exact accompanies_read fun _ _ => Memory.readWordAt_eq (by omega)

/-- A variable is written with its address in its range. -/
theorem accompanies_writeVariable (number : UInt8) (value : Word) :
    Accompanies (Machine.upkeep b cost) (writeVariable number value : CheckedPlay W Unit)
      (Play.writeVariable number value) := by
  refine .ite (fun _ => accompanies_onStack (CheckedStack.follows_push value)) fun _ => ?_
  refine .ite (fun _ => accompanies_onStack (CheckedStack.follows_setLocal number value))
    fun hnumber => ?_
  refine Accompanies.get.bind fun machine hroomy => ?_
  have hlt := globalAddress_lt hroomy.globals number
  rw [globalAddress_eq hroomy.globals (Nat.not_lt.mp hnumber), pure_bind]
  exact accompanies_edit ((CheckedEdit.follows_writeWord (by omega) value).imp fun _ _ => trivial)

/-- A named variable is read with its address in its range. -/
theorem accompanies_readNamed (number : UInt8) :
    Accompanies (Machine.upkeep b cost) (readNamed number : CheckedPlay W Word)
      (Play.readNamed number) :=
  .ite (fun _ => accompanies_readStack CheckedStack.on_peek)
    fun _ => accompanies_readVariable number

/-- A named variable is written with its address in its range. -/
theorem accompanies_writeNamed (number : UInt8) (value : Word) :
    Accompanies (Machine.upkeep b cost) (writeNamed number value : CheckedPlay W Unit)
      (Play.writeNamed number value) :=
  .ite (fun _ => accompanies_onStack (CheckedStack.follows_poke value)) fun _ =>
    accompanies_writeVariable number value

/-- An operand is a constant or is read with its address in its range. -/
theorem accompanies_operandValue (operand : Operand) :
    Accompanies (Machine.upkeep b cost) (operandValue operand : CheckedPlay W Word)
      (Play.operandValue operand) := by
  cases operand with
  | large value => exact .pure trivial
  | small value => exact .pure trivial
  | var number => exact accompanies_readVariable number

/-- The values of operands are taken with addresses in their range. -/
theorem accompanies_operandValues (operands : List Operand) :
    Accompanies (Machine.upkeep b cost) (operandValues operands : CheckedPlay W (List Word))
      (Play.operandValues operands) := by
  induction operands with
  | nil => exact .pure trivial
  | cons operand rest ih =>
      exact (accompanies_operandValue operand).bind fun _ _ => ih.bind fun _ _ => .pure trivial

/-- A result is delivered with its address in its range. -/
theorem accompanies_storeTo (target : Option UInt8) (value : Word) :
    Accompanies (Machine.upkeep b cost) (storeTo target value : CheckedPlay W Unit)
      (Play.storeTo target value) := by
  cases target with
  | some number => exact accompanies_writeVariable number value
  | none => exact .pure trivial

/-- The result of an instruction is stored with addresses in their range. -/
theorem accompanies_store (instruction : Instruction) (value : Word) :
    Accompanies (Machine.upkeep b cost) (store instruction value : CheckedPlay W Unit)
      (Play.store instruction value) := accompanies_storeTo _ _

end

/-! ## Calls and branches -/

/-- Enters a routine by its packed address. -/
def enter (routine : Word) (arguments : List Word) (target : Option UInt8)
    (pending : Option PendingRead) : CheckedPlay W Unit := do
  let machine ← get
  let story := machine.memory.story
  let address ← CheckedHosted.compute (story.unpackAt routine story.routineOffset)
  let first ← onStack
    (CheckedStack.call machine.memory address arguments machine.pc target pending)
  setPc first

/-- Enters a routine, or for routine zero returns zero. -/
def call (routine : Word) (arguments : List Word) (target : Option UInt8) : CheckedPlay W Unit :=
  if routine = 0 then storeTo target 0 else enter routine arguments target none

/-- Enters the routine that is run when a read has timed out. -/
def interrupt (routine : Word) (pending : PendingRead) : CheckedPlay W Unit :=
  enter routine [] none (some pending)

/-- Returns from the current routine. -/
def ret (value : Word) : CheckedPlay W Unit := do
  let frame ← onStack CheckedStack.ret
  setPc frame.returnPc
  match frame.pending with
  | some pending => change fun machine => { machine with resume := some (pending, value) }
  | none =>
    let machine ← get
    if machine.memory.version = 6 ∧ machine.stack.depth = 1 then
      change fun machine => { machine with halted := some .quit }
    else storeTo frame.store value

/-- Goes where a taken branch leads. -/
def jump : BranchTarget → CheckedPlay W Unit
  | .returnFalse => ret 0
  | .returnTrue => ret 1
  | .address address => setPc address

/-- Branches if the outcome of a test is the one the instruction asks for. -/
def branch (instruction : Instruction) (outcome : Bool) : CheckedPlay W Unit :=
  match instruction.branch with
  | some branch =>
    if branch.condition = outcome then do
      let target ← branch.targetAt instruction.next
      jump target
    else pure ()
  | none => pure ()

/-- Reports how a save or restore went. -/
def report (instruction : Instruction) (value : Word) : CheckedPlay W Unit :=
  if instruction.store.isSome then store instruction value
  else branch instruction (value != 0)

/-- Object zero is no object: says so, and is false. -/
def isObject (object : Word) (opcode : Opcode) : CheckedPlay W Bool := do
  if object = 0 then
    warn s!"{opcode.title} with object 0"
    return false
  else return true

section

variable {b cost : Nat}

/-- A read that waits for the routine has to be steady. -/
theorem accompanies_enter (routine : Word) (arguments : List Word) (target : Option UInt8)
    (pending : Option PendingRead) (hpending : ∀ read, pending = some read → read.Steady) :
    Accompanies (Machine.upkeep b cost)
      (enter routine arguments target pending : CheckedPlay W Unit)
      (do
        let machine ← get
        let address := machine.memory.story.routineAddress routine
        Play.setPc (← Play.onStack
          (CallStack.call machine.memory address arguments machine.pc target pending))) := by
  refine Accompanies.get.bind fun machine hroomy => ?_
  refine .computed (Story.unpackAt_eq _ routine (Story.routineOffset_lt _)) ?_
  exact (accompanies_onStack
    (CheckedStack.follows_call hroomy.memory _ arguments machine.pc target pending hpending)).bind
      fun first _ => accompanies_setPc first

/-- A routine is called by an address in its range, with the frames counted. -/
theorem accompanies_call (routine : Word) (arguments : List Word) (target : Option UInt8) :
    Accompanies (Machine.upkeep b cost) (call routine arguments target : CheckedPlay W Unit)
      (Play.call routine arguments target) :=
  .ite (fun _ => accompanies_storeTo target 0) fun _ =>
    accompanies_enter routine arguments target none fun _ h => nomatch h

/-- The routine of a read is entered by an address in its range. -/
theorem accompanies_interrupt (routine : Word) {pending : PendingRead} (hpending : pending.Steady) :
    Accompanies (Machine.upkeep b cost) (interrupt routine pending : CheckedPlay W Unit)
      (Play.interrupt routine pending) :=
  accompanies_enter routine [] none (some pending) fun _ h => Option.some.inj h ▸ hpending

/-- The read that a routine leaves its value for is one that waited for it. -/
theorem accompanies_ret (value : Word) :
    Accompanies (Machine.upkeep b cost) (ret value : CheckedPlay W Unit) (Play.ret value) := by
  refine (accompanies_onStack CheckedStack.follows_ret).bind fun frame hframe => ?_
  refine (accompanies_setPc frame.returnPc).bind fun _ _ => ?_
  cases hpending : frame.pending with
  | some pending =>
      refine accompanies_change fun machine hroomy =>
        { hroomy with resume := fun read value h => ?_ }
      obtain ⟨rfl, -⟩ := Prod.mk.inj (Option.some.inj h)
      exact hframe.pending pending hpending
  | none =>
      refine Accompanies.get.bind fun machine _ => .ite (fun _ => ?_) fun _ => ?_
      · exact accompanies_change fun _ hroomy => { hroomy with }
      · exact accompanies_storeTo frame.store value

/-- A branch that is taken returns or jumps. -/
theorem accompanies_jump (target : BranchTarget) :
    Accompanies (Machine.upkeep b cost) (jump target : CheckedPlay W Unit) (Play.jump target) := by
  cases target with
  | returnFalse => exact accompanies_ret 0
  | returnTrue => exact accompanies_ret 1
  | address address => exact accompanies_setPc address

/-- A branch is taken to a place that is an integer in its range. -/
theorem accompanies_branch {instruction : Instruction} (hfits : instruction.Fits) (outcome : Bool) :
    Accompanies (Machine.upkeep b cost) (branch instruction outcome : CheckedPlay W Unit)
      (Play.branch instruction outcome) := by
  unfold branch Play.branch
  cases hbranch : instruction.branch with
  | none => exact .pure trivial
  | some branch =>
      obtain ⟨hlow, hhigh⟩ := hfits.offset branch hbranch
      refine .ite (fun _ => ?_) fun _ => .pure trivial
      rw [Branch.targetAt_eq hfits.next hlow hhigh, pure_bind]
      exact accompanies_jump _

/-- A report is stored or branches. -/
theorem accompanies_report {instruction : Instruction} (hfits : instruction.Fits) (value : Word) :
    Accompanies (Machine.upkeep b cost) (report instruction value : CheckedPlay W Unit)
      (Play.report instruction value) :=
  .ite (fun _ => accompanies_store instruction value) fun _ => accompanies_branch hfits _

/-- Asking whether there is an object computes nothing. -/
theorem accompanies_isObject (object : Word) (opcode : Opcode) :
    Accompanies (Machine.upkeep b cost) (isObject object opcode : CheckedPlay W Bool)
      (Play.isObject object opcode) :=
  .ite (fun _ => (accompanies_warn _).bind fun _ _ => .pure trivial) fun _ => .pure trivial

end

end CheckedPlay

end StoryMachine
