import StoryMachine.Proofs.Reading

/-!
# Giving up a read

When the routine of a read returns anything but zero, the read is given up: its text
buffer is emptied and its result is zero.  Both are writes like others, and can fail like
others.  `CanAbandon` says when they do not, `abandoned` what becomes of the machine then;
where they fail, the fault is fatal (`play_resumeRead_of_can`, `play_resumeRead_of_not`).
The host is not asked for anything in either case, only told of it (`told`).

An abandoned read leaves a text buffer that reads as empty, and no other byte of memory is
changed but those of its result (`GivenUp`, `play_step_of_abandoned`).
-/

namespace StoryMachine

variable {W : Type}

namespace Machine

variable (machine : Machine)

/-- The machine with the text buffer of a read empty: its length is zero, or its first character
is the zero that ends it. -/
def emptied : PendingRead → Machine
  | .line read =>
    if h : read.text + 1 < machine.memory.dynamicCeiling then
      { machine with memory := machine.memory.set (read.text + 1) 0 h }
    else machine
  | .char _ => machine

/-- Whether a read can be given up: its text buffer can be emptied, and its result stored. -/
def CanAbandon (pending : PendingRead) : Prop :=
  (∀ read, pending = .line read → read.text + 1 < machine.memory.dynamicCeiling) ∧
    ∀ number, pending.store = some number → machine.CanAssign number

/-- The machine with a read given up: the text buffer is empty and the result is zero. -/
def abandoned (pending : PendingRead) : Machine :=
  match pending.store with
  | some number => (machine.emptied pending).assign number 0
  | none => machine.emptied pending

/-- The bytes of the text buffer and of the result that are written when a read is given up. -/
def AbandonedByte (pending : PendingRead) (address : Nat) : Prop :=
  (∃ read, pending = .line read ∧ address = read.text + 1) ∨
    ∃ number, pending.store = some number ∧ 16 ≤ number ∧
      (address = Play.globalAddress machine number ∨
        address = Play.globalAddress machine number + 1)

variable {machine}

/-! ## What is written -/

/-- Emptying a text buffer changes memory only. -/
theorem exists_emptied (pending : PendingRead) :
    ∃ memory, machine.emptied pending = { machine with memory } := by
  unfold emptied
  split
  · split
    · exact ⟨_, rfl⟩
    · exact ⟨machine.memory, rfl⟩
  · exact ⟨machine.memory, rfl⟩

/-- The variables that can be written are the same with an empty text buffer. -/
theorem canAssign_emptied (pending : PendingRead) (number : UInt8) :
    (machine.emptied pending).CanAssign number ↔ machine.CanAssign number := by
  unfold emptied
  split
  · split <;> rfl
  · rfl

/-- Writing a variable changes no memory but that of a global. -/
theorem sameOff_assign {touched : Nat → Prop} {number : UInt8} (value : Word)
    (htouched : 16 ≤ number → touched (Play.globalAddress machine number) ∧
      touched (Play.globalAddress machine number + 1)) :
    Memory.SameOff touched machine.memory (machine.assign number value).memory := by
  unfold assign
  split
  case isTrue => exact .refl touched machine.memory
  split
  case isTrue => exact .refl touched machine.memory
  case isFalse hglobal =>
    obtain ⟨hfirst, hsecond⟩ := htouched (UInt8.not_lt.mp hglobal)
    split
    case isTrue h => exact Memory.sameOff_setWord value h hfirst hsecond
    case isFalse => exact .refl touched machine.memory

/-- Writing zero to a variable leaves a byte that is zero. -/
theorem byteAt_assign_zero (number : UInt8) {address : Nat}
    (h : machine.memory.byteAt address = 0) :
    (machine.assign number 0).memory.byteAt address = 0 := by
  unfold assign
  split
  case isTrue => exact h
  split
  case isTrue => exact h
  split
  case isFalse => exact h
  case isTrue hfit =>
    have hset {memory : Memory} {place : Nat} (hplace : place < memory.dynamicCeiling)
        (hzero : memory.byteAt address = 0) : (memory.set place 0 hplace).byteAt address = 0 := by
      by_cases heq : address = place
      · subst heq
        exact memory.byteAt_set_self address 0 hplace
      · exact (memory.byteAt_set_of_ne place address 0 hplace heq).trans hzero
    have hfirst := hset (Nat.lt_of_succ_lt hfit) h
    exact @hset (machine.memory.set _ 0 (Nat.lt_of_succ_lt hfit)) _ hfit hfirst

/-- The text buffer of a line is empty where its length is zero. -/
theorem byteAt_emptied {read : LineRead} (h : read.text + 1 < machine.memory.dynamicCeiling) :
    (machine.emptied (.line read)).memory.byteAt (read.text + 1) = 0 := by
  rw [emptied, dif_pos h]
  exact machine.memory.byteAt_set_self _ _ h

/-- Nothing but the text buffer and the result is changed. -/
theorem sameOff_abandoned (pending : PendingRead) :
    Memory.SameOff (machine.AbandonedByte pending) machine.memory
      (machine.abandoned pending).memory := by
  have hemptied : Memory.SameOff (machine.AbandonedByte pending) machine.memory
      (machine.emptied pending).memory := by
    unfold emptied
    split
    · split
      case isTrue h => exact Memory.sameOff_set 0 h (.inl ⟨_, rfl, rfl⟩)
      case isFalse => exact .refl _ _
    · exact .refl _ _
  have hglobal (number : UInt8) :
      Play.globalAddress (machine.emptied pending) number = Play.globalAddress machine number := by
    obtain ⟨memory, hkept⟩ := machine.exists_emptied pending
    rw [hkept]
    rfl
  unfold abandoned
  split
  case h_1 number hstore =>
    refine hemptied.trans (sameOff_assign 0 fun hnumber => ?_)
    rw [hglobal]
    exact ⟨.inr ⟨number, hstore, hnumber, .inl rfl⟩, .inr ⟨number, hstore, hnumber, .inr rfl⟩⟩
  case h_2 => exact hemptied

/-- Writing a variable changes memory and the stack only. -/
theorem exists_assign (number : UInt8) (value : Word) :
    ∃ memory stack, machine.assign number value = { machine with memory, stack } := by
  unfold assign
  split
  · exact ⟨machine.memory, _, rfl⟩
  · split
    · exact ⟨machine.memory, _, rfl⟩
    · split
      · exact ⟨_, machine.stack, rfl⟩
      · exact ⟨machine.memory, machine.stack, rfl⟩

/-- Nothing but memory and the stack is changed. -/
theorem exists_abandoned (pending : PendingRead) :
    ∃ memory stack, machine.abandoned pending = { machine with memory, stack } := by
  obtain ⟨memory, hemptied⟩ := machine.exists_emptied pending
  unfold abandoned
  rw [hemptied]
  split
  case h_1 number _ =>
    obtain ⟨after, stack, hassign⟩ := @exists_assign { machine with memory } number 0
    exact ⟨after, stack, hassign⟩
  case h_2 => exact ⟨memory, machine.stack, rfl⟩

/-- **An abandoned line read leaves an empty text buffer.** -/
theorem readText_abandoned {read : LineRead} (h : machine.CanAbandon (.line read)) :
    TextBuffer.readText (machine.abandoned (.line read)).memory read.text = .ok [] := by
  have hfit : read.text + 1 < machine.memory.dynamicCeiling := h.1 read rfl
  obtain ⟨hstory, -⟩ := machine.sameOff_abandoned (.line read)
  have hzero : (machine.abandoned (.line read)).memory.byteAt (read.text + 1) = 0 := by
    unfold abandoned
    split
    · exact byteAt_assign_zero _ (byteAt_emptied hfit)
    · exact byteAt_emptied hfit
  generalize (machine.abandoned (.line read)).memory = memory at hstory hzero
  have hsize : read.text + 1 < memory.size := by
    refine Nat.lt_of_lt_of_le hfit ?_
    rw [Memory.dynamicCeiling, ← hstory]
    exact memory.ceiling_le_size
  have hfirst : memory.readByte read.text = .ok (memory.byteAt read.text) :=
    if_pos (Nat.lt_of_succ_lt hsize)
  have hsecond : memory.readByte (read.text + 1) = .ok 0 := by
    rw [Memory.readByte, if_pos hsize, hzero]
  unfold TextBuffer.readText TextBuffer.capacity
  rw [hfirst]
  by_cases hold : memory.version ≤ 4
  · simp only [bind, Except.bind, pure, Except.pure, if_pos hold]
    generalize (memory.byteAt read.text).toNat - 1 = room
    cases room with
    | zero => rfl
    | succ left =>
        unfold TextBuffer.readUntilZero
        rw [hsecond]
        rfl
  · simp only [bind, Except.bind, pure, Except.pure, if_neg hold, hsecond]
    rw [show min (0 : UInt8).toNat (memory.byteAt read.text).toNat = 0 from Nat.zero_min _]
    rfl

end Machine

namespace Play

open Machine

/-! ## Giving up -/

/-- What a host is told of a read that is given up. -/
def told (host : Host (StateM W)) (pending : PendingRead) (w : W) : W :=
  match pending with
  | .line _ => (host.note (.remark "line read abandoned by interrupt routine") w).2
  | .char _ => w

/-- A host is told the same of a read whatever was typed. -/
@[simp] theorem told_retyped (host : Host (StateM W)) (typed : String) (pending : PendingRead)
    (w : W) : told host (pending.retyped typed) w = told host pending w := by
  cases pending <;> rfl

variable {host : Host (StateM W)} {machine : Machine}

/-- Writing no text is writing one zero. -/
theorem on_writeText_nil (address : Nat) (draft : Draft) :
    Work.on (TextBuffer.writeText address []) draft
      = Work.on (Edit.writeByte (address + 1) 0) draft := by
  unfold TextBuffer.writeText
  rw [Work.on_bind_of_ok (Edit.on_view draft _)]
  by_cases hold : draft.memory.version ≤ 4
  · rw [if_pos hold]
    rfl
  · rw [if_neg hold]
    rfl

/-- A text buffer in dynamic memory is emptied. -/
theorem play_empty_of_lt {read : LineRead} (h : read.text + 1 < machine.memory.dynamicCeiling)
    (w : W) :
    machine.play host (edit (TextBuffer.writeText read.text [])) w
      = ((.ok (), machine.emptied (.line read)), w) := by
  rw [play_edit, Edit.run_eq_on, on_writeText_nil,
    @Edit.on_writeByte_of_lt { memory := machine.memory } _ h, emptied, dif_pos h]
  rfl

/-- A text buffer that is not in dynamic memory cannot be emptied. -/
theorem play_empty_of_le {read : LineRead} (h : machine.memory.dynamicCeiling ≤ read.text + 1)
    (w : W) :
    machine.play host (edit (TextBuffer.writeText read.text [])) w
      = ((.error (machine.memory.writeFault (read.text + 1)), machine), w) := by
  rw [play_edit, Edit.run_eq_on, on_writeText_nil,
    @Edit.on_writeByte_of_le { memory := machine.memory } _ h]
  rfl

/-- A read that can be given up stores its result once its buffer is empty. -/
theorem play_storeTo_emptied {pending : PendingRead} (h : machine.CanAbandon pending) (w : W) :
    (machine.emptied pending).play host (storeTo pending.store 0) w
      = ((.ok (), machine.abandoned pending), w) := by
  unfold abandoned
  cases hstore : pending.store with
  | none => rfl
  | some number =>
      exact play_writeVariable_of_can host _ w 0 ((canAssign_emptied _ _).mpr (h.2 number hstore))

/-- **A read is given up when its routine has returned anything but zero**: its text buffer is
emptied and its result is zero, and the host is only told. -/
theorem play_resumeRead_of_can {pending : PendingRead} {value : Word} (hvalue : value ≠ 0)
    (h : machine.CanAbandon pending) (w : W) :
    machine.play host (resumeRead value pending) w
      = ((.ok (), machine.abandoned pending), told host pending w) := by
  cases pending with
  | line read =>
      rw [resumeRead, if_neg hvalue, play_bind_of_ok (play_note machine host w _),
        play_bind_of_ok (play_empty_of_lt (h.1 read rfl) _)]
      exact play_storeTo_emptied h _
  | char read =>
      rw [resumeRead, if_neg hvalue]
      exact play_storeTo_emptied h w

/-- Where one of the two writes fails, the fault is fatal. -/
theorem play_resumeRead_of_not {pending : PendingRead} {value : Word} (hvalue : value ≠ 0)
    (h : ¬machine.CanAbandon pending) (w : W) :
    ∃ fault after, machine.play host (resumeRead value pending) w
      = ((.error fault, after), told host pending w) ∧ fault.isFatal = true := by
  have hstored (hfit : ∀ read, pending = .line read → read.text + 1 < machine.memory.dynamicCeiling)
      (v : W) : ∃ fault after, (machine.emptied pending).play host (storeTo pending.store 0) v
        = ((.error fault, after), v) ∧ fault.isFatal = true := by
    obtain ⟨number, hstore, hnot⟩ : ∃ number, pending.store = some number ∧
        ¬machine.CanAssign number := by
      by_contra hall
      push Not at hall
      exact h ⟨hfit, hall⟩
    rw [hstore]
    obtain ⟨fault, stack, hplay, hfatal, -⟩ := play_writeVariable_of_not host _ v 0
      ((canAssign_emptied pending number).not.mpr hnot)
    exact ⟨fault, _, hplay, hfatal⟩
  cases pending with
  | line read =>
      rw [resumeRead, if_neg hvalue, play_bind_of_ok (play_note machine host w _)]
      by_cases hfit : read.text + 1 < machine.memory.dynamicCeiling
      · rw [play_bind_of_ok (play_empty_of_lt hfit _)]
        exact hstored (fun _ heq => PendingRead.line.inj heq ▸ hfit) _
      · rw [play_bind_of_error (play_empty_of_le (Nat.not_lt.mp hfit) _)]
        exact ⟨_, _, rfl, Edit.isFatal_writeFault _ _⟩
  | char read =>
      rw [resumeRead, if_neg hvalue]
      apply hstored _ w
      intro read heq
      cases heq

/-- What is left when a read has been given up. -/
structure GivenUp (pending : PendingRead) (waiting after : Machine) : Prop where
  after_eq : after = Machine.abandoned { waiting with resume := none } pending
  text_empty : ∀ read, pending = .line read →
    TextBuffer.readText after.memory read.text = .ok []
  memory_same : Memory.SameOff (waiting.AbandonedByte pending) waiting.memory after.memory
  resume_eq : after.resume = none
  pc_eq : after.pc = waiting.pc

/-- **Giving up takes one step**, in which the host is only told, and which fails for good where
the text buffer or the result cannot be written. -/
theorem play_step_of_abandoned {pending : PendingRead} {value : Word}
    (hresume : machine.resume = some (pending, value)) (hvalue : value ≠ 0) (w : W) :
    (machine.CanAbandon pending → ∃ after,
        machine.play host step w = ((.ok (), after), told host pending w) ∧
          GivenUp pending machine after) ∧
      (¬machine.CanAbandon pending → ∃ fault after,
        machine.play host step w = ((.error fault, after), told host pending w) ∧
          fault.isFatal = true) := by
  rw [play_step_of_resume hresume]
  constructor
  · intro h
    refine ⟨_, @play_resumeRead_of_can W host { machine with resume := none } pending value hvalue
      h w, rfl, ?_, ?_, ?_, ?_⟩
    · rintro read rfl
      exact @readText_abandoned { machine with resume := none } read h
    · exact @sameOff_abandoned { machine with resume := none } pending
    · obtain ⟨memory, stack, heq⟩ := @exists_abandoned { machine with resume := none } pending
      rw [heq]
    · obtain ⟨memory, stack, heq⟩ := @exists_abandoned { machine with resume := none } pending
      rw [heq]
  · intro h
    exact @play_resumeRead_of_not W host { machine with resume := none } pending value hvalue h w

end Play

end StoryMachine
