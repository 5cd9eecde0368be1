import Mathlib.Data.List.Infix
import StoryMachine.Proofs.Restoring
import StoryMachine.Proofs.TableCapture

/-!
# Stacks in memory

A story of version 6 can keep stacks of its own in memory.  The word at the beginning of such a
stack says how many of its slots are free, and that word is also the number of the slot that is
taken next: the last slot is taken first.  So the values held stand in the order in which they come
back, from the slot behind the free ones on (`Stacked`).

**One call** does what a stack of limited capacity does.  A push takes the last free slot, if there
is one, and a pull gives back the slot that was taken last (`stacked_call`).  From that comes what
any row of calls does, by induction, as long as no pull finds the stack empty (`on_makeAll`); a
story sees to that by making no more pulls than pushes that went well (`Covered`).
-/

namespace StoryMachine.Table

open Memory

/-! ## A stack of limited capacity -/

/-- A call of a stack. -/
inductive StackCall where
  | push (value : Word)
  | pull
  deriving DecidableEq

/-- What comes back from a call: whether there was room for a value, or a value. -/
inductive StackAnswer where
  | pushed (done : Bool)
  | pulled (value : Word)
  deriving DecidableEq

namespace StackCall

/-- The values that are held after a call, the latest first. -/
def heldAfter (capacity : Nat) (held : List Word) : StackCall → List Word
  | push value => if held.length < capacity then value :: held else held
  | pull => held.tail

/-- What a call gives when some values are held. -/
def answer (capacity : Nat) (held : List Word) : StackCall → StackAnswer
  | push _ => .pushed (held.length < capacity)
  | pull => .pulled (held.headD 0)

/-- What calls give, one after the other. -/
def answers (capacity : Nat) : List Word → List StackCall → List StackAnswer
  | _, [] => []
  | held, call :: rest =>
    call.answer capacity held :: answers capacity (call.heldAfter capacity held) rest

/-- The values that are held after calls, the latest first. -/
def heldAfterAll (capacity : Nat) (held : List Word) (calls : List StackCall) : List Word :=
  calls.foldl (heldAfter capacity) held

/-- That at no point there have been more pulls than values held at first and pushes that went
well. -/
def Covered (capacity : Nat) (held : List Word) (calls : List StackCall) : Prop :=
  ∀ past ∈ calls.inits,
    past.count pull ≤ held.length + (answers capacity held past).count (.pushed true)

instance (capacity : Nat) (held : List Word) (calls : List StackCall) :
    Decidable (Covered capacity held calls) :=
  inferInstanceAs (Decidable (∀ past ∈ calls.inits, _))

variable {capacity : Nat} {held : List Word} {call : StackCall} {calls rest : List StackCall}

/-- A pull that is covered finds a value. -/
theorem Covered.ne_nil (h : Covered capacity held (pull :: rest)) : held ≠ [] := by
  have hfirst : [pull] ∈ (pull :: rest).inits := by
    rw [List.mem_inits]
    exact ⟨rest, rfl⟩
  have hle : 1 ≤ held.length + 0 := h [pull] hfirst
  exact List.ne_nil_of_length_pos hle

/-- A pull takes one value away, and a push that goes well adds one. -/
theorem length_heldAfter (h : call = pull → held ≠ []) :
    (call.heldAfter capacity held).length + (if call == pull then 1 else 0)
      = held.length + if call.answer capacity held == .pushed true then 1 else 0 := by
  cases call with
  | push value => by_cases hroom : held.length < capacity <;> simp [heldAfter, answer, hroom]
  | pull =>
      cases held with
      | nil => exact absurd rfl (h rfl)
      | cons value held => simp [heldAfter, answer]

/-- What is covered goes on being covered. -/
theorem Covered.tail (h : Covered capacity held (call :: rest)) :
    Covered capacity (call.heldAfter capacity held) rest := by
  intro past hpast
  have hmem : call :: past ∈ (call :: rest).inits := by
    rw [List.mem_inits] at hpast ⊢
    exact List.cons_prefix_cons.mpr ⟨rfl, hpast⟩
  have hheld : call = pull → held ≠ [] := by
    rintro rfl
    exact h.ne_nil
  have hlength := @length_heldAfter capacity held call hheld
  have hle := h (call :: past) hmem
  rw [answers, List.count_cons, List.count_cons] at hle
  omega

/-- The first of calls that are covered are covered. -/
theorem Covered.of_append (h : Covered capacity held (calls ++ rest)) :
    Covered capacity held calls := by
  intro past hpast
  rw [List.mem_inits] at hpast
  exact h past ((List.mem_inits _ _).mpr (hpast.trans (List.prefix_append calls rest)))

/-- What is covered stays so after some of the calls. -/
theorem Covered.after (h : Covered capacity held (calls ++ rest)) :
    Covered capacity (heldAfterAll capacity held calls) rest := by
  induction calls generalizing held with
  | nil => exact h
  | cons call calls ih => exact ih h.tail

end StackCall

/-! ## Its table -/

/-- The bytes of a stack: the word with the number of free slots, and the slots. -/
def Within (stack capacity address : Nat) : Prop :=
  stack ≤ address ∧ address < stack + 2 * capacity + 2

/-- That memory has a stack that holds some values, the latest first. -/
structure Stacked (stack capacity : Nat) (held : List Word) (memory : Memory) : Prop where
  free_eq : (memory.wordAt stack).toNat + held.length = capacity
  slot_eq : ∀ i (hi : i < held.length),
    memory.wordAt (stack + 2 * (capacity - held.length + 1 + i)) = held[i]

variable {stack capacity : Nat} {held : List Word} {value free : Word} {memory : Memory}

/-- A stack of free slots holds nothing. -/
theorem stacked_nil (stack : Nat) (memory : Memory) :
    Stacked stack (memory.wordAt stack).toNat [] memory :=
  ⟨rfl, fun _ hi => absurd hi (Nat.not_lt_zero _)⟩

/-- With the number of free slots written anew, the slots hold what they held. -/
theorem sameOff_count (hword : stack + 1 < memory.dynamicCeiling) :
    SameOff (fun address => stack ≤ address ∧ address < stack + 2) memory
      (memory.setWord stack free hword) :=
  sameOff_setWord free hword (by omega) (by omega)

/-- A word within a stack. -/
theorem within_of_word {place : Nat} {after : Memory}
    (h : SameOff (fun address => place ≤ address ∧ address < place + 2) memory after)
    (hlower : stack ≤ place) (hupper : place ≤ stack + 2 * capacity) :
    SameOff (Within stack capacity) memory after := by
  apply h.mono
  intro address haddress
  unfold Within
  omega

/-- **A value in the last free slot**, and one free slot less. -/
theorem Stacked.push (h : Stacked stack capacity held memory) (hfree : held.length < capacity)
    (hslot : stack + 2 * (capacity - held.length) + 1 < memory.dynamicCeiling)
    (hword : stack + 1 < (memory.setWord _ value hslot).dynamicCeiling)
    (hcount : free.toNat + (held.length + 1) = capacity) :
    Stacked stack capacity (value :: held) ((memory.setWord _ value hslot).setWord stack free hword) ∧
      SameOff (Within stack capacity) memory
        ((memory.setWord _ value hslot).setWord stack free hword) := by
  have hfirst : SameOff (fun address => stack + 2 * (capacity - held.length) ≤ address ∧
      address < stack + 2 * (capacity - held.length) + 2) memory (memory.setWord _ value hslot) :=
    sameOff_setWord value hslot (by omega) (by omega)
  have hlast := @sameOff_count stack free _ hword
  refine ⟨⟨?_, fun i hi => ?_⟩, ?_⟩
  · rw [wordAt_setWord]
    exact hcount
  · rw [List.length_cons] at hi ⊢
    rw [hlast.wordAt_eq (by omega) (by omega)]
    cases i with
    | zero =>
        rw [show capacity - (held.length + 1) + 1 + 0 = capacity - held.length by omega]
        exact wordAt_setWord value hslot
    | succ i =>
        rw [hfirst.wordAt_eq (by omega) (by omega),
          show capacity - (held.length + 1) + 1 + (i + 1) = capacity - held.length + 1 + i by omega]
        exact h.slot_eq i (Nat.lt_of_succ_lt_succ hi)
  · have hslotWithin : SameOff (Within stack capacity) memory (memory.setWord _ value hslot) :=
      within_of_word hfirst (by omega) (by omega)
    exact hslotWithin.trans (within_of_word hlast (by omega) (by omega))

/-- **The value of the slot that was taken last**, and one free slot more. -/
theorem Stacked.pull (h : Stacked stack capacity (value :: held) memory)
    (hword : stack + 1 < memory.dynamicCeiling) (hcount : free.toNat + held.length = capacity) :
    memory.wordAt (stack + 2 * free.toNat) = value ∧
      Stacked stack capacity held (memory.setWord stack free hword) ∧
      SameOff (Within stack capacity) memory (memory.setWord stack free hword) := by
  have hheld := h.free_eq
  rw [List.length_cons] at hheld
  have hlast := @sameOff_count stack free _ hword
  refine ⟨?_, ⟨?_, fun i hi => ?_⟩, within_of_word hlast (by omega) (by omega)⟩
  · have hslot := h.slot_eq 0 (Nat.zero_lt_succ _)
    rw [List.length_cons, show capacity - (held.length + 1) + 1 + 0 = free.toNat by omega] at hslot
    exact hslot
  · rw [wordAt_setWord]
    exact hcount
  · have hslot := h.slot_eq (i + 1) (Nat.succ_lt_succ hi)
    rw [List.length_cons,
      show capacity - (held.length + 1) + 1 + (i + 1) = capacity - held.length + 1 + i by omega]
      at hslot
    rw [hlast.wordAt_eq (by omega) (by omega)]
    exact hslot

/-! ## One call -/

namespace StackCall

/-- Makes a call of a stack in memory. -/
def make (stack : Nat) : StackCall → Edit StackAnswer
  | push value => return .pushed (← pushOnto stack value)
  | pull => return .pulled (← pullFrom stack)

/-- Makes calls one after the other. -/
def makeAll (stack : Nat) : List StackCall → Edit (List StackAnswer)
  | [] => return []
  | call :: rest => do
    let answer ← call.make stack
    let answers ← makeAll stack rest
    return answer :: answers

end StackCall

variable {draft : Draft}

/-- A word of dynamic memory can be read. -/
theorem on_look_wordAt {address : Nat} (h : address + 1 < draft.memory.dynamicCeiling) :
    Work.on (Edit.look (·.readWord address)) draft = (.ok (draft.memory.wordAt address), draft) := by
  have hsize := draft.memory.ceiling_le_size
  have hread : draft.memory.readWord address = .ok (draft.memory.wordAt address) :=
    if_pos (by omega)
  rw [Edit.on_look, hread]

/-- There is room: the value goes into the last free slot. -/
theorem on_pushOnto_of_room (hroom : stack + 2 * capacity + 1 < draft.memory.dynamicCeiling)
    (h : Stacked stack capacity held draft.memory) (hfree : held.length < capacity) (value : Word) :
    ∃ after, Work.on (pushOnto stack value) draft = (.ok true, { draft with memory := after }) ∧
      Stacked stack capacity (value :: held) after ∧
      SameOff (Within stack capacity) draft.memory after := by
  have hcapacity := h.free_eq
  have hplace : (draft.memory.wordAt stack).toNat = capacity - held.length := by omega
  have hslot : stack + 2 * (capacity - held.length) + 1 < draft.memory.dynamicCeiling := by omega
  have hword : stack + 1 < (draft.memory.setWord _ value hslot).dynamicCeiling := by
    show stack + 1 < draft.memory.dynamicCeiling
    omega
  have hne : draft.memory.wordAt stack ≠ 0 := by
    intro hzero
    rw [hzero] at hplace
    have hnone : 0 = capacity - held.length := hplace
    omega
  have hless : (draft.memory.wordAt stack - 1).toNat + (held.length + 1) = capacity := by
    have hone : 1 ≤ draft.memory.wordAt stack := by
      rw [UInt16.le_iff_toNat_le, hplace]
      show 1 ≤ capacity - held.length
      omega
    rw [UInt16.toNat_sub_of_le _ _ hone, hplace]
    show capacity - held.length - 1 + (held.length + 1) = capacity
    omega
  obtain ⟨hstacked, hsame⟩ := h.push hfree hslot hword hless
  refine ⟨_, ?_, hstacked, hsame⟩
  unfold pushOnto
  rw [Work.on_bind_of_ok (on_look_wordAt (by omega)), if_neg hne, hplace,
    Work.on_bind_of_ok (Edit.on_writeWord_of_lt hslot value)]
  exact Work.on_bind_of_ok
    (@Edit.on_writeWord_of_lt { draft with memory := draft.memory.setWord _ value hslot } stack hword _)

/-- There is none: nothing is done. -/
theorem on_pushOnto_of_full (hroom : stack + 2 * capacity + 1 < draft.memory.dynamicCeiling)
    (h : Stacked stack capacity held draft.memory) (hfull : ¬held.length < capacity) (value : Word) :
    Work.on (pushOnto stack value) draft = (.ok false, draft) := by
  have hcapacity := h.free_eq
  have hzero : draft.memory.wordAt stack = 0 := by
    apply UInt16.toNat_inj.mp
    show (draft.memory.wordAt stack).toNat = 0
    omega
  unfold pushOnto
  rw [Work.on_bind_of_ok (on_look_wordAt (by omega)), if_pos hzero]
  rfl

/-- A value is held: it comes back. -/
theorem on_pullFrom (hroom : stack + 2 * capacity + 1 < draft.memory.dynamicCeiling)
    (h : Stacked stack capacity (value :: held) draft.memory) :
    ∃ after, Work.on (pullFrom stack) draft = (.ok value, { draft with memory := after }) ∧
      Stacked stack capacity held after ∧ SameOff (Within stack capacity) draft.memory after := by
  have hceiling := draft.memory.dynamicCeiling_lt
  have hcapacity := h.free_eq
  rw [List.length_cons] at hcapacity
  have hword : stack + 1 < draft.memory.dynamicCeiling := by omega
  have hmore : (draft.memory.wordAt stack + 1).toNat + held.length = capacity := by
    rw [UInt16.toNat_add]
    show ((draft.memory.wordAt stack).toNat + 1) % 65536 + held.length = capacity
    omega
  obtain ⟨hvalue, hstacked, hsame⟩ := h.pull hword hmore
  refine ⟨_, ?_, hstacked, hsame⟩
  unfold pullFrom
  rw [Work.on_bind_of_ok (on_look_wordAt hword)]
  dsimp only
  rw [Work.on_bind_of_ok (on_look_wordAt (by omega)), hvalue,
    Work.on_bind_of_ok (Edit.on_writeWord_of_lt hword _)]
  rfl

namespace StackCall

variable {call : StackCall} {calls rest : List StackCall}

/-- **One call** of a stack in memory does what a stack of its capacity does, and touches no other
bytes.  A push that finds no room touches none at all. -/
theorem stacked_call (hroom : stack + 2 * capacity + 1 < draft.memory.dynamicCeiling)
    (h : Stacked stack capacity held draft.memory) (hheld : call = pull → held ≠ []) :
    ∃ after, Work.on (call.make stack) draft
        = (.ok (call.answer capacity held), { draft with memory := after }) ∧
      Stacked stack capacity (call.heldAfter capacity held) after ∧
      SameOff (Within stack capacity) draft.memory after ∧
      (call.answer capacity held = .pushed false → after = draft.memory) := by
  cases call with
  | push value =>
      by_cases hfree : held.length < capacity
      · obtain ⟨after, hpush, hstacked, hsame⟩ := on_pushOnto_of_room hroom h hfree value
        rw [answer, heldAfter, decide_eq_true hfree, if_pos hfree]
        exact ⟨after, Work.on_bind_of_ok hpush, hstacked, hsame, fun hrefused => nomatch hrefused⟩
      · have hpush := on_pushOnto_of_full hroom h hfree value
        rw [answer, heldAfter, decide_eq_false hfree, if_neg hfree]
        exact ⟨draft.memory, Work.on_bind_of_ok hpush, h, .refl _ _, fun _ => rfl⟩
  | pull =>
      cases held with
      | nil => exact absurd rfl (hheld rfl)
      | cons value held =>
          obtain ⟨after, hpull, hstacked, hsame⟩ := on_pullFrom hroom h
          exact ⟨after, Work.on_bind_of_ok hpull, hstacked, hsame, fun hrefused => nomatch hrefused⟩

/-! ## All calls -/

/-- **All calls**, as long as they are covered. -/
theorem on_makeAll (hroom : stack + 2 * capacity + 1 < draft.memory.dynamicCeiling)
    (h : Stacked stack capacity held draft.memory) (hcovered : Covered capacity held calls) :
    ∃ after, Work.on (makeAll stack calls) draft
        = (.ok (answers capacity held calls), { draft with memory := after }) ∧
      Stacked stack capacity (heldAfterAll capacity held calls) after ∧
      SameOff (Within stack capacity) draft.memory after := by
  induction calls generalizing held draft with
  | nil => exact ⟨draft.memory, rfl, h, .refl _ _⟩
  | cons call rest ih =>
      have hheld : call = pull → held ≠ [] := by
        rintro rfl
        exact hcovered.ne_nil
      obtain ⟨middle, hcall, hstacked, hsame, -⟩ := stacked_call hroom h hheld
      have hroom' : stack + 2 * capacity + 1 < middle.dynamicCeiling := by
        rw [hsame.dynamicCeiling_eq]
        exact hroom
      obtain ⟨after, hrest, hheldBy, hsame'⟩ :=
        @ih _ { draft with memory := middle } hroom' hstacked hcovered.tail
      refine ⟨after, ?_, hheldBy, hsame.trans hsame'⟩
      rw [makeAll, Work.on_bind_of_ok hcall, Work.on_bind_of_ok hrest]
      rfl

/-- The opcode of the instruction that makes a call. -/
def opcode : StackCall → Opcode
  | push _ => .pushStack
  | pull => .pull

/-- The operands of that instruction. -/
def operands (stack : Word) : StackCall → List Word
  | push value => [value, stack]
  | pull => [stack]

/-- What the instruction does with the answer: it branches on whether there was room, and stores a
value. -/
def conclude {m : Type → Type} [Monad m] (instruction : Instruction) : StackAnswer → Play m Unit
  | .pushed done => Play.branch instruction done
  | .pulled value => Play.store instruction value

variable {W : Type} {machine : Machine} {instruction : Instruction} {answer : StackAnswer}
  {after : Memory}

/-- The instruction makes the call and concludes with the answer. -/
theorem play_perform (host : Host (StateM W)) (w : W) {stack : Word}
    (hversion : machine.memory.version = 6) (hopcode : instruction.opcode = call.opcode)
    (hcall : Work.on (call.make stack.toNat) { memory := machine.memory }
      = (.ok answer, { memory := after })) :
    machine.play host (Play.perform instruction (call.operands stack)) w
      = { machine with memory := after }.play host (conclude instruction answer) w := by
  rw [Play.perform, Machine.play_bind_of_ok (Machine.play_get machine host w), hopcode]
  cases call with
  | push value =>
      obtain ⟨done, draft, hpush, hdone⟩ := Work.on_bind_ok hcall
      cases hdone
      exact Machine.play_bind_of_ok (Machine.play_edit_of_ok hpush)
  | pull =>
      obtain ⟨value, draft, hpull, hvalue⟩ := Work.on_bind_ok hcall
      cases hvalue
      show machine.play host (Play.pull instruction [stack]) w = _
      rw [Play.pull, Machine.play_bind_of_ok (Machine.play_view machine host w _), if_pos hversion]
      exact Machine.play_bind_of_ok (Machine.play_edit_of_ok hpull)

/-- **A stack in memory is a stack of limited capacity.**  The word at its beginning says how many
slots are free, which are all of them, and the stack lies in dynamic memory.  Then any pushes and
pulls go well, as long as there never are more pulls than pushes that went well, and answer as they
should: a push goes well exactly if fewer values are held than there are slots, and a pull gives
the latest value that is held.  At every point the word at the beginning and the values held make
up the capacity, and no byte outside of the stack is touched; a push that is refused touches none.
The instructions that push and pull make these calls. -/
theorem stack_limited {stack : Word} {calls : List StackCall}
    (hfree : (memory.wordAt stack.toNat).toNat = capacity)
    (hroom : stack.toNat + 2 * capacity + 1 < memory.dynamicCeiling)
    (hcovered : Covered capacity [] calls) :
    (∃ after, (makeAll stack.toNat calls).run memory
        = (.ok (answers capacity [] calls), { memory := after }) ∧
      Stacked stack.toNat capacity (heldAfterAll capacity [] calls) after ∧
      SameOff (Within stack.toNat capacity) memory after) ∧
    ∀ past call rest, calls = past ++ call :: rest → ∃ before after,
      (makeAll stack.toNat past).run memory
        = (.ok (answers capacity [] past), { memory := before }) ∧
      Stacked stack.toNat capacity (heldAfterAll capacity [] past) before ∧
      (call = pull → heldAfterAll capacity [] past ≠ []) ∧
      (call.make stack.toNat).run before
        = (.ok (call.answer capacity (heldAfterAll capacity [] past)), { memory := after }) ∧
      Stacked stack.toNat capacity (heldAfterAll capacity [] (past ++ [call])) after ∧
      SameOff (Within stack.toNat capacity) before after ∧
      (call.answer capacity (heldAfterAll capacity [] past) = .pushed false → after = before) ∧
      ∀ {W : Type} (host : Host (StateM W)) (w : W) (machine : Machine)
        (instruction : Instruction), machine.memory = before → before.version = 6 →
        instruction.opcode = call.opcode →
        machine.play host (Play.perform instruction (call.operands stack)) w
          = { machine with memory := after }.play host
            (conclude instruction (call.answer capacity (heldAfterAll capacity [] past))) w := by
  have hnone : Stacked stack.toNat capacity [] memory := hfree ▸ stacked_nil stack.toNat memory
  refine ⟨@on_makeAll _ _ _ { memory } _ hroom hnone hcovered, ?_⟩
  rintro past call rest rfl
  obtain ⟨before, hpast, hstacked, hsame⟩ :=
    @on_makeAll _ _ _ { memory } _ hroom hnone hcovered.of_append
  have hroom' : stack.toNat + 2 * capacity + 1 < before.dynamicCeiling := by
    rw [hsame.dynamicCeiling_eq]
    exact hroom
  have hheld : call = pull → heldAfterAll capacity [] past ≠ [] := by
    rintro rfl
    exact hcovered.after.ne_nil
  obtain ⟨after, hcall, hstacked', hsame', hrefused⟩ :=
    @stacked_call _ _ _ { memory := before } call hroom' hstacked hheld
  have hheldAfter : heldAfterAll capacity [] (past ++ [call])
      = call.heldAfter capacity (heldAfterAll capacity [] past) := by
    rw [heldAfterAll, List.foldl_concat]
    rfl
  refine ⟨before, after, hpast, hstacked, hheld, hcall, ?_, hsame', hrefused, ?_⟩
  · rw [hheldAfter]
    exact hstacked'
  · rintro W host w machine instruction rfl hversion hopcode
    exact play_perform host w hversion hopcode hcall

/-- A version 6 memory that has a stack of two slots behind the header. -/
def shelf : Memory :=
  let header : List UInt8 := [6, 0, 0, 0, 0, 0, 0, 0, 0, 0, 0, 0, 0, 0, 0, 96]
  let image := header ++ List.replicate 48 0 ++ [0, 2] ++ List.replicate 30 0
  ((Memory.ofImage image.toArray).toOption).get rfl

/-- One push too many, and all values pulled. -/
def juggled : List StackCall :=
  [push 7, push 8, push 9, pull, push 10, pull, pull]

theorem stack_limited_juggled :
    (shelf.wordAt (64 : Word).toNat).toNat = 2 ∧
      (64 : Word).toNat + 2 * 2 + 1 < shelf.dynamicCeiling ∧ Covered 2 [] juggled ∧
      ∃ after, (makeAll 64 juggled).run shelf = (.ok [.pushed true, .pushed true, .pushed false,
          .pulled 8, .pushed true, .pulled 10, .pulled 7], { memory := after }) ∧
        (after.wordAt 64).toNat = 2 := by
  have hfree : (shelf.wordAt (64 : Word).toNat).toNat = 2 := by decide +kernel
  have hroom : (64 : Word).toNat + 2 * 2 + 1 < shelf.dynamicCeiling := by decide +kernel
  have hcovered : Covered 2 [] juggled := by decide
  obtain ⟨⟨after, hcalls, hstacked, -⟩, -⟩ := stack_limited hfree hroom hcovered
  exact ⟨hfree, hroom, hcovered, after, hcalls, hstacked.free_eq⟩

end StackCall

end StoryMachine.Table
