import StoryMachine.Proofs.Reachability

/-!
# Going back to what was captured

A saving instruction captures memory and the stack when its operands are taken and its
ending is still to come.  Later, a machine that plays the same game goes back to the
snapshot: it finds the ending again, because setting up the header leaves the bytes of
the instruction alone (`Ending.read_congr`), and it can deliver a result through it, because
the saving instruction could (`Alike.canConclude`).

The main statement is `play_applySnapshot_capture`: going back succeeds, and leaves the
captured stack and the captured memory, with its header set up, after which the result 2
is delivered.
-/

namespace StoryMachine

variable {W : Type}

namespace Memory

variable {memory now : Memory}

/-- Memory of one story with the same bytes is the same. -/
theorem ext_bytes (hstory : now.story = memory.story) (hbytes : now.bytes = memory.bytes) :
    now = memory := by
  cases now
  cases memory
  simp only at hstory hbytes
  subst hstory hbytes
  rfl

/-- Dynamic memory is all that memories of one story differ in.  Above it both are the story's. -/
theorem setDynamic_dynamic (hstory : now.story = memory.story) :
    now.setDynamic memory.dynamic = .ok memory := by
  have hceiling : now.dynamicCeiling = memory.dynamicCeiling := by
    rw [dynamicCeiling, dynamicCeiling, hstory]
  have hlength : memory.dynamic.length = now.dynamicCeiling :=
    (Snapshot.length_dynamic memory).trans hceiling.symm
  have hbytes : (now.withDynamic memory.dynamic hlength).bytes = memory.bytes := by
    apply Array.ext_getElem?
    intro i
    by_cases hi : i < memory.dynamicCeiling
    · have hlt : i < memory.dynamic.toArray.size := by
        rw [List.size_toArray, Snapshot.length_dynamic]
        exact hi
      simp only [withDynamic]
      rw [Array.getElem?_append_left hlt]
      simp [dynamic, hi]
    · have hi := Nat.not_lt.mp hi
      rw [memory.static_eq i hi, (now.withDynamic memory.dynamic hlength).static_eq i ?_]
      · show now.story.image[i]? = _
        rw [hstory]
      · exact Nat.le_trans (Nat.le_of_eq hceiling) hi
  rw [setDynamic, dif_pos hlength,
    @ext_bytes memory (now.withDynamic memory.dynamic hlength) hstory hbytes]

end Memory

namespace Machine

/-- Machines that will do the same with a result, on memories that are related. -/
structure Alike (R : Memory → Memory → Prop) (machine other : Machine) : Prop where
  memory_rel : R machine.memory other.memory
  story_eq : other.memory.story = machine.memory.story
  globals_eq : other.globals = machine.globals
  stack_eq : other.stack = machine.stack
  pc_eq : other.pc = machine.pc

/-- Whether a relation on memories outlives writing the same word to both. -/
def Stable (R : Memory → Memory → Prop) : Prop :=
  ∀ {memory other : Memory} {address address' : Nat} (value : Word)
    (h : address + 1 < memory.dynamicCeiling) (h' : address' + 1 < other.dynamicCeiling),
    address' = address → R memory other →
    R (memory.setWord address value h) (other.setWord address' value h')

namespace Alike

variable {R : Memory → Memory → Prop} {machine other : Machine}

/-- Dynamic memory of machines that are alike ends at one place. -/
theorem ceiling_eq (h : Alike R machine other) :
    other.memory.dynamicCeiling = machine.memory.dynamicCeiling := by
  rw [Memory.dynamicCeiling, Memory.dynamicCeiling, h.story_eq]

/-- Machines that are alike have one version. -/
theorem version_eq (h : Alike R machine other) : other.memory.version = machine.memory.version := by
  rw [Memory.version, Memory.version, h.story_eq]

/-- Global variables of machines that are alike are at one place. -/
theorem globalAddress_eq (h : Alike R machine other) (number : UInt8) :
    Play.globalAddress other number = Play.globalAddress machine number := by
  rw [Play.globalAddress, Play.globalAddress, h.globals_eq]

/-- Machines that are alike can write the same variables. -/
theorem canAssign (h : Alike R machine other) {number : UInt8} (hcan : machine.CanAssign number) :
    other.CanAssign number := by
  unfold CanAssign at hcan ⊢
  rw [h.stack_eq, h.globalAddress_eq, h.ceiling_eq]
  exact hcan

/-- Machines that are alike are alike in the frame below. -/
theorem backIn (h : Alike R machine other) (caller : Frame) (older : List Frame) :
    Alike R (machine.backIn caller older) (other.backIn caller older) := by
  obtain ⟨hmemory, hstory, hglobals, hstack, hpc⟩ := h
  refine ⟨hmemory, hstory, hglobals, ?_, ?_⟩
  · simp only [Machine.backIn, hstack]
  · simp only [Machine.backIn, hstack]

/-- Machines that are alike can return or not. -/
theorem canReturn (h : Alike R machine other) (hcan : machine.CanReturn) : other.CanReturn := by
  obtain ⟨caller, older, hcallers, hvalues, hhand⟩ := hcan
  have hback := h.backIn caller older
  refine ⟨caller, older, by rw [h.stack_eq]; exact hcallers, by rw [h.stack_eq]; exact hvalues, ?_⟩
  intro hpending hend target hstore
  rw [h.stack_eq] at hpending hstore
  rw [hback.version_eq, hback.stack_eq] at hend
  exact hback.canAssign (hhand hpending hend target hstore)

/-- Machines that are alike can take the same branches. -/
theorem canFollow (h : Alike R machine other) {target : BranchTarget}
    (hcan : machine.CanFollow target) : other.CanFollow target := by
  cases target with
  | returnFalse => exact h.canReturn hcan
  | returnTrue => exact h.canReturn hcan
  | address pc => trivial

/-- A result that is not zero can be delivered wherever another one could. -/
theorem canConclude (h : Alike R machine other) {value value' : Word} {ending : Ending}
    (hvalue : (value' != 0) = (value != 0)) (hcan : machine.CanConclude value ending) :
    other.CanConclude value' ending := by
  cases ending with
  | store target => exact h.canAssign hcan
  | branch data =>
      intro htaken
      rw [h.pc_eq]
      exact h.canFollow (hcan (htaken.trans hvalue))

/-- Machines that are alike stay alike when a variable is written. -/
theorem assign (hR : Stable R) (h : Alike R machine other) (number : UInt8) (value : Word) :
    Alike R (machine.assign number value) (other.assign number value) := by
  have haddress := h.globalAddress_eq number
  have hceiling := h.ceiling_eq
  obtain ⟨hmemory, hstory, hglobals, hstack, hpc⟩ := h
  unfold Machine.assign
  split
  · exact ⟨hmemory, hstory, hglobals, by simp only [hstack], hpc⟩
  split
  · exact ⟨hmemory, hstory, hglobals, by simp only [hstack], hpc⟩
  by_cases hfit : Play.globalAddress machine number + 1 < machine.memory.dynamicCeiling
  · have hfit' : Play.globalAddress other number + 1 < other.memory.dynamicCeiling := by
      rw [haddress, hceiling]
      exact hfit
    rw [dif_pos hfit, dif_pos hfit']
    exact ⟨hR value hfit hfit' haddress hmemory, hstory, hglobals, hstack, hpc⟩
  · have hfit' : ¬Play.globalAddress other number + 1 < other.memory.dynamicCeiling := by
      rw [haddress, hceiling]
      exact hfit
    rw [dif_neg hfit, dif_neg hfit']
    exact ⟨hmemory, hstory, hglobals, hstack, hpc⟩

/-- They stay alike when the value of a routine is handed over. -/
theorem handed (hR : Stable R) (h : Alike R machine other) (frame : Frame) (value : Word) :
    Alike R (machine.handed frame value) (other.handed frame value) := by
  have hversion := h.version_eq
  have hdepth : other.stack.depth = machine.stack.depth := by rw [h.stack_eq]
  have hassign := fun target => h.assign hR target value
  obtain ⟨hmemory, hstory, hglobals, hstack, hpc⟩ := h
  unfold Machine.handed
  rw [hversion, hdepth]
  split
  · exact ⟨hmemory, hstory, hglobals, hstack, hpc⟩
  split
  · exact ⟨hmemory, hstory, hglobals, hstack, hpc⟩
  split
  · exact hassign _
  · exact ⟨hmemory, hstory, hglobals, hstack, hpc⟩

/-- They stay alike when a routine returns. -/
theorem returned (hR : Stable R) (h : Alike R machine other) (value : Word) :
    Alike R (machine.returned value) (other.returned value) := by
  unfold Machine.returned
  rw [h.stack_eq]
  split
  · exact (h.backIn _ _).handed hR _ value
  · exact h

/-- They stay alike when a branch is taken. -/
theorem follow (hR : Stable R) (h : Alike R machine other) (target : BranchTarget) :
    Alike R (machine.follow target) (other.follow target) := by
  cases target with
  | returnFalse => exact h.returned hR 0
  | returnTrue => exact h.returned hR 1
  | address pc => exact ⟨h.memory_rel, h.story_eq, h.globals_eq, h.stack_eq, rfl⟩

/-- **What becomes of a result** depends on nothing else. -/
theorem conclude (hR : Stable R) (h : Alike R machine other) (value : Word) (ending : Ending) :
    Alike R (machine.conclude value ending) (other.conclude value ending) := by
  cases ending with
  | store target => exact h.assign hR target value
  | branch data =>
      unfold Machine.conclude
      dsimp only
      rw [h.pc_eq]
      split
      · exact h.follow hR _
      · exact h

end Alike

/-- A memory that is readied differs where setting up the header touches it. -/
theorem sameOff_readied {machine : Machine} {memory ready : Memory}
    (hapart : memory.ExtensionApart) (h : machine.Readied memory ready) :
    Memory.SameOff (Header.Touched memory) memory ready := by
  obtain ⟨draft, hdraft, rfl⟩ := h
  have hsetUp := Header.sameOff_setUp hapart machine.info machine.options
  rw [hdraft] at hsetUp
  exact hsetUp.trans
    (Memory.sameOff_setHeaderWord .flags2 _ (.inl (by decide)) (.inl (by decide)))

/-- A readied memory still belongs to the same story. -/
theorem identity_readied {machine : Machine} {memory ready : Memory}
    (hapart : memory.ExtensionApart) (h : machine.Readied memory ready) :
    Snapshot.identity ready = Snapshot.identity memory := by
  refine Snapshot.identity_eq_iff.mpr fun address hid => ?_
  refine (sameOff_readied hapart h).byteAt_eq address ?_
  unfold Snapshot.IdentityByte at hid
  exact Header.not_touched_of_lt hapart (by omega) (by unfold Header.SetUpByte; omega)

end Machine

namespace Ending

/-- An ending is read off its own bytes. -/
theorem read_congr {memory other : Memory} {result length : Nat} {ending : Ending}
    (h : read memory result = .ok (ending, length)) (hstory : other.story = memory.story)
    (hbytes : ∀ i, result ≤ i → i < result + length → other.byteAt i = memory.byteAt i) :
    read other result = .ok (ending, length) := by
  have hversion : other.version = memory.version := by
    rw [Memory.version, Memory.version, hstory]
  have hsize : other.size = memory.size := Memory.size_congr hstory
  unfold read at h ⊢
  rw [hversion]
  split at h
  case isTrue hfour =>
      rw [if_pos hfour]
      cases hbyte : memory.readByte result with
      | error fault =>
          rw [hbyte] at h
          cases h
      | ok b =>
          rw [hbyte] at h
          obtain ⟨rfl, rfl⟩ := Prod.mk.inj (Except.ok.inj h)
          obtain ⟨hlt, heq⟩ := Memory.readByte_eq_ok.mp hbyte
          have hother : other.readByte result = .ok b := Memory.readByte_eq_ok.mpr
            ⟨by omega, (hbytes result (Nat.le_refl _) (by omega)).trans heq⟩
          rw [hother]
          rfl
  case isFalse hthree =>
      rw [if_neg hthree]
      cases hbranch : Branch.decode memory result with
      | error fault =>
          rw [hbranch] at h
          cases h
      | ok pair =>
          obtain ⟨data, length'⟩ := pair
          rw [hbranch] at h
          obtain ⟨rfl, rfl⟩ := Prod.mk.inj (Except.ok.inj h)
          rw [Branch.decode_congr hbranch hsize hbytes]
          rfl

/-- The ending of a saving instruction is read behind its operands.  Only a game can be saved in
version 3. -/
theorem read_of_decode {memory : Memory} {pc : Nat} {instruction : Instruction}
    (h : Instruction.decode memory pc = .ok instruction)
    (hopcode : instruction.opcode = .save ∨ instruction.opcode = .saveUndo) :
    ∃ ending length, read memory instruction.result = .ok (ending, length) ∧
      instruction.ending? = some ending ∧ instruction.next = instruction.result + length := by
  have hthree : 3 ≤ memory.version := memory.story.three_le_version
  have htext : instruction.opcode.hasText = false := by
    rcases hopcode with hsave | hundo
    · rw [hsave]
      rfl
    · rw [hundo]
      rfl
  by_cases hfour : 4 ≤ memory.version
  · have hstores : instruction.opcode.stores memory.version = true := by
      rcases hopcode with hsave | hundo
      · rw [hsave]
        exact decide_eq_true hfour
      · rw [hundo]
        rfl
    have hbranches : instruction.opcode.branches memory.version = false := by
      rcases hopcode with hsave | hundo
      · rw [hsave]
        exact decide_eq_false (by omega)
      · rw [hundo]
        rfl
    obtain ⟨hlt, hstore⟩ := Instruction.stores_of_decode h hstores
    refine ⟨.store (memory.byteAt instruction.result), 1, ?_, ?_,
      Instruction.next_eq_of_stores h hstores hbranches htext⟩
    · rw [read, if_pos hfour, Memory.readByte, if_pos hlt]
      rfl
    · rw [Instruction.ending?, hstore]
  · have hsave : instruction.opcode = .save := by
      rcases hopcode with hsave | hundo
      · exact hsave
      · have := Instruction.version_of_saveUndo h hundo
        omega
    have hstores : instruction.opcode.stores memory.version = false := by
      rw [hsave]
      exact decide_eq_false hfour
    have hbranches : instruction.opcode.branches memory.version = true := by
      rw [hsave]
      exact decide_eq_true (by omega)
    obtain ⟨hstore, data, length, hdata, hbranch, hnext⟩ :=
      Instruction.branches_of_decode h hstores hbranches htext
    refine ⟨.branch data, length, ?_, ?_, hnext⟩
    · rw [read, if_neg hfour, hdata]
      rfl
    · rw [Instruction.ending?, hstore, hbranch]
      rfl

end Ending

namespace Machine

/-- A machine that is being saved, behind an instruction whose ending stands at `result`
and takes `length` bytes. -/
structure Saving (machine : Machine) (result : Nat) (ending : Ending) (length : Nat) : Prop where
  size_lt : machine.memory.size < 0x1000000
  storable : machine.stack.Storable
  /-- No read waits in a frame, so the stack is stored as it is. -/
  pending_eq : ∀ frame ∈ machine.stack.frames, frame.pending = none
  read_eq : Ending.read machine.memory result = .ok (ending, length)
  pc_eq : machine.pc = result + length
  /-- The instruction can deliver its result. -/
  canConclude : machine.CanConclude 1 ending
  apart : machine.memory.ExtensionApart
  /-- The ending is neither in the header nor in its extension table. -/
  clear : ∀ i, result ≤ i → i < result + length → 64 ≤ i ∧ ¬machine.memory.InExtension i

/-- The machine to which going back to a saved one leads. -/
def resumed (now : Machine) (ready : Memory) (saved : Machine) (ending : Ending) : Machine :=
  { now.reloaded ready saved.stack with pc := saved.pc }.conclude 2 ending

variable {saved now : Machine} {ready : Memory} {result length : Nat} {ending : Ending}

/-- **Going back to what was captured** succeeds in every machine that plays the same game:
it leaves the stack and the memory of the saved machine, the memory readied, and delivers
the result 2. -/
theorem play_applySnapshot_capture (host : Host (StateM W)) (w : W)
    (hsaving : saved.Saving result ending length) (hgame : SameGame saved now)
    (hidentity : Snapshot.identity now.memory = Snapshot.identity saved.memory)
    (hready : now.Readied saved.memory ready) (compressed : Bool) (remark : Option String)
    (hlength : (Snapshot.capture saved.memory saved.stack result compressed remark).length
      < 0x100000008) :
    ∃ v, now.play host (Play.applySnapshot
        (Snapshot.capture saved.memory saved.stack result compressed remark)) w
      = ((.ok (), now.resumed ready saved ending), v) := by
  have hsize : result < now.memory.size := by
    obtain ⟨hpos, hend⟩ := Play.le_of_readEnding hsaving.read_eq
    rw [hgame.size_eq]
    omega
  have hpc : result < 0x1000000 := by
    rw [hgame.size_eq] at hsize
    exact Nat.lt_trans hsize hsaving.size_lt
  have hparse := Snapshot.parse_capture saved.stack result compressed remark hgame.story_eq
    hidentity hsaving.storable hpc hsize hlength
  rw [CallStack.settled_eq_self hsaving.pending_eq] at hparse
  have hmemory := Memory.setDynamic_dynamic hgame.story_eq
  obtain ⟨v, haccept⟩ := Play.play_applySnapshot_of_accepted host w hparse
  obtain ⟨v', hback⟩ := @Play.play_goBack_of_ready W host now v
    { dynamic := saved.memory.dynamic, stack := saved.stack, pc := result } _ _ hmemory hready
  have hsame := sameOff_readied hsaving.apart hready
  have hread : Ending.read ready result = .ok (ending, length) := by
    refine Ending.read_congr hsaving.read_eq hsame.story_eq fun i hle hlt => ?_
    obtain ⟨hheader, hout⟩ := hsaving.clear i hle hlt
    exact hsame.byteAt_eq i (Header.not_touched_of_le hheader hout)
  have halike : Alike (fun _ _ => True) saved
      { now.reloaded ready saved.stack with pc := result + length } :=
    ⟨trivial, hsame.story_eq, hgame.globals_eq, rfl, hsaving.pc_eq.symm⟩
  have hcan := halike.canConclude (rfl : ((2 : Word) != 0) = (1 != 0)) hsaving.canConclude
  refine ⟨v', ?_⟩
  rw [haccept, hback, Play.play_completeRestore_of_can host v' hread hcan, resumed, hsaving.pc_eq]

end Machine

end StoryMachine
