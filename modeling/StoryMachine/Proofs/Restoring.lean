import StoryMachine.Proofs.AcceptedSnapshot
import StoryMachine.Proofs.Delivery
import StoryMachine.Proofs.HeaderSetUp

/-!
# What going back to a snapshot does

A snapshot is checked first, and one that is turned down changes nothing.  One that
is accepted replaces memory and the call stack, and only then is the header set up
and the instruction that saved finished.  Both of these can still fail, on memory
that no saving instruction would have left behind, and then the machine is left in
between: it is `Interrupted`.

The main statement is `restore_atomic_or_interrupted`, for every machine and any
bytes: which of the three happens, exactly when, and what the machine is then.
-/

namespace StoryMachine

variable {W : Type}

namespace Machine

/-- The machine with the memory and the stack of a snapshot, before the instruction that
saved is finished. -/
def reloaded (machine : Machine) (memory : Memory) (stack : CallStack) : Machine :=
  { machine with memory, stack, resume := none, dictionaries := {} }

/-- A memory with its header set up, and the two lowest bits of the second flags as
they were in another. -/
def Readied (machine : Machine) (memory ready : Memory) : Prop :=
  ∃ draft, (Header.setUp machine.info machine.options).run memory = (.ok (), draft) ∧
    ready = Play.restoreFlags (Play.keptFlags machine.memory) draft.memory

/-- A snapshot that the machine can go on from: its header can be set up, and the
instruction that saved can be finished. -/
def Resumable (machine : Machine) (restored : Restored) : Prop :=
  ∃ memory ready, machine.memory.setDynamic restored.dynamic = .ok memory ∧
    machine.Readied memory ready ∧
    (machine.reloaded ready restored.stack).CanFinish restored.pc

/-- A machine left between its own state and that of a snapshot: with the snapshot's
memory, as far as its header could be set up, and in that case with its stack too,
where nothing but the stack and the place may have been touched since. -/
def Interrupted (machine : Machine) (restored : Restored) (after : Machine) : Prop :=
  ∃ memory, machine.memory.setDynamic restored.dynamic = .ok memory ∧
    ((∃ fault draft, (Header.setUp machine.info machine.options).run memory
          = (.error fault, draft) ∧ after = { machine with memory := draft.memory }) ∨
      ∃ ready stack pc, machine.Readied memory ready ∧
        after = { machine.reloaded ready restored.stack with stack, pc })

end Machine

namespace Play

open Machine

variable (host : Host (StateM W)) {machine : Machine} (w : W)

/-- What is done with an accepted snapshot. -/
def goBack (restored : Restored) : Play (StateM W) Unit := do
  let machine ← get
  let kept := keptFlags machine.memory
  let memory ← MonadExcept.ofExcept (machine.memory.setDynamic restored.dynamic)
  set { machine with memory }
  edit (Header.setUp machine.info machine.options)
  edit (Edit.change (restoreFlags kept))
  modify fun machine =>
    { machine with stack := restored.stack, resume := none, dictionaries := {} }
  note (.remark s!"restored to {Numeral.marked 5 restored.pc}")
  completeRestore restored.pc

/-- After a remark on surplus bytes, if there are any, a snapshot is checked. -/
theorem play_applySnapshot (bytes : List UInt8) :
    ∃ w', machine.play host (applySnapshot bytes) w
      = machine.play host (look (Snapshot.parse bytes) >>= goBack) w' := by
  unfold applySnapshot
  cases Snapshot.surplusNotice? bytes with
  | none => exact ⟨w, rfl⟩
  | some notice => exact ⟨_, play_bind_of_ok (play_note machine host w notice)⟩

/-- A snapshot that is turned down changes nothing. -/
theorem play_applySnapshot_of_rejected {bytes : List UInt8} {fault : Fault}
    (h : Snapshot.parse bytes machine.memory = .error fault) :
    ∃ w', machine.play host (applySnapshot bytes) w = ((.error fault, machine), w') := by
  obtain ⟨w', hplay⟩ := @play_applySnapshot W host machine w bytes
  have hlook := play_look machine host w' (Snapshot.parse bytes)
  rw [h] at hlook
  exact ⟨w', hplay.trans (play_bind_of_error hlook)⟩

/-- A snapshot that is accepted is gone back to. -/
theorem play_applySnapshot_of_accepted {bytes : List UInt8} {restored : Restored}
    (h : Snapshot.parse bytes machine.memory = .ok restored) :
    ∃ w', machine.play host (applySnapshot bytes) w = machine.play host (goBack restored) w' := by
  obtain ⟨w', hplay⟩ := @play_applySnapshot W host machine w bytes
  have hlook := play_look machine host w' (Snapshot.parse bytes)
  rw [h] at hlook
  exact ⟨w', hplay.trans (play_bind_of_ok hlook)⟩

/-- Memory and the stack are replaced, and the header is set up, before the saving
instruction is finished. -/
theorem play_goBack_of_ready {restored : Restored} {memory ready : Memory}
    (hmemory : machine.memory.setDynamic restored.dynamic = .ok memory)
    (hready : machine.Readied memory ready) :
    ∃ w', machine.play host (goBack restored) w
      = (machine.reloaded ready restored.stack).play host (completeRestore restored.pc) w' := by
  obtain ⟨draft, hdraft, rfl⟩ := hready
  unfold goBack
  rw [play_bind_of_ok (play_get machine host w), play_bind, play_ofExcept, hmemory]
  dsimp only
  rw [play_bind_of_ok (play_set machine host w { machine with memory }), play_bind, play_edit, hdraft]
  exact ⟨_, rfl⟩

/-- A snapshot whose header cannot be set up leaves its memory, as far as that went. -/
theorem play_goBack_of_unready {restored : Restored} {memory : Memory} {fault : Fault}
    {draft : Draft} (hmemory : machine.memory.setDynamic restored.dynamic = .ok memory)
    (hfault : (Header.setUp machine.info machine.options).run memory = (.error fault, draft)) :
    ∃ w', machine.play host (goBack restored) w
      = ((.error fault, { machine with memory := draft.memory }), w') := by
  unfold goBack
  rw [play_bind_of_ok (play_get machine host w), play_bind, play_ofExcept, hmemory]
  dsimp only
  rw [play_bind_of_ok (play_set machine host w { machine with memory }), play_bind, play_edit, hfault]
  exact ⟨_, rfl⟩

/-- **An accepted snapshot** is gone back to if it is resumable, and otherwise leaves
the machine interrupted, with a fatal fault. -/
theorem play_goBack {bytes : List UInt8} {restored : Restored}
    (h : Snapshot.parse bytes machine.memory = .ok restored) :
    (machine.Resumable restored → ∃ after w',
        machine.play host (goBack restored) w = ((.ok (), after), w')) ∧
      (¬machine.Resumable restored → ∃ fault after w',
        machine.play host (goBack restored) w = ((.error fault, after), w') ∧
        (fault.isFatal = true ∧
          (machine.stack.Storable → fault.kind = .stackOverflow ∨ after.stack.Storable)) ∧
        machine.Interrupted restored after) := by
  have hlength := (Snapshot.accepted_of_parse h).length_dynamic
  constructor
  · rintro ⟨memory, ready, hmemory, hready, ending, length, hread, hcan⟩
    obtain ⟨w', hplay⟩ := play_goBack_of_ready host w hmemory hready
    rw [hplay, play_completeRestore_of_can host w' hread hcan]
    exact ⟨_, _, rfl⟩
  · intro hnot
    have hmemory : machine.memory.setDynamic restored.dynamic
        = .ok (machine.memory.withDynamic restored.dynamic hlength) := dif_pos hlength
    rcases hrun : (Header.setUp machine.info machine.options).run
        (machine.memory.withDynamic restored.dynamic hlength) with ⟨fault | _, draft⟩
    · obtain ⟨w', hplay⟩ := play_goBack_of_unready host w hmemory hrun
      exact ⟨fault, _, w', hplay,
        ⟨Header.failsFatally_setUp _ _ _ fault draft hrun, fun hstorable => .inr hstorable⟩,
        _, hmemory, .inl ⟨fault, draft, hrun, rfl⟩⟩
    · have hready : machine.Readied (machine.memory.withDynamic restored.dynamic hlength)
          (restoreFlags (keptFlags machine.memory) draft.memory) := ⟨draft, hrun, rfl⟩
      have hstuck : ¬(machine.reloaded (restoreFlags (keptFlags machine.memory) draft.memory)
          restored.stack).CanFinish restored.pc :=
        fun hfinish => hnot ⟨_, _, hmemory, hready, hfinish⟩
      obtain ⟨w', hplay⟩ := play_goBack_of_ready host w hmemory hready
      obtain ⟨fault, stack, pc, hfault, hfatal, hspilt⟩ := play_completeRestore_of_not host w' hstuck
      exact ⟨fault, _, w', hplay.trans hfault,
        ⟨hfatal, fun _ => hspilt (Snapshot.accepted_of_parse h).storable⟩, _, hmemory,
        .inr ⟨_, stack, pc, hready, rfl⟩⟩

/-- How a call ends that is to go back to a snapshot.  The machine is as it was if the
snapshot is turned down, and interrupted if it is accepted but not resumable. -/
def GoesBack (machine : Machine) (bytes : List UInt8) (played : Played W Unit) : Prop :=
  (∀ fault, Snapshot.parse bytes machine.memory = .error fault →
      played.1 = (.error fault, machine)) ∧
    ∀ restored, Snapshot.parse bytes machine.memory = .ok restored →
      (machine.Resumable restored ∧ ∃ after, played.1 = (.ok (), after)) ∨
        (¬machine.Resumable restored ∧ ∃ fault after, played.1 = (.error fault, after) ∧
          fault.isFatal = true ∧ machine.Interrupted restored after)

/-- Going back to a snapshot ends in one of these ways. -/
theorem goesBack_applySnapshot (machine : Machine) (bytes : List UInt8) :
    GoesBack machine bytes (machine.play host (applySnapshot bytes) w) := by
  constructor
  · intro fault hparse
    obtain ⟨w', hplay⟩ := play_applySnapshot_of_rejected host w hparse
    rw [hplay]
  · intro restored hparse
    obtain ⟨w', hplay⟩ := play_applySnapshot_of_accepted host w hparse
    obtain ⟨hresume, hstuck⟩ := play_goBack host w' hparse
    by_cases h : machine.Resumable restored
    · obtain ⟨after, v, hafter⟩ := hresume h
      rw [hplay, hafter]
      exact .inl ⟨h, after, rfl⟩
    · obtain ⟨fault, after, v, hafter, ⟨hfatal, -⟩, hinterrupted⟩ := hstuck h
      rw [hplay, hafter]
      exact .inr ⟨h, fault, after, rfl, hfatal, hinterrupted⟩

/-- So does restoring bytes. -/
theorem goesBack_restoreBytes (machine : Machine) (bytes : List UInt8) :
    GoesBack machine bytes (machine.play host (restoreBytes bytes) w) := by
  obtain ⟨hrejected, haccepted⟩ := goesBack_applySnapshot host w machine bytes
  rcases hplay : machine.play host (applySnapshot bytes) w with ⟨⟨fault | _, middle⟩, v⟩ <;>
    rw [hplay] at hrejected haccepted
  · rw [restoreBytes, play_bind_of_error hplay]
    exact ⟨hrejected, haccepted⟩
  · rw [restoreBytes, play_bind_of_ok hplay, play_modify]
    constructor
    · intro fault hparse
      exact nomatch hrejected fault hparse
    · intro restored hparse
      rcases haccepted restored hparse with ⟨h, -⟩ | ⟨-, _, _, hfault, -⟩
      · exact .inl ⟨h, _, rfl⟩
      · exact nomatch hfault

/-- Putting the generation back undoes having taken it. -/
theorem interrupted_unpop {machine after : Machine} {ring : UndoRing} {snapshot : List UInt8}
    {restored : Restored} (hpop : machine.undo.pop? = some (snapshot, ring))
    (h : Interrupted { machine with undo := ring } restored after) :
    machine.Interrupted restored { after with undo := after.undo.unpop snapshot } := by
  have hring := UndoRing.unpop_of_pop? hpop
  obtain ⟨memory, hmemory, ⟨fault, draft, hdraft, rfl⟩ | ⟨ready, stack, pc, hready, rfl⟩⟩ := h
  · refine ⟨memory, hmemory, .inl ⟨fault, draft, hdraft, ?_⟩⟩
    simp only [hring]
  · refine ⟨memory, hmemory, .inr ⟨ready, stack, pc, hready, ?_⟩⟩
    simp only [reloaded, hring]

/-- Taking the newest generation and, if it cannot be restored, putting it back. -/
theorem play_undo {machine : Machine} {ring : UndoRing} {snapshot : List UInt8}
    (hpop : machine.undo.pop? = some (snapshot, ring)) :
    machine.play host undo w
      = Machine.play { machine with undo := ring } host (do
        tryCatch (applySnapshot snapshot) fun fault => do
          modify fun machine => { machine with undo := machine.undo.unpop snapshot }
          throw fault
        modify fun machine => { machine with halted := none }) w := by
  unfold undo
  rw [play_bind_of_ok (play_get machine host w), hpop]
  rfl

/-- So does undoing, with the newest generation. -/
theorem goesBack_undo {machine : Machine} {ring : UndoRing} {snapshot : List UInt8}
    (hpop : machine.undo.pop? = some (snapshot, ring)) :
    GoesBack machine snapshot (machine.play host undo w) := by
  obtain ⟨hrejected, haccepted⟩ := goesBack_applySnapshot host w { machine with undo := ring } snapshot
  rw [play_undo host w hpop, play_bind, play_tryCatch]
  rcases hplay : Machine.play { machine with undo := ring } host (applySnapshot snapshot) w
    with ⟨⟨fault | _, middle⟩, v⟩ <;> rw [hplay] at hrejected haccepted
  · constructor
    · intro fault' hparse
      obtain ⟨⟨⟩, rfl⟩ := Prod.mk.inj (hrejected fault' hparse)
      show (Except.error fault, { machine with undo := ring.unpop snapshot }) = _
      rw [UndoRing.unpop_of_pop? hpop]
    · intro restored hparse
      rcases haccepted restored hparse with ⟨-, _, hok⟩ | ⟨h, fault', after, hfault, hfatal, hinter⟩
      · exact nomatch hok
      · obtain ⟨⟨⟩, rfl⟩ := Prod.mk.inj hfault
        exact .inr ⟨h, fault, _, rfl, hfatal, interrupted_unpop hpop hinter⟩
  · constructor
    · intro fault hparse
      exact nomatch hrejected fault hparse
    · intro restored hparse
      rcases haccepted restored hparse with ⟨h, -⟩ | ⟨-, _, _, hfault, -⟩
      · exact .inl ⟨h, _, rfl⟩
      · exact nomatch hfault

/-- **Restoring is atomic, or interrupted.**  Whatever the machine and whatever bytes
it is offered, and likewise for its newest undo generation: a snapshot that is
turned down leaves the machine exactly as it was.  An accepted one is gone back to
if and only if its header can be set up and the instruction that saved be finished;
otherwise the call fails with a fatal fault and leaves the machine with the memory
of the snapshot.  Undo generations and the reason for halting stay in any case. -/
theorem restore_atomic_or_interrupted (machine : Machine) :
    (∀ bytes, GoesBack machine bytes (machine.play host (restoreBytes bytes) w)) ∧
      match machine.undo.pop? with
      | none => machine.play host undo w = ((.error { kind := .nothingToUndo }, machine), w)
      | some (snapshot, _) => GoesBack machine snapshot (machine.play host undo w) := by
  refine ⟨goesBack_restoreBytes host w machine, ?_⟩
  cases hpop : machine.undo.pop? with
  | none =>
      dsimp only
      unfold undo
      rw [play_bind_of_ok (play_get machine host w), hpop]
      rfl
  | some pair => exact goesBack_undo host w hpop

end Play

/-! ## A snapshot that interrupts -/

namespace Machine

open Play

/-- A host that takes no notice of anything. -/
def deaf : Host (StateM Unit) :=
  .plain (fun _ => pure ()) (fun _ _ _ _ => pure (.done "" 13)) (fun _ => pure (.key 13))

/-- The image of a version 5 story whose code follows 72 bytes of dynamic memory, with the
global variables right behind the header. -/
def storyOf (code : List UInt8) : Array UInt8 :=
  ([5, 0, 0, 7, 0, 0, 0, 72, 0, 0, 0, 0, 0, 64, 0, 72] ++ List.replicate 56 0 ++ code).toArray

/-- A story that quits.  Behind that comes a byte that, as a store variable, would be a local
variable that is not there. -/
def quitter : Machine :=
  ((create deaf (storyOf [0xba, 5]) {} ()).1.toOption).get rfl

/-- A snapshot that is to go on with that byte, with a global variable changed. -/
def misplaced : List UInt8 :=
  Snapshot.capture (quitter.memory.setWord 64 0xbeef (by decide)) {} 73 false none

/-- The snapshot is accepted.  Storing a result fails, and the change stays. -/
example : (Snapshot.parse misplaced quitter.memory).toOption.isSome = true ∧
    (quitter.play deaf (restoreBytes misplaced) ()).1.1.toOption = none ∧
    (quitter.play deaf (restoreBytes misplaced) ()).1.2.memory.wordAt 64 = 0xbeef := by
  decide +kernel

end Machine

end StoryMachine
