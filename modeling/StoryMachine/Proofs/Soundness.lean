import StoryMachine.Proofs.Restoring

/-!
# Stacks stay storable

A snapshot has room for return addresses below 2^24, for 15 locals a frame, and for
words that frames own.  Between two instructions a machine is `Sound`: its stack
fits, and if a read waits to be resumed, so does the address to go on at.  In the
middle of an instruction it is `Steady`: the address to go on at fits in any case,
because the instruction lies in memory.  Every move keeps the machine steady
(`Move.steady`), and an end makes it sound (`Finishes.sound`).  What of this does not
depend on how large memory is, is said apart: the stack stays in order
(`Move.orderly`, `Finishes.orderly`).

Going back to a snapshot is the one thing an instruction does that is not made of
moves.  `Reload` says how that can end, for a snapshot, for the host's save file and
for the newest undo generation: in a sound machine, or with a fault that left the
game as it was, and the machine sound unless the stack had run over.
-/

namespace StoryMachine

variable {W : Type}

namespace Machine

/-- The same story, with the global variables at the same place. -/
structure SameGame (machine after : Machine) : Prop where
  story_eq : after.memory.story = machine.memory.story
  globals_eq : after.globals = machine.globals

/-- A machine is in its own game. -/
theorem SameGame.refl (machine : Machine) : SameGame machine machine := ⟨rfl, rfl⟩

/-- The game of the same game is the same. -/
theorem SameGame.trans {machine middle after : Machine} (h : SameGame machine middle)
    (h' : SameGame middle after) : SameGame machine after :=
  ⟨h'.story_eq.trans h.story_eq, h'.globals_eq.trans h.globals_eq⟩

/-- The setting includes the game. -/
theorem SameSetting.sameGame {machine after : Machine} (h : SameSetting machine after) :
    SameGame machine after := ⟨h.story_eq, h.globals_eq⟩

/-- The same game, with the same undo generations and options. -/
structure SameRun (machine after : Machine) : Prop extends SameGame machine after where
  undo_eq : after.undo = machine.undo
  options_eq : after.options = machine.options

/-- A machine is in its own run. -/
theorem SameRun.refl (machine : Machine) : SameRun machine machine := ⟨.refl machine, rfl, rfl⟩

/-- The run of the same run is the same. -/
theorem SameRun.trans {machine middle after : Machine} (h : SameRun machine middle)
    (h' : SameRun middle after) : SameRun machine after :=
  ⟨h.toSameGame.trans h'.toSameGame, h'.undo_eq.trans h.undo_eq, h'.options_eq.trans h.options_eq⟩

/-- The setting includes the run. -/
theorem SameSetting.sameRun {machine after : Machine} (h : SameSetting machine after) :
    SameRun machine after := ⟨h.sameGame, h.undo_eq, h.options_eq⟩

/-- The same game has memory of the same size. -/
theorem SameGame.size_eq {machine after : Machine} (h : SameGame machine after) :
    after.memory.size = machine.memory.size :=
  Memory.size_congr h.story_eq

/-- A machine in the middle of an instruction.  Its memory is small enough for addresses of three
bytes, which is what a snapshot has room for. -/
structure Steady (machine : Machine) : Prop where
  size_lt : machine.memory.size < 0x1000000
  storable : machine.stack.Storable
  pc_lt : machine.pc < 0x1000000

/-- A machine between two instructions. -/
structure Sound (machine : Machine) : Prop where
  size_lt : machine.memory.size < 0x1000000
  storable : machine.stack.Storable
  pc_lt : machine.resume.isSome = true → machine.pc < 0x1000000

/-- A machine that is steady between two instructions is sound. -/
theorem Steady.sound {machine : Machine} (h : machine.Steady) : machine.Sound :=
  ⟨h.size_lt, h.storable, fun _ => h.pc_lt⟩

/-- No move of an instruction says which read is to be gone on with. -/
theorem Move.resume_eq {machine after : Machine} (h : machine.Move after) :
    after.resume = machine.resume := by
  cases h <;> rfl

/-- Nor do moves one after another. -/
theorem Moves.resume_eq {machine after : Machine} (h : machine.Moves after) :
    after.resume = machine.resume := by
  induction h with
  | refl => rfl
  | tail _ hmove ih => exact hmove.resume_eq.trans ih

/-- **A move keeps the machine steady.** -/
theorem Move.steady {machine after : Machine} (hmove : machine.Move after) (h : machine.Steady) :
    after.Steady := by
  obtain ⟨hsize, hstorable, hpc⟩ := h
  have hsize' : after.memory.size < 0x1000000 := by
    rw [hmove.withstands.sameGame.size_eq]
    exact hsize
  cases hmove with
  | memory memory hstory => exact ⟨hsize', hstorable, hpc⟩
  | streams streams => exact ⟨hsize', hstorable, hpc⟩
  | random random => exact ⟨hsize', hstorable, hpc⟩
  | dictionaries dictionaries hkept => exact ⟨hsize', hstorable, hpc⟩
  | stack stack hstack => exact ⟨hsize', hstorable.move hstack, hpc⟩
  | enter store pending frame first hentry hdepth =>
      have hreturn : frame.returnPc < 0x1000000 := by
        rw [hentry.returnPc_eq]
        exact hpc
      have hframe : frame.Storable :=
        ⟨hreturn, hentry.locals_le, Nat.le_succ_of_le hentry.arguments_le⟩
      exact ⟨hsize', hstorable.entered hframe hentry.size_eq,
        Nat.lt_of_le_of_lt hentry.first_le hsize⟩
  | ret caller older hcallers hvalues =>
      exact ⟨hsize', hstorable.move (.leave caller older hcallers hvalues),
        (hstorable.frames_storable _ (CallStack.mem_frames.mpr (.inl rfl))).returnPc_lt⟩

/-- Moves keep a machine steady. -/
theorem Moves.steady {machine after : Machine} (hmoves : machine.Moves after)
    (h : machine.Steady) : after.Steady := by
  induction hmoves with
  | refl => exact h
  | tail _ hmove ih => exact hmove.steady ih

/-- **A move leaves the stack in order.** -/
theorem Move.orderly {machine after : Machine} (hmove : machine.Move after)
    (h : machine.stack.Orderly) : after.stack.Orderly := by
  cases hmove with
  | stack stack hstack => exact h.move hstack
  | enter store pending frame first hentry hdepth =>
      exact h.entered hentry.locals_le hentry.size_eq
  | ret caller older hcallers hvalues => exact h.move (.leave caller older hcallers hvalues)
  | _ => exact h

/-- Moves keep the stack in order. -/
theorem Moves.orderly {machine after : Machine} (hmoves : machine.Moves after)
    (h : machine.stack.Orderly) : after.stack.Orderly := by
  induction hmoves with
  | refl => exact h
  | tail _ hmove ih => exact hmove.orderly ih

/-- An instruction leaves the stack in order. -/
theorem Finishes.orderly {machine after : Machine} (hfinishes : machine.Finishes after)
    (h : machine.stack.Orderly) : after.stack.Orderly := by
  obtain ⟨middle, hmoves, hlast⟩ := hfinishes
  have hmiddle := hmoves.orderly h
  cases hlast <;> exact hmiddle

/-- An instruction leaves the machine sound. -/
theorem Finishes.sound {machine after : Machine} (hfinishes : machine.Finishes after)
    (h : machine.Steady) (hresume : machine.resume = none) : after.Sound := by
  obtain ⟨middle, hmoves, hlast⟩ := hfinishes
  have hmiddle := hmoves.steady h
  have hnone : middle.resume = none := hmoves.resume_eq.trans hresume
  cases hlast with
  | stay => exact hmiddle.sound
  | jump pc =>
      refine ⟨hmiddle.size_lt, hmiddle.storable, fun hsome => ?_⟩
      have hsome : middle.resume.isSome = true := hsome
      rw [hnone] at hsome
      exact nomatch hsome
  | resume read => exact ⟨hmiddle.size_lt, hmiddle.storable, fun _ => hmiddle.pc_lt⟩
  | quit => exact ⟨hmiddle.size_lt, hmiddle.storable, fun _ => hmiddle.pc_lt⟩

end Machine

namespace Play

open Machine

/-! ## Going back to a snapshot -/

/-- The end of an instruction is read from within memory. -/
theorem le_of_readEnding {memory : Memory} {result length : Nat} {ending : Ending}
    (h : Ending.read memory result = .ok (ending, length)) :
    0 < length ∧ result + length ≤ memory.size := by
  unfold Ending.read at h
  split at h
  · cases hbyte : memory.readByte result with
    | error fault =>
        rw [hbyte] at h
        exact nomatch h
    | ok b =>
        rw [hbyte] at h
        obtain ⟨-, rfl⟩ := Prod.mk.inj (Except.ok.inj h)
        exact ⟨Nat.one_pos, (Memory.readByte_eq_ok.mp hbyte).1⟩
  · cases hbranch : Branch.decode memory result with
    | error fault =>
        rw [hbranch] at h
        exact nomatch h
    | ok pair =>
        rw [hbranch] at h
        obtain ⟨-, rfl⟩ := Prod.mk.inj (Except.ok.inj h)
        obtain ⟨hpos, -, hle⟩ := Branch.length_of_decode hbranch
        exact ⟨hpos, hle⟩

/-- Finishing the instruction that saved is an end like any other. -/
theorem ends_finish (next : Nat) (ending : Ending) :
    Ends (finish next ending : Play (StateM W) Unit) := by
  cases ending with
  | store target => exact (quiet_writeVariable target 2).ends
  | branch data => exact .ite (ends_jump _) (quiet_pure ()).ends

/-- A machine that was just reloaded is steady behind the instruction that saved. -/
theorem steady_reloaded {machine : Machine} {ready : Memory} {restored : Restored}
    {bytes : List UInt8} {length : Nat} (hparse : Snapshot.parse bytes machine.memory = .ok restored)
    (hstory : ready.story = machine.memory.story) (hsize : machine.memory.size < 0x1000000)
    (hlength : restored.pc + length ≤ ready.size) :
    Steady { machine.reloaded ready restored.stack with pc := restored.pc + length } := by
  have hready : ready.size < 0x1000000 := by
    rw [Memory.size_congr hstory]
    exact hsize
  exact ⟨hready, (Snapshot.accepted_of_parse hparse).storable, Nat.lt_of_le_of_lt hlength hready⟩

/-- Readying a memory keeps its story. -/
theorem story_of_readied {machine : Machine} {memory ready : Memory}
    (h : machine.Readied memory ready) : ready.story = memory.story := by
  obtain ⟨draft, hdraft, rfl⟩ := h
  have hstory := Header.story_setUp machine.info machine.options memory
  rw [hdraft] at hstory
  exact hstory

/-- Replacing dynamic memory keeps the story. -/
theorem story_of_setDynamic {memory after : Memory} {data : List UInt8}
    (h : memory.setDynamic data = .ok after) : after.story = memory.story := by
  unfold Memory.setDynamic at h
  split at h
  · obtain rfl := Except.ok.inj h
    rfl
  · exact nomatch h

/-- An interrupted restore stays in the game. -/
theorem sameGame_of_interrupted {machine after : Machine} {restored : Restored}
    (h : machine.Interrupted restored after) : SameGame machine after := by
  obtain ⟨memory, hmemory, ⟨fault, draft, hdraft, rfl⟩ | ⟨ready, stack, pc, hready, rfl⟩⟩ := h
  · have hstory := Header.story_setUp machine.info machine.options memory
    rw [hdraft] at hstory
    exact ⟨hstory.trans (story_of_setDynamic hmemory), rfl⟩
  · exact ⟨(story_of_readied hready).trans (story_of_setDynamic hmemory), rfl⟩

/-- Going back to a snapshot that goes well finishes the instruction that saved, on the memory
and the stack of the snapshot. -/
theorem finished_of_goBack {host : Host (StateM W)} {machine after : Machine} {w w' : W}
    {bytes : List UInt8} {restored : Restored}
    (hparse : Snapshot.parse bytes machine.memory = .ok restored)
    (hplay : machine.play host (goBack restored) w = ((.ok (), after), w')) :
    ∃ ready ending length v, ready.story = machine.memory.story ∧
      Ending.read ready restored.pc = .ok (ending, length) ∧
      Machine.play { machine.reloaded ready restored.stack with pc := restored.pc + length } host
        (finish (restored.pc + length) ending) v = ((.ok (), after), w') := by
  have hresumable : machine.Resumable restored := by
    refine Classical.byContradiction fun hnot => ?_
    obtain ⟨fault, after', v, hfault, -⟩ := (play_goBack host w hparse).2 hnot
    rw [hfault] at hplay
    exact nomatch hplay
  obtain ⟨memory, ready, hmemory, hready, ending, length, hread, hcan⟩ := hresumable
  obtain ⟨v, hback⟩ := play_goBack_of_ready host w hmemory hready
  rw [hback, play_completeRestore_of_read host v hread] at hplay
  exact ⟨ready, ending, length, v,
    (story_of_readied hready).trans (story_of_setDynamic hmemory), hread, hplay⟩

/-- Going back to a snapshot that goes well ends like an instruction: the game is the same, the
machine is sound, and its stack is in order whatever the size of memory. -/
theorem sound_of_goBack {host : Host (StateM W)} {machine after : Machine} {w w' : W}
    {bytes : List UInt8} {restored : Restored}
    (hparse : Snapshot.parse bytes machine.memory = .ok restored)
    (hplay : machine.play host (goBack restored) w = ((.ok (), after), w')) :
    SameGame machine after ∧ (machine.memory.size < 0x1000000 → after.Sound) ∧
      after.stack.Orderly := by
  obtain ⟨ready, ending, length, v, hstory, hread, hfinish⟩ := finished_of_goBack hparse hplay
  have hfinishes := (ends_finish (restored.pc + length) ending host _ v).1 () after w' hfinish
  have hgame : SameGame machine { machine.reloaded ready restored.stack with
      pc := restored.pc + length } := ⟨hstory, rfl⟩
  refine ⟨hgame.trans hfinishes.withstands.sameGame, fun hsize => ?_, ?_⟩
  · exact hfinishes.sound (steady_reloaded hparse hstory hsize (le_of_readEnding hread).2) rfl
  · exact hfinishes.orderly (Snapshot.accepted_of_parse hparse).storable.orderly

/-- What a failed attempt to go back leaves: the same game, undo generations and options, the
same reason for halting, and a sound machine unless the stack ran over. -/
structure Failed (machine : Machine) (fault : Fault) (after : Machine) : Prop where
  sameRun : SameRun machine after
  halted_eq : after.halted = machine.halted
  sound : machine.Sound → fault.kind = .stackOverflow ∨ after.Sound

/-- An interrupted restore leaves what a failed attempt may leave. -/
theorem failed_of_interrupted {machine after : Machine} {restored : Restored} {fault : Fault}
    (hspilt : machine.stack.Storable → fault.kind = .stackOverflow ∨ after.stack.Storable)
    (h : machine.Interrupted restored after) : Failed machine fault after := by
  have hgame := sameGame_of_interrupted h
  have hsize : machine.Sound → after.memory.size < 0x1000000 := fun hsound => by
    rw [hgame.size_eq]
    exact hsound.size_lt
  obtain ⟨memory, hmemory, ⟨fault', draft, hdraft, rfl⟩ | ⟨ready, stack, pc, hready, rfl⟩⟩ := h
  · exact ⟨⟨hgame, rfl, rfl⟩, rfl,
      fun hsound => .inr ⟨hsize hsound, hsound.storable, hsound.pc_lt⟩⟩
  · refine ⟨⟨hgame, rfl, rfl⟩, rfl, fun hsound => ?_⟩
    rcases hspilt hsound.storable with hover | hstorable
    · exact .inl hover
    · exact .inr ⟨hsize hsound, hstorable, fun hsome => nomatch hsome⟩

/-- A machine that is left as it was is what a failed attempt may leave. -/
theorem Failed.refl (machine : Machine) (fault : Fault) : Failed machine fault machine :=
  ⟨.refl machine, rfl, .inr⟩

/-- How an attempt to go back to another state can end.  Where it goes well, the machine
is sound in the same game, with its stack in order.  A fault that is not fatal has changed
nothing. -/
def Reload (machine : Machine) (outcome : Except Fault Unit) (after : Machine) : Prop :=
  match outcome with
  | .ok () => SameGame machine after ∧ (machine.memory.size < 0x1000000 → after.Sound) ∧
      after.stack.Orderly
  | .error fault => Failed machine fault after ∧ (fault.isFatal = false → after = machine)

/-- A failed attempt that changes nothing has ended as an attempt may. -/
theorem reload_of_unchanged (machine : Machine) (fault : Fault) :
    Reload machine (.error fault) machine := ⟨.refl machine fault, fun _ => rfl⟩

section

variable {host : Host (StateM W)} {machine after : Machine} {w w' : W} {outcome : Except Fault Unit}

/-- **Going back to a snapshot ends as an attempt may**: sound, or without having changed
anything, or fatally. -/
theorem reload_applySnapshot {bytes : List UInt8}
    (hplay : machine.play host (applySnapshot bytes) w = ((outcome, after), w')) :
    Reload machine outcome after := by
  cases hparse : Snapshot.parse bytes machine.memory with
  | error fault =>
      obtain ⟨v, hreject⟩ := play_applySnapshot_of_rejected host w hparse
      rw [hreject] at hplay
      cases hplay
      exact reload_of_unchanged machine fault
  | ok restored =>
      obtain ⟨v, haccept⟩ := play_applySnapshot_of_accepted host w hparse
      rw [haccept] at hplay
      by_cases hresume : machine.Resumable restored
      · obtain ⟨after', v', hok⟩ := (play_goBack host v hparse).1 hresume
        have hsound := sound_of_goBack hparse hok
        rw [hok] at hplay
        cases hplay
        exact hsound
      · obtain ⟨fault, after', v', hfault, ⟨hfatal, hspilt⟩, hinterrupted⟩ :=
          (play_goBack host v hparse).2 hresume
        rw [hfault] at hplay
        cases hplay
        refine ⟨failed_of_interrupted hspilt hinterrupted, fun hnot => ?_⟩
        rw [hfatal] at hnot
        exact nomatch hnot

/-- Reading the save file changes nothing; what matters is what is done with it. -/
theorem of_file {P : Except Fault Unit → Machine → Prop} {next : List UInt8 → Play (StateM W) Unit}
    (hfault : ∀ fault, P (.error fault) machine)
    (hnext : ∀ {bytes : List UInt8} {v : W},
      machine.play host (next bytes) v = ((outcome, after), w') → P outcome after)
    (hplay : machine.play host (do next (← MonadExcept.ofExcept (← readFile .saveGame))) w
      = ((outcome, after), w')) : P outcome after := by
  have hread := reads_readFile .saveGame host machine w
  rcases hfile : machine.play host (readFile .saveGame) w with ⟨⟨fault | contents, middle⟩, v⟩ <;>
    rw [hfile] at hread <;> obtain rfl : middle = machine := hread
  · rw [play_bind_of_error hfile] at hplay
    cases hplay
    exact hfault fault
  · rw [play_bind_of_ok hfile, play_bind, play_ofExcept] at hplay
    cases contents with
    | error fault =>
        cases hplay
        exact hfault fault
    | ok bytes => exact hnext hplay

/-- Goes back to the host's save file. -/
def reloadFile : Play (StateM W) Unit := do
  applySnapshot (← MonadExcept.ofExcept (← readFile .saveGame))

/-- So does going back to the file of the host. -/
theorem reload_reloadFile (hplay : machine.play host reloadFile w = ((outcome, after), w')) :
    Reload machine outcome after :=
  of_file (reload_of_unchanged machine) reload_applySnapshot hplay

/-- So does undoing, where the generation that was not restored is kept. -/
theorem reload_undo (hplay : machine.play host undo w = ((outcome, after), w')) :
    Reload machine outcome after := by
  cases hpop : machine.undo.pop? with
  | none =>
      unfold undo at hplay
      rw [play_bind_of_ok (play_get machine host w), hpop] at hplay
      cases hplay
      exact reload_of_unchanged _ _
  | some pair =>
      obtain ⟨snapshot, ring⟩ := pair
      have hring := UndoRing.unpop_of_pop? hpop
      rw [play_undo host w hpop, play_bind, play_tryCatch] at hplay
      rcases happly : Machine.play { machine with undo := ring } host (applySnapshot snapshot) w
        with ⟨⟨fault | _, middle⟩, v⟩ <;> rw [happly] at hplay <;>
        have hreload := reload_applySnapshot happly
      · obtain ⟨⟨hrun, hhalted, hsound⟩, hsame⟩ := hreload
        have hkept : middle.undo.unpop snapshot = machine.undo := by rw [hrun.undo_eq, hring]
        cases hplay
        refine ⟨⟨⟨⟨hrun.story_eq, hrun.globals_eq⟩, hkept, hrun.options_eq⟩, hhalted, fun h => ?_⟩,
          fun hnot => ?_⟩
        · rcases hsound ⟨h.size_lt, h.storable, h.pc_lt⟩ with hover | hafter
          · exact .inl hover
          · exact .inr ⟨hafter.size_lt, hafter.storable, hafter.pc_lt⟩
        · obtain rfl := hsame hnot
          simp only [hkept]
      · obtain ⟨hgame, hsound, horderly⟩ := hreload
        cases hplay
        refine ⟨⟨hgame.story_eq, hgame.globals_eq⟩, fun hsize => ?_, horderly⟩
        have hafter := hsound hsize
        exact ⟨hafter.size_lt, hafter.storable, hafter.pc_lt⟩

end

end Play

end StoryMachine
