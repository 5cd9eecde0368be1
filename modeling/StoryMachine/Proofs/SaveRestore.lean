import StoryMachine.Proofs.Resuming

/-!
# A restored game goes on where it was saved

A `save` instruction writes a file and reports through its ending, a store variable or in
version 3 a branch, that it has saved: the result is 1.  Restoring the file finishes the
same instruction again, with the result 2.

The main statement is `restore_continues_save`.  It joins any machine that saves with any
later machine of the same image, reached in whatever way and by whatever hosts.
-/

namespace StoryMachine

variable {W V : Type}

namespace Play

open Machine

/-- What a `save` instruction writes to its file. -/
def gameFile (instruction : Instruction) : Play (StateM W) (List UInt8) := do
  capture instruction.result false (some (← remark))

/-- Saving the game writes what the instruction writes to its file, and reports on that. -/
theorem play_saveGame (host : Host (StateM W)) (machine : Machine) (w : W)
    (instruction : Instruction) :
    machine.play host (saveGame instruction) w
      = machine.play host (gameFile instruction >>= fun bytes => do
          let saved ← writeFile .saveGame bytes
          if !saved then note (.warning "game not saved")
          report instruction (if saved then 1 else 0)) w := by
  unfold saveGame gameFile
  rw [bind_assoc]

/-- A machine that saves its game: an instruction is fetched, `bytes` are written to the
file, and the result is delivered. -/
def SavesGame (host : Host (StateM W)) (machine : Machine) (w : W) (instruction : Instruction)
    (poised : Machine) (bytes : List UInt8) (after : Machine) : Prop :=
  machine.halted = none ∧ machine.resume = none ∧ ∃ operands v₁ v₂ v₃ w',
    machine.play host fetch w = ((.ok (instruction, operands), poised), v₁) ∧
    instruction.opcode = .save ∧ operands.length < 2 ∧
    poised.play host (gameFile instruction) v₁ = ((.ok bytes, poised), v₂) ∧
    poised.play host (writeFile .saveGame bytes) v₂ = ((.ok true, poised), v₃) ∧
    machine.play host step w = ((.ok (), after), w')

/-- The host has a save file with these bytes. -/
def Offers (host : Host (StateM V)) (v : V) (bytes : List UInt8) : Prop :=
  ∃ file v₁ v₂, host.openForRead .saveGame v = (some file, v₁) ∧
    host.readAll file v₁ = (.ok bytes, v₂)

/-- Restoring the host's save file is restoring its bytes. -/
theorem play_restore_of_offers {host : Host (StateM V)} {v : V} {bytes : List UInt8}
    (h : Offers host v bytes) (machine : Machine) :
    ∃ v', machine.play host restore v = machine.play host (restoreBytes bytes) v' := by
  obtain ⟨file, v₁, v₂, hopen, hread⟩ := h
  have hfile : machine.play host (readFile .saveGame) v = ((.ok (.ok bytes), machine), v₂) := by
    unfold readFile
    rw [play_bind, play_ask, hopen]
    dsimp only
    rw [play_bind, play_ask, hread]
    rfl
  refine ⟨v₂, ?_⟩
  rw [restore, play_bind_of_ok hfile, play_bind, play_ofExcept]

section

variable {host : Host (StateM W)} {machine poised after : Machine} {w : W}
  {instruction : Instruction} {bytes : List UInt8}

/-- A saving instruction delivers the result 1. -/
theorem concludes_of_savesGame (h : SavesGame host machine w instruction poised bytes after)
    {ending : Ending} (hending : instruction.ending? = some ending) :
    poised.CanConclude 1 ending ∧ after = poised.conclude 1 ending := by
  obtain ⟨-, hresume, operands, v₁, v₂, v₃, w', hfetch, hopcode, hfew, hfile, hwritten, hstep⟩ := h
  have hpoised := (fetched_of_play hfetch).poised_eq
  rw [play_step_of_fetch hresume, play_bind_of_ok hfetch] at hstep
  have hperform := play_perform_of_carryOut hstep
  rw [perform, play_bind_of_ok (play_get poised host v₁), hopcode] at hperform
  dsimp only at hperform
  rw [if_neg (Nat.not_le.mpr hfew), play_saveGame, play_bind_of_ok hfile,
    play_bind_of_ok hwritten] at hperform
  have hpc : poised.pc = instruction.next := by rw [hpoised]
  exact canConclude_of_report host v₃ hpc hending hperform

/-- The file holds a snapshot of the machine, taken when its operands were. -/
theorem bytes_of_savesGame (h : SavesGame host machine w instruction poised bytes after) :
    ∃ text, bytes
      = Snapshot.capture poised.memory poised.stack instruction.result false (some text) := by
  obtain ⟨-, -, operands, v₁, v₂, v₃, w', -, -, -, hfile, -, -⟩ := h
  obtain ⟨text, middle, v, hremark, hcapture⟩ := play_bind_ok hfile
  have hsame := reads_remark host poised v₁
  rw [hremark] at hsame
  obtain rfl : middle = poised := hsame
  obtain ⟨v', hplay⟩ := play_capture host middle v instruction.result false (some text)
  rw [hplay] at hcapture
  cases hcapture
  exact ⟨text, rfl⟩

end

end Play

namespace Machine

open Play

/-- In version 3 there is a branch at the end of a saving instruction. -/
theorem branch_of_read {memory : Memory} {result length : Nat} {ending : Ending}
    (h : Ending.read memory result = .ok (ending, length)) (hversion : memory.version = 3) :
    ∃ data, ending = .branch data := by
  rw [Ending.read, if_neg (by omega)] at h
  cases hbranch : Branch.decode memory result with
  | error fault =>
      rw [hbranch] at h
      cases h
  | ok pair =>
      rw [hbranch] at h
      exact ⟨pair.1, (Prod.mk.inj (Except.ok.inj h)).1.symm⟩

/-- Writing a variable does not move the machine. -/
theorem assign_pc (machine : Machine) (number : UInt8) (value : Word) :
    (machine.assign number value).pc = machine.pc := by
  unfold assign
  split
  · rfl
  split
  · rfl
  split <;> rfl

/-- Where a machine goes on does not depend on which of the two results it reports. -/
theorem conclude_two_pc (machine : Machine) (ending : Ending) :
    (machine.conclude 2 ending).pc = (machine.conclude 1 ending).pc := by
  cases ending with
  | store target => exact (machine.assign_pc target 2).trans (machine.assign_pc target 1).symm
  | branch data => rfl

/-- Being the same outlives a word that is written to both. -/
theorem stable_eq : Stable Eq := by
  rintro memory other address address' value h h' rfl rfl
  rfl

section

variable {image : Array UInt8} {machine poised after other : Machine} {host : Host (StateM W)}
  {w : W} {instruction : Instruction} {bytes : List UInt8}

/-- Machines that play the story of an image are in one game. -/
theorem sameGame_of_plays (h : machine.Plays image) (hother : other.Plays image) :
    SameGame machine other := by
  obtain ⟨memory, hmemory, hstory, hglobals⟩ := h
  obtain ⟨memory', hmemory', hstory', hglobals'⟩ := hother
  obtain rfl : memory = memory' := Except.ok.inj (hmemory.symm.trans hmemory')
  exact ⟨hstory'.trans hstory.symm, hglobals'.trans hglobals.symm⟩

/-- A machine that saves its game is in a state that can be gone back to. -/
theorem saving_of_savesGame (hsize : image.size < 0x1000000)
    (hreach : Reachable image (fun fault => fault.kind = .stackOverflow) machine)
    (hsaves : SavesGame host machine w instruction poised bytes after)
    (hpending : ∀ frame ∈ poised.stack.frames, frame.pending = none)
    (hextension : poised.memory.ExtensionApart)
    (hclear : ∀ i, instruction.result ≤ i → i < instruction.next →
      64 ≤ i ∧ ¬poised.memory.InExtension i) :
    ∃ ending length, instruction.ending? = some ending ∧
      poised.Saving instruction.result ending length := by
  obtain ⟨hhalted, -, operands, v₁, -, -, -, hfetch, hopcode, -⟩ := id hsaves
  have hfetched := fetched_of_play hfetch
  have hmemory : poised.memory = machine.memory := by rw [hfetched.poised_eq]
  have hpc : poised.pc = instruction.next := by rw [hfetched.poised_eq]
  have hsteady := hfetched.steady ((fit_of_reachable hsize hreach).sound hhalted)
  obtain ⟨ending, length, hread, hending, hnext⟩ :=
    Ending.read_of_decode hfetched.decode_eq (.inl hopcode)
  rw [← hmemory] at hread
  rw [hnext] at hclear hpc
  exact ⟨ending, length, hending, hsteady.size_lt, hsteady.storable, hpending, hread, hpc,
    (concludes_of_savesGame hsaves hending).1, hextension, hclear⟩

/-- A machine that saves its game still plays the story of its image. -/
theorem plays_of_savesGame
    (hapart : ∀ memory, Memory.ofImage image = .ok memory → memory.ExtensionApart)
    {ruledOut : Fault → Prop} (hreach : Reachable image ruledOut machine)
    (hsaves : SavesGame host machine w instruction poised bytes after) : poised.Plays image := by
  obtain ⟨-, -, operands, v₁, -, -, -, hfetch, -⟩ := hsaves
  exact (plays_of_reachable hapart hreach).sameGame (fetched_of_play hfetch).sameRun.toSameGame

end

/-- **A restore continues the save.**  Whatever machine of an image saves its game, and
whatever machine of that image restores the file: restoring succeeds, and leaves the stack,
the place and the memory of the machine right after it had saved, except that memory is
readied first and that a store variable receives 2 instead of 1.  In version 3 nothing but
memory tells them apart.

The ending of the instruction has to lie outside the header and its extension table, and no
machine may have been left with an overrun stack before it saved. -/
theorem restore_continues_save {image : Array UInt8} {machine poised after later : Machine}
    {instruction : Instruction} {bytes : List UInt8} {ready : Memory}
    (host : Host (StateM W)) (w : W) (host' : Host (StateM V)) (v : V)
    (hsize : image.size < 0x1000000)
    (hapart : ∀ memory, Memory.ofImage image = .ok memory → memory.ExtensionApart)
    (hreach : Reachable image (fun fault => fault.kind = .stackOverflow) machine)
    (hsaves : SavesGame host machine w instruction poised bytes after)
    (hpending : ∀ frame ∈ poised.stack.frames, frame.pending = none)
    (hextension : poised.memory.ExtensionApart)
    (hclear : ∀ i, instruction.result ≤ i → i < instruction.next →
      64 ≤ i ∧ ¬poised.memory.InExtension i)
    (hlength : bytes.length < 0x100000008)
    (hlater : Reachable image (fun _ => False) later)
    (hidentity : Snapshot.identity later.memory = Snapshot.identity poised.memory)
    (hready : later.Readied poised.memory ready) (hoffers : Offers host' v bytes) :
    ∃ ending back v', instruction.ending? = some ending ∧ after = poised.conclude 1 ending ∧
      later.play host' restore v = ((.ok (), back), v') ∧ back.pc = after.pc ∧
      back.stack = ({ poised with memory := ready }.conclude 2 ending).stack ∧
      back.memory = ({ poised with memory := ready }.conclude 2 ending).memory ∧
      (poised.memory.version = 3 → back.stack = after.stack ∧
        back.memory = ({ poised with memory := ready }.conclude 1 ending).memory) := by
  obtain ⟨ending, length, hending, hsaving⟩ :=
    saving_of_savesGame hsize hreach hsaves hpending hextension hclear
  obtain ⟨-, hafter⟩ := concludes_of_savesGame hsaves hending
  obtain ⟨text, rfl⟩ := bytes_of_savesGame hsaves
  have hgame : SameGame poised later :=
    sameGame_of_plays (plays_of_savesGame hapart hreach hsaves) (plays_of_reachable hapart hlater)
  obtain ⟨v₁, hrestore⟩ := play_restore_of_offers hoffers later
  obtain ⟨v₂, happly⟩ := play_applySnapshot_capture host' v₁ hsaving hgame hidentity hready false
    (some text) hlength
  have hback : Alike Eq { poised with memory := ready }
      { later.reloaded ready poised.stack with pc := poised.pc } :=
    ⟨rfl, rfl, hgame.globals_eq, rfl, rfl⟩
  have hback := hback.conclude stable_eq 2 ending
  have hstory : ready.story = poised.memory.story :=
    (sameOff_readied hextension hready).story_eq
  have hsaved : Alike (fun _ _ => True) poised { poised with memory := ready } :=
    ⟨trivial, hstory, rfl, rfl, rfl⟩
  have hsaved := hsaved.conclude (fun _ _ _ _ _ => trivial) 1 ending
  refine ⟨ending, { later.resumed ready poised ending with halted := none }, v₂, hending, hafter,
    ?_, ?_, hback.stack_eq, hback.memory_rel.symm, ?_⟩
  · rw [hrestore, restoreBytes, play_bind_of_ok happly, play_modify]
  · rw [hafter]
    exact hback.pc_eq.trans ((conclude_two_pc _ ending).trans hsaved.pc_eq)
  · intro hversion
    obtain ⟨data, rfl⟩ := branch_of_read hsaving.read_eq hversion
    rw [hafter]
    exact ⟨hback.stack_eq.trans hsaved.stack_eq, hback.memory_rel.symm⟩

/-! ## A save that returns, and one that cannot be restored -/

/-- A host whose world is one file. -/
def filing : Host (StateM (List UInt8)) :=
  { Host.plain (fun _ => pure ()) (fun _ _ _ _ => pure (.done "" 13)) (fun _ => pure (.key 13)) with
    openForRead := fun _ => pure (some ⟨0⟩)
    readAll := fun _ => return .ok (← get)
    openForWrite := fun _ => pure (some ⟨0⟩)
    write := fun _ bytes => do
      set bytes
      return .ok () }

/-- A machine after a step. -/
def next (machine : Machine) : Machine := (machine.play filing step []).1.2

/-- A machine behind the instruction that it fetches. -/
def poised (machine : Machine) : Machine := (machine.play filing fetch []).1.2

/-- What it then writes to its file. -/
def written (machine : Machine) (instruction : Instruction) : List UInt8 :=
  (machine.poised.play filing (gameFile instruction)
    (machine.play filing fetch []).2).1.1.toOption.getD []

section

variable {machine : Machine} {instruction : Instruction} {image : Array UInt8}
  {ruledOut : Fault → Prop}

/-- The machine after a step that went well is reachable. -/
theorem reachable_next (hreach : Reachable image ruledOut machine)
    (hhalted : machine.halted = none)
    (hok : (machine.play filing step []).1.1.toOption = some ()) :
    Reachable image ruledOut machine.next := by
  obtain ⟨v, hone⟩ := execute_succ_of_play 0 hhalted (play_eq_of_toOption hok)
  obtain ⟨event, hzero⟩ := @execute_zero _ filing machine.next v
  exact hreach.execute (hone.trans hzero)

/-- That a machine saves its game can be found out by running it. -/
theorem savesGame_filing (hhalted : machine.halted = none) (hresume : machine.resume = none)
    (hfetch : (machine.play filing fetch []).1.1.toOption = some (instruction, []))
    (hopcode : instruction.opcode = .save)
    (hfile : (machine.poised.play filing (gameFile instruction)
      (machine.play filing fetch []).2).1.1.toOption = some (machine.written instruction))
    (hok : (machine.play filing step []).1.1.toOption = some ()) :
    SavesGame filing machine [] instruction machine.poised (machine.written instruction)
      machine.next := by
  have hreads : Reads (gameFile instruction : Play (StateM (List UInt8)) (List UInt8)) :=
    reads_remark.bind fun _ => reads_capture _ _ _
  have hgame := play_eq_of_toOption hfile
  rw [hreads filing machine.poised _] at hgame
  exact ⟨hhalted, hresume, [], _, _, _, _, play_eq_of_toOption hfetch, hopcode, by decide, hgame,
    rfl, play_eq_of_toOption hok⟩

/-- The host whose world is one file has it as its save file. -/
theorem offers_filing (bytes : List UInt8) : Offers filing bytes bytes :=
  ⟨⟨0⟩, bytes, bytes, rfl, rfl⟩

end

/-- In version 3, a call of a routine that saves and, if that goes well, returns true to a
global variable. -/
def savingRoutine : Array UInt8 :=
  ([3, 0, 0, 7, 0, 0, 0, 72, 0, 0, 0, 0, 0, 64, 0, 72] ++ List.replicate 56 (0 : UInt8)
    ++ [0xe0, 0x3f, 0, 39, 16, 0xba, 0, 0xb5, 0xc1]).toArray

/-- The machine in the routine. -/
def saver : Machine :=
  ((create filing savingRoutine {} []).1.toOption.get rfl).next

def saveInstruction : Instruction :=
  (Instruction.decode saver.memory saver.pc).toOption.get rfl

/-- The machine in the saving routine is reachable. -/
theorem reachable_saver (ruledOut : Fault → Prop) : Reachable savingRoutine ruledOut saver :=
  reachable_next (@Reachable.create savingRoutine ruledOut _ filing {} [] [] _ rfl)
    (by decide +kernel) (by decide +kernel)

/-- The game that was saved in the routine is restored after the story has quit.  It goes on
behind the call, the routine having returned once more. -/
theorem restore_continues_save_returned : saver.next.next.halted = some .quit ∧ ∃ back v',
    saver.next.next.play filing restore (saver.written saveInstruction) = ((.ok (), back), v') ∧
      back.pc = saver.next.pc ∧ back.stack = saver.next.stack := by
  have hapart : ∀ memory, Memory.ofImage savingRoutine = .ok memory → memory.ExtensionApart := by
    intro memory hmemory
    have hversion : (Memory.ofImage savingRoutine).map Memory.version = .ok 3 := rfl
    rw [hmemory] at hversion
    have hthree : memory.version = 3 := Except.ok.inj hversion
    exact .inl (by omega)
  have hsaves : SavesGame filing saver [] saveInstruction saver.poised
      (saver.written saveInstruction) saver.next :=
    savesGame_filing (by decide +kernel) (by decide +kernel) (by decide +kernel)
      (by decide +kernel) (by decide +kernel) (by decide +kernel)
  have hlater : Reachable savingRoutine (fun _ => False) saver.next.next :=
    reachable_next (reachable_next (reachable_saver _) (by decide +kernel) (by decide +kernel))
      (by decide +kernel) (by decide +kernel)
  have hpending : ∀ frame ∈ saver.poised.stack.frames, frame.pending = none := by decide +kernel
  have hthree : saver.poised.memory.version = 3 := by decide +kernel
  have hclear : ∀ i, saveInstruction.result ≤ i → i < saveInstruction.next →
      64 ≤ i ∧ ¬saver.poised.memory.InExtension i := by
    intro i hle hlt
    refine ⟨Nat.le_trans (by decide +kernel) hle, Memory.not_inExtension_of_eq_zero ?_ i⟩
    decide +kernel
  have hsetUp : ((Header.setUp saver.next.next.info saver.next.next.options).run
      saver.poised.memory).1.toOption = some () := by decide +kernel
  obtain ⟨ending, back, v', -, -, hrestore, hpc, -, -, hstack⟩ :=
    restore_continues_save filing [] filing _ (by decide) hapart (reachable_saver _) hsaves
      hpending (.inl (by omega)) hclear (by decide +kernel) hlater (by decide +kernel)
      ⟨_, eq_of_toOption hsetUp, rfl⟩ (offers_filing _)
  exact ⟨by decide +kernel, back, v', hrestore, hpc, (hstack hthree).1⟩

/-- In version 5, a `save` whose store variable is in a field of the extension table, where
the story has put it just before. -/
def savingInTable : Array UInt8 :=
  ([5, 0, 0, 7, 0, 0, 0, 0x60, 0, 0, 0, 0, 0, 0x40, 0, 0x60] ++ List.replicate 38 (0 : UInt8)
    ++ [0, 0x50] ++ List.replicate 24 0 ++ [0, 6, 0, 0, 0, 0, 0, 0, 0xbe, 0] ++ List.replicate 6 0
    ++ [0xe1, 0x53, 0x5a, 0, 0xff, 0x10, 0x8c, 0xff, 0xf1]).toArray

theorem creates_savingInTable : (create filing savingInTable {} []).1.toOption.isSome = true := by
  decide +kernel

/-- The machine that is about to save. -/
def tableSaver : Machine :=
  ((create filing savingInTable {} []).1.toOption.get creates_savingInTable).next.next

theorem decodes_tableSaver :
    (Instruction.decode tableSaver.memory tableSaver.pc).toOption.isSome = true := by
  decide +kernel

def tableInstruction : Instruction :=
  (Instruction.decode tableSaver.memory tableSaver.pc).toOption.get decodes_tableSaver

/-- Setting up the header overwrites the store variable, and so a restore right after the save
fails. -/
theorem restore_fails_in_table :
    savingInTable.size < 0x1000000 ∧ Reachable savingInTable (fun _ => True) tableSaver ∧
      SavesGame filing tableSaver [] tableInstruction tableSaver.poised
        (tableSaver.written tableInstruction) tableSaver.next ∧
      (∀ frame ∈ tableSaver.poised.stack.frames, frame.pending = none) ∧
      64 ≤ tableSaver.globals ∧ 64 ≤ tableSaver.pc ∧
      tableSaver.poised.memory.ExtensionApart ∧
      Snapshot.identity tableSaver.next.memory = Snapshot.identity tableSaver.poised.memory ∧
      (∃ ready, tableSaver.next.Readied tableSaver.poised.memory ready) ∧
      ∃ fault back v', tableSaver.next.play filing restore (tableSaver.written tableInstruction)
        = ((.error fault, back), v') := by
  have hcreate : create filing savingInTable {} []
      = (.ok ((create filing savingInTable {} []).1.toOption.get creates_savingInTable),
        (create filing savingInTable {} []).2) :=
    eq_of_toOption (Option.some_get creates_savingInTable).symm
  have hreach : Reachable savingInTable (fun _ => True) tableSaver :=
    reachable_next (reachable_next (.create hcreate) (by decide +kernel) (by decide +kernel))
      (by decide +kernel) (by decide +kernel)
  have hsaves : SavesGame filing tableSaver [] tableInstruction tableSaver.poised
      (tableSaver.written tableInstruction) tableSaver.next :=
    savesGame_filing (by decide +kernel) (by decide +kernel) (by decide +kernel)
      (by decide +kernel) (by decide +kernel) (by decide +kernel)
  have hsetUp : ((Header.setUp tableSaver.next.info tableSaver.next.options).run
      tableSaver.poised.memory).1.toOption = some () := by decide +kernel
  have hfails : (tableSaver.next.play filing restore
      (tableSaver.written tableInstruction)).1.1.toOption = none := by decide +kernel
  refine ⟨by decide, hreach, hsaves, by decide +kernel, by decide +kernel, by decide +kernel,
    .inr (.inr (by decide +kernel)), by decide +kernel, ⟨_, _, eq_of_toOption hsetUp, rfl⟩, ?_⟩
  rcases hrestore : tableSaver.next.play filing restore (tableSaver.written tableInstruction)
    with ⟨⟨fault | _, back⟩, v'⟩
  · exact ⟨fault, back, v', rfl⟩
  · rw [hrestore] at hfails
    exact nomatch hfails

end Machine

end StoryMachine
