import StoryMachine.Machine.Saving
import StoryMachine.Proofs.CheckedPrinting
import StoryMachine.Proofs.CheckedTables
import StoryMachine.Proofs.Restoring

/-!
# Saving and restoring with checked positions

A machine goes back to a snapshot after the snapshot has been parsed, and finishes the
instruction that made it: the variable or the branch of that instruction is read where the
snapshot says, and the place behind it is a sum.

None of this prints.  An attempt to go back that fails therefore costs no stream anything, and
the instruction that made the attempt can report it from a machine that is as roomy as before
(`accompanies_tryCatch`).
-/

namespace StoryMachine.CheckedPlay

open Checked

variable {W α : Type} {b cost : Nat}

/-- Makes a snapshot of the machine. -/
def capture (pc : Nat) (compressed : Bool) (remark : Option String) :
    CheckedPlay W (List UInt8) := do
  let machine ← get
  let snapshot ← CheckedHosted.compute
    (CheckedSnapshot.capture machine.memory machine.stack pc compressed remark)
  note (Snapshot.capturedNotice snapshot pc)
  return snapshot

/-- Finishes the instruction that made a snapshot as if it had just returned 2. -/
def completeRestore (result : Nat) : CheckedPlay W Unit := do
  if 4 ≤ (← look fun memory => pure memory.version) then
    let target ← look fun memory => inRange (memory.readByte result)
    let next ← sum result 1
    setPc next
    writeVariable target 2
  else
    let (branch, length) ← look (Branch.decodeAt · result)
    let next ← sum result length
    setPc next
    if branch.condition then
      let target ← branch.targetAt next
      jump target

/-- What is done with an accepted snapshot. -/
def goBack (restored : Restored) : CheckedPlay W Unit := do
  let machine ← get
  let kept := Play.keptFlags machine.memory
  let memory ← CheckedHosted.compute (machine.memory.setDynamicAt restored.dynamic)
  CheckedHosted.whole (set { machine with memory })
  edit (CheckedHeader.setUp machine.info machine.options)
  edit (CheckedWork.whole (Edit.change (Play.restoreFlags kept)))
  change fun machine =>
    { machine with stack := restored.stack, resume := none, dictionaries := {} }
  note (.remark s!"restored to {Numeral.marked 5 restored.pc}")
  completeRestore restored.pc

/-- Checks a snapshot and goes back to it. -/
def applySnapshot (bytes : List UInt8) : CheckedPlay W Unit := do
  if let some notice := Snapshot.surplusNotice? bytes then note notice
  let restored ← look (CheckedSnapshot.parse bytes)
  goBack restored

/-- Restores a snapshot. -/
def restoreBytes (bytes : List UInt8) : CheckedPlay W Unit := do
  applySnapshot bytes
  change fun machine => { machine with halted := none }

/-- The contents of the host's save file. -/
def readSave : CheckedPlay W (List UInt8) := do
  let file ← CheckedHosted.whole (Play.readFile .saveGame)
  CheckedHosted.compute (inRange file)

/-- Restores the host's save file. -/
def restore : CheckedPlay W Unit := do
  let bytes ← readSave
  restoreBytes bytes

/-- Goes back to the newest undo generation.  One that cannot be restored is kept. -/
def undo : CheckedPlay W Unit := do
  match (← get).undo.pop? with
  | none => throw { kind := .nothingToUndo }
  | some (snapshot, ring) =>
    change fun machine => { machine with undo := ring }
    try
      applySnapshot snapshot
    catch fault =>
      change fun machine => { machine with undo := machine.undo.unpop snapshot }
      throw fault
    change fun machine => { machine with halted := none }

/-- The remark in a save file. -/
def remark : CheckedPlay W String := do
  let version ← look fun memory => pure memory.version
  let stamp ← ask (·.shortTime)
  let text := s!"zcode 0.1.0; version {version} story; saved {stamp}"
  if 3 < version then return text
  try
    match (← statusLine).right with
    | .score score moves => return text ++ s!"; score {score} in {moves} moves"
    | .time hours minutes => return text ++ s!"; time {hours}:" ++ Numeral.decimal 2 minutes.toNat
  catch fault =>
    note (.remark s!"no status for annotation: {fault.message}")
    return text

/-- Saves the game to the host's save file. -/
def saveGame (instruction : Instruction) : CheckedPlay W Unit := do
  let text ← remark
  let snapshot ← capture instruction.result false (some text)
  let saved ← CheckedHosted.whole (Play.writeFile .saveGame snapshot)
  if !saved then note (.warning "game not saved")
  report instruction (if saved then 1 else 0)

/-- Restores the game from the host's save file. -/
def restoreGame (instruction : Instruction) : CheckedPlay W Unit := do
  try
    let bytes ← readSave
    applySnapshot bytes
  catch fault =>
    if fault.isFatal then throw fault
    else
      note (.warning s!"restore failed: {fault.message}")
      report instruction 0

/-- Saves part of memory to an auxiliary file. -/
def saveAuxiliary (table length : Word) : CheckedPlay W Word := do
  let bytes ← look (·.sliceAt table.toNat length.toNat)
  if ← CheckedHosted.whole (Play.writeFile .auxiliary bytes) then return length else return 0

/-- Restores part of memory from an auxiliary file. -/
def restoreAuxiliary (table length : Word) : CheckedPlay W Word := do
  match ← CheckedHosted.whole (Play.readFile .auxiliary) with
  | .error fault =>
    note (.warning s!"auxiliary restore failed: {fault.message}")
    return 0
  | .ok bytes =>
    let kept ← cut bytes 0 (min bytes.length length.toNat)
    edit (CheckedEdit.writeBytes table.toNat 0 kept)
    return kept.length.toUInt16

/-- Keeps a new undo generation. -/
def saveUndo (instruction : Instruction) : CheckedPlay W Unit := do
  let machine ← get
  let snapshot ← capture instruction.result machine.options.compressUndo none
  note (.remark s!"undo generation of {snapshot.length} bytes")
  change fun machine => { machine with undo := machine.undo.push snapshot }
  store instruction (if machine.undo.isEnabled then 1 else 0xffff)

/-- Goes back to the newest undo generation, if there is one. -/
def restoreUndo (instruction : Instruction) : CheckedPlay W Unit := do
  try
    undo
  catch fault =>
    if fault.isFatal then throw fault
    else
      note (.warning s!"undo failed: {fault.message}")
      store instruction 0

/-- Starts the story: at an address, or in version 6 with a routine. -/
def start : CheckedPlay W Unit := do
  change fun machine => { machine with stack := {} }
  let machine ← get
  let initial := machine.memory.headerWord .initialPC
  if machine.memory.version = 6 then
    let story := machine.memory.story
    let main ← CheckedHosted.compute (story.unpackAt initial story.routineOffset)
    let first ← onStack (CheckedStack.call machine.memory main [] 0 none none)
    setPc first
  else setPc initial.toNat

/-- Starts the story again. -/
def restart : CheckedPlay W Unit := do
  let machine ← get
  let kept := Play.keptFlags machine.memory
  let info ← ask (·.info)
  let _ ← look (·.resetAt)
  change fun machine => { machine with memory := machine.memory.reset, info }
  let machine ← get
  edit (CheckedHeader.setUp info machine.options)
  edit (CheckedWork.whole (Edit.change (Play.restoreFlags kept)))
  change fun machine => { machine with
    streams := machine.streams.resetRedirection, dictionaries := {}, resume := none,
    halted := none }
  note (.remark "restart")
  start

/-! ## Going back -/

/-- A fault that is caught may not have cost a stream anything. -/
theorem accompanies_tryCatch {P : α → Prop} {checked : CheckedPlay W α} {work : Play (StateM W) α}
    {handler : Fault → CheckedPlay W α} {handler' : Fault → Play (StateM W) α}
    (h : Accompanies (Machine.upkeep b 0) checked work P)
    (hhandler : ∀ fault, Accompanies (Machine.upkeep b cost) (handler fault) (handler' fault) P) :
    Accompanies (Machine.upkeep b cost) (tryCatch checked handler) (tryCatch work handler') P := by
  intro host machine w hroomy
  obtain ⟨hsame, hleaves⟩ := h host machine w hroomy
  have hon : Hosted.on work host machine w = machine.play host work w := rfl
  have htry : Hosted.on (tryCatch work handler') host machine w
      = machine.play host (tryCatch work handler') w := rfl
  rw [CheckedHosted.on_tryCatch, hsame, Option.bind_some, htry, Machine.play_tryCatch, hon]
  rw [hon] at hleaves
  rcases hwork : (machine.play host work w : Played W α) with ⟨⟨fault | a, middle⟩, v⟩
  · rw [hwork] at hleaves
    exact hhandler fault host middle v hleaves
  · rw [hwork] at hleaves
    exact ⟨rfl, hleaves⟩

/-- A snapshot is made with every number that it records in its range. -/
theorem accompanies_capture (pc : Nat) (compressed : Bool) (remark : Option String) :
    Accompanies (Machine.upkeep b cost) (capture pc compressed remark : CheckedPlay W (List UInt8))
      (Play.capture pc compressed remark) := by
  refine Accompanies.get.bind fun machine hroomy => ?_
  refine .computed (CheckedSnapshot.capture_eq _ hroomy.stack pc compressed remark) ?_
  exact (accompanies_note _).bind fun _ _ => .pure trivial

/-- An instruction that made a snapshot is finished within memory. -/
theorem accompanies_completeRestore (result : Nat) :
    Accompanies (Machine.upkeep b cost) (completeRestore result : CheckedPlay W Unit)
      (Play.completeRestore result) := by
  refine (accompanies_view fun _ _ => rfl).bind fun version _ => ?_
  refine .ite (fun _ => ?_) fun _ => ?_
  · refine .bind (accompanies_look (fun memory _ => rfl) fun memory target hroom hread =>
      Nat.lt_trans (Memory.lt_of_readByte hread) (size_lt hroom)) fun target hresult => ?_
    rw [sum_of_lt (by omega), pure_bind]
    exact (accompanies_setPc _).bind fun _ _ => accompanies_writeVariable target 2
  · refine .bind (accompanies_look (P := fun pair => result + pair.2 + 0x8000 ≤ 2 ^ 63
        ∧ -0x2000 ≤ pair.1.offset ∧ pair.1.offset < 0x2000)
      (fun memory hroom => Branch.decodeAt_eq hroom result) fun memory pair hroom hdecode => ?_)
      fun (branch, length) ⟨hnext, hlow, hhigh⟩ => ?_
    · have hsize : memory.size + 0x8000 ≤ 2 ^ 63 := hroom
      have hend := (Branch.length_of_decode hdecode).2.2
      exact ⟨by omega, Branch.offset_of_decode hdecode⟩
    · dsimp only at hnext hlow hhigh ⊢
      rw [sum_of_lt (by omega), pure_bind]
      refine (accompanies_setPc _).bind fun _ _ => .ite (fun _ => ?_) fun _ => .pure trivial
      rw [Branch.targetAt_eq hnext hlow hhigh, pure_bind]
      exact accompanies_jump _

/-- The flags that are kept are in the header, which no address is out of range for. -/
theorem accompanies_restoreFlags (kept : Word) :
    Accompanies (Machine.upkeep b cost)
      (edit (CheckedWork.whole (Edit.change (Play.restoreFlags kept))) : CheckedPlay W Unit)
      (Play.edit (Edit.change (Play.restoreFlags kept))) :=
  accompanies_edit (CheckedEdit.follows_whole (Edit.keepsStory_change fun _ => rfl))

/-- A machine goes back to an accepted snapshot with addresses in their range. -/
theorem accompanies_goBack {restored : Restored} (hsteady : restored.stack.Steady) :
    Accompanies (Machine.upkeep b cost) (goBack restored : CheckedPlay W Unit)
      (Play.goBack restored) := by
  refine Accompanies.get.bind fun machine hroomy => ?_
  refine .bind (.compute (P := fun memory => memory.Addressable)
    (machine.memory.setDynamicAt_eq restored.dynamic) fun memory hmemory =>
    hroomy.memory.congr (Play.story_of_setDynamic hmemory)) fun memory hmemory => ?_
  refine .bind (P := fun _ => True) (.whole fun host _ w _ => ⟨{ hroomy with memory := hmemory },
    trivial⟩) fun _ _ => ?_
  refine (accompanies_edit (CheckedHeader.follows_setUp _ _)).bind fun _ _ => ?_
  refine (accompanies_restoreFlags _).bind fun _ _ => ?_
  refine .bind (accompanies_change fun machine hroomy => ?_) fun _ _ => ?_
  · exact { hroomy with stack := hsteady, resume := fun _ _ h => nomatch h }
  · exact (accompanies_note _).bind fun _ _ => accompanies_completeRestore _

/-- A machine goes back to any snapshot with addresses in their range. -/
theorem accompanies_applySnapshot (bytes : List UInt8) :
    Accompanies (Machine.upkeep b cost) (applySnapshot bytes : CheckedPlay W Unit)
      (Play.applySnapshot bytes) := by
  have hparsed : Accompanies (Machine.upkeep b cost)
      (look (CheckedSnapshot.parse bytes) >>= goBack : CheckedPlay W Unit)
      (Play.look (Snapshot.parse bytes) >>= Play.goBack) :=
    .bind (accompanies_look (fun memory _ => CheckedSnapshot.parse_eq)
      fun memory restored _ hparse => CheckedSnapshot.steady_of_parse hparse)
        fun restored hsteady => accompanies_goBack hsteady
  unfold applySnapshot Play.applySnapshot
  cases Snapshot.surplusNotice? bytes with
  | none => exact hparsed
  | some notice => exact (accompanies_note notice).bind fun _ _ => hparsed

/-- A machine that goes on after a halt is as roomy as before. -/
theorem accompanies_goOn :
    Accompanies (Machine.upkeep b cost)
      (change fun machine => { machine with halted := none } : CheckedPlay W PUnit)
      (modify fun machine => { machine with halted := none }) :=
  accompanies_change fun _ hroomy => { hroomy with }

/-- Bytes are restored with addresses in their range. -/
theorem accompanies_restoreBytes (bytes : List UInt8) :
    Accompanies (Machine.upkeep b cost) (restoreBytes bytes : CheckedPlay W Unit)
      (Play.restoreBytes bytes) :=
  (accompanies_applySnapshot bytes).bind fun _ _ => accompanies_goOn

/-- Files are the host's. -/
theorem maintains_readFile {P : Machine → Prop} (purpose : Purpose) :
    Hosted.Maintains P (Play.readFile purpose : Play (StateM W) (Except Fault (List UInt8))) := by
  refine .bind (maintains_ask _) fun file => ?_
  cases file with
  | none => exact .pure _
  | some file =>
      refine .bind (maintains_ask _) fun bytes => ?_
      cases bytes with
      | ok bytes => exact .pure _
      | error detail => exact .pure _

/-- Writing a file maintains every fact about the machine. -/
theorem maintains_writeFile {P : Machine → Prop} (purpose : Purpose) (bytes : List UInt8) :
    Hosted.Maintains P (Play.writeFile purpose bytes : Play (StateM W) Bool) := by
  refine .bind (maintains_ask _) fun file => ?_
  cases file with
  | none => exact .pure false
  | some file =>
      refine .bind (maintains_ask _) fun written => ?_
      cases written with
      | ok _ =>
          refine .bind (maintains_ask _) fun stored => ?_
          cases stored with
          | ok _ => exact .pure true
          | error text => exact .bind (maintains_ask _) fun _ => .pure false
      | error text =>
          simp only [pure_bind]
          exact .bind (maintains_ask _) fun _ => .pure false

/-- The save file is read by the host. -/
theorem accompanies_readSave :
    Accompanies (Machine.upkeep b cost) (readSave : CheckedPlay W (List UInt8))
      (do MonadExcept.ofExcept (← Play.readFile .saveGame)) :=
  (Accompanies.maintained (maintains_readFile _)).bind fun _ _ => .compute rfl fun _ _ => trivial

/-- The file of the host is restored with addresses in their range. -/
theorem accompanies_restore :
    Accompanies (Machine.upkeep b cost) (restore : CheckedPlay W Unit) Play.restore := by
  rw [Play.restore, ← bind_assoc]
  exact accompanies_readSave.bind fun bytes _ => accompanies_restoreBytes bytes

/-- Undoing goes back with addresses in their range, and puts a generation back otherwise. -/
theorem accompanies_undo :
    Accompanies (Machine.upkeep b cost) (undo : CheckedPlay W Unit) Play.undo := by
  refine Accompanies.get.bind fun machine _ => ?_
  cases machine.undo.pop? with
  | none => exact .throw _
  | some pair =>
      refine .bind (accompanies_change fun machine hroomy => ?_) fun _ _ => ?_
      · exact { hroomy with }
      refine .bind (accompanies_tryCatch (accompanies_applySnapshot pair.1) fun fault => ?_)
        fun _ _ => accompanies_goOn
      refine .bind (accompanies_change fun machine hroomy => ?_) fun _ _ => .throw fault
      exact { hroomy with }

/-! ## Saving -/

/-- A status line that cannot be had is left out of a remark. -/
theorem accompanies_remark :
    Accompanies (Machine.upkeep b cost) (remark : CheckedPlay W String) Play.remark := by
  refine (accompanies_view fun _ _ => rfl).bind fun version _ => ?_
  refine (accompanies_ask _).bind fun stamp _ => ?_
  refine .ite (fun _ => .pure trivial) fun _ => ?_
  refine .bind (P := fun _ => True) (accompanies_tryCatch ?_ fun fault => ?_) fun early _ => ?_
  · refine accompanies_statusLine.bind fun status _ => ?_
    cases status.right with
    | score score moves => exact .pure (a := Except.error _) trivial
    | time hours minutes => exact .pure (a := Except.error _) trivial
  · exact (accompanies_note _).bind fun _ _ => .pure (a := Except.error _) trivial
  · cases early <;> exact .pure trivial

/-- The game is saved with every number that it records in its range. -/
theorem accompanies_saveGame {instruction : Instruction} (hfits : instruction.Fits) :
    Accompanies (Machine.upkeep b cost) (saveGame instruction : CheckedPlay W Unit)
      (Play.saveGame instruction) := by
  refine accompanies_remark.bind fun text _ => (accompanies_capture _ _ _).bind fun snapshot _ => ?_
  refine (Accompanies.maintained (maintains_writeFile _ _)).bind fun saved _ => ?_
  refine .ite (fun _ => ?_) fun _ => accompanies_report hfits _
  exact (accompanies_note _).bind fun _ _ => accompanies_report hfits _

/-- The game is restored with addresses in their range, or the failure reported. -/
theorem accompanies_restoreGame {instruction : Instruction} (hfits : instruction.Fits) :
    Accompanies (Machine.upkeep b cost) (restoreGame instruction : CheckedPlay W Unit)
      (Play.restoreGame instruction) := by
  rw [Play.restoreGame, ← bind_assoc]
  exact accompanies_tryCatch (accompanies_readSave.bind fun bytes _ =>
    accompanies_applySnapshot bytes) fun fault => .ite (fun _ => .throw fault) fun _ =>
      (accompanies_note _).bind fun _ _ => accompanies_report hfits 0

/-- Part of memory is saved from a slice whose end is in its range. -/
theorem accompanies_saveAuxiliary (table length : Word) :
    Accompanies (Machine.upkeep b cost) (saveAuxiliary table length : CheckedPlay W Word)
      (Play.saveAuxiliary table length) := by
  have htable := table.toNat_lt
  have hlength := length.toNat_lt
  refine (accompanies_read fun memory _ => Memory.sliceAt_eq (by omega)).bind fun bytes _ => ?_
  refine (Accompanies.maintained (maintains_writeFile _ _)).bind fun saved _ => ?_
  exact .ite (fun _ => .pure trivial) fun _ => .pure trivial

/-- No more of a file is restored than it has. -/
theorem accompanies_restoreAuxiliary (table length : Word) :
    Accompanies (Machine.upkeep b cost) (restoreAuxiliary table length : CheckedPlay W Word)
      (Play.restoreAuxiliary table length) := by
  have htable := table.toNat_lt
  refine (Accompanies.maintained (maintains_readFile _)).bind fun file _ => ?_
  cases file with
  | error fault => exact (accompanies_note _).bind fun _ _ => .pure trivial
  | ok bytes =>
      have hkept : (bytes.drop 0).take (min bytes.length length.toNat - 0)
          = bytes.take length.toNat := by
        rw [List.drop_zero, Nat.sub_zero, Nat.min_comm, ← List.take_take, List.take_length]
      dsimp only
      rw [cut_of_le (Nat.zero_le _) (Nat.min_le_left _ _), pure_bind, hkept]
      exact (accompanies_edit (CheckedEdit.follows_writeBytes (by omega) _)).bind fun _ _ =>
        .pure trivial

/-- An undo generation is kept with every number that it records in its range. -/
theorem accompanies_saveUndo (instruction : Instruction) :
    Accompanies (Machine.upkeep b cost) (saveUndo instruction : CheckedPlay W Unit)
      (Play.saveUndo instruction) := by
  refine Accompanies.get.bind fun machine _ => (accompanies_capture _ _ _).bind fun snapshot _ => ?_
  refine (accompanies_note _).bind fun _ _ => ?_
  refine .bind (accompanies_change fun machine hroomy => ?_) fun _ _ => accompanies_store _ _
  exact { hroomy with }

/-- Undoing for the story reports its failure. -/
theorem accompanies_restoreUndo (instruction : Instruction) :
    Accompanies (Machine.upkeep b cost) (restoreUndo instruction : CheckedPlay W Unit)
      (Play.restoreUndo instruction) :=
  accompanies_tryCatch accompanies_undo fun fault => .ite (fun _ => .throw fault) fun _ =>
    (accompanies_note _).bind fun _ _ => accompanies_store _ _

/-! ## Starting -/

/-- A call stack with the main routine alone is steady. -/
theorem steady_begin : CallStack.Steady {} := by
  refine ⟨Play.storable_empty.covered, fun frame hframe => ?_⟩
  obtain rfl : frame = {} := List.mem_singleton.mp hframe
  exact ⟨by decide, fun _ h => nomatch h⟩

/-- A story starts at an address in its range. -/
theorem accompanies_start :
    Accompanies (Machine.upkeep b cost) (start : CheckedPlay W Unit) Play.start := by
  refine .bind (accompanies_change fun machine hroomy => ?_) fun _ _ => ?_
  · exact { hroomy with stack := steady_begin }
  refine Accompanies.get.bind fun machine hroomy => .ite (fun _ => ?_) fun _ => accompanies_setPc _
  refine .computed (Story.unpackAt_eq _ _ (Story.routineOffset_lt _)) ?_
  exact (accompanies_onStack (CheckedStack.follows_call hroomy.memory _ [] 0 none none
    fun _ h => nomatch h)).bind fun first _ => accompanies_setPc first

/-- A story starts again with the addresses of its header in their range. -/
theorem accompanies_restart :
    Accompanies (Machine.upkeep b cost) (restart : CheckedPlay W Unit) Play.restart := by
  refine Accompanies.get.bind fun machine _ => (accompanies_ask _).bind fun info _ => ?_
  refine .check (fun machine _ => ⟨_, machine.memory.resetAt_eq⟩) ?_
  refine .bind (accompanies_change fun machine hroomy => ?_) fun _ _ => ?_
  · exact { hroomy with memory := .congr hroomy.memory rfl }
  refine Accompanies.get.bind fun machine _ => ?_
  refine (accompanies_edit (CheckedHeader.follows_setUp _ _)).bind fun _ _ => ?_
  refine (accompanies_restoreFlags _).bind fun _ _ => ?_
  refine .bind (accompanies_change fun machine hroomy => ?_) fun _ _ => ?_
  · exact { hroomy with
      resume := fun _ _ h => nomatch h
      tables := fun stream hstream => nomatch hstream }
  exact (accompanies_note _).bind fun _ _ => accompanies_start

end StoryMachine.CheckedPlay
