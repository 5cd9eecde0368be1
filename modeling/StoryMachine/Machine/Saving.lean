import StoryMachine.Machine.Printing
import StoryMachine.Snapshot

/-!
# Saving, restoring and undoing

A snapshot remembers where the result of the instruction that made it goes.
Restoring it finishes that instruction once more, with the result 2, which is how
the story can tell.  The header is set up anew, because the host may have changed,
and the two lowest bits of the second flags, transcript and fixed pitch, stay as
they are.

A save file that cannot be restored is no fault of the story: the instruction
reports that it failed.
-/

namespace StoryMachine.Play

variable {m : Type → Type} [Monad m]

/-- The two lowest bits of the second flags, which outlive a restore. -/
def keptFlags (memory : Memory) : Word :=
  memory.headerWord .flags2 &&& 0x0003

/-- Puts back the two lowest bits of the second flags. -/
def restoreFlags (kept : Word) (memory : Memory) : Memory :=
  memory.setHeaderWord .flags2 ((memory.headerWord .flags2 &&& 0xfffc) ||| kept)

/-- The whole contents of a file of the host. -/
def readFile (purpose : Purpose) : Play m (Except Fault (List UInt8)) := do
  match ← ask (·.openForRead purpose) with
  | none => return .error { kind := .fileUnavailable }
  | some file =>
    match ← ask (·.readAll file) with
    | .ok bytes => return .ok bytes
    | .error detail => return .error { kind := .fileUnavailable, detail }

/-- Writes a whole file of the host.  Says whether that went well. -/
def writeFile (purpose : Purpose) (bytes : List UInt8) : Play m Bool := do
  match ← ask (·.openForWrite purpose) with
  | none => return false
  | some file =>
    let outcome ← match ← ask (·.write file bytes) with
      | .ok () => ask (·.flush file)
      | .error text => pure (.error text)
    match outcome with
    | .ok () => return true
    | .error text =>
      note (.warning s!"write failed: {text}")
      return false

/-- Makes a snapshot of the machine. -/
def capture (pc : Nat) (compressed : Bool) (remark : Option String) : Play m (List UInt8) := do
  let machine ← get
  let snapshot := Snapshot.capture machine.memory machine.stack pc compressed remark
  note (Snapshot.capturedNotice snapshot pc)
  return snapshot

/-- Finishes the instruction that made a snapshot as if it had just returned 2. -/
def completeRestore (result : Nat) : Play m Unit := do
  if 4 ≤ (← view (·.version)) then
    let target ← look (·.readByte result)
    setPc (result + 1)
    writeVariable target 2
  else
    let (branch, length) ← look (Branch.decode · result)
    setPc (result + length)
    if branch.condition then jump (branch.target (result + length))

/-- Checks a snapshot and goes back to it. -/
def applySnapshot (bytes : List UInt8) : Play m Unit := do
  if let some notice := Snapshot.surplusNotice? bytes then note notice
  let restored ← look (Snapshot.parse bytes)
  let machine ← get
  let kept := keptFlags machine.memory
  let memory ← MonadExcept.ofExcept (machine.memory.setDynamic restored.dynamic)
  set { machine with memory }
  edit (Header.setUp machine.info machine.options)
  edit (Edit.change (restoreFlags kept))
  modify fun machine =>
    { machine with stack := restored.stack, resume := none, dictionaries := {} }
  note (.remark s!"restored to {Numeral.marked 5 restored.pc}")
  completeRestore restored.pc

/-- Restores a snapshot.  A machine that had halted can go on. -/
def restoreBytes (bytes : List UInt8) : Play m Unit := do
  applySnapshot bytes
  modify fun machine => { machine with halted := none }

/-- Restores the host's save file. -/
def restore : Play m Unit := do
  restoreBytes (← MonadExcept.ofExcept (← readFile .saveGame))

/-- Goes back to the newest undo generation.  One that cannot be restored is kept. -/
def undo : Play m Unit := do
  match (← get).undo.pop? with
  | none => throw { kind := .nothingToUndo }
  | some (snapshot, ring) =>
    modify fun machine => { machine with undo := ring }
    try
      applySnapshot snapshot
    catch fault =>
      modify fun machine => { machine with undo := machine.undo.unpop snapshot }
      throw fault
    modify fun machine => { machine with halted := none }

/-- The remark in a save file: program, version and time, and in version 3 how far
the player is. -/
def remark : Play m String := do
  let version ← view (·.version)
  let stamp ← ask (·.shortTime)
  let text := s!"zcode 0.1.0; version {version} story; saved {stamp}"
  if 3 < version then return text
  try
    match (← statusLine).right with
    | .score score moves => return text ++ s!"; score {score} in {moves} moves"
    | .time hours minutes => return text ++ s!"; time {hours}:" ++ Numeral.decimal 2 minutes.toNat
  catch fault =>
    note (.remark s!"no status for annotation: {fault.message}")
    return text

/-- Saves the game to the host's save file. -/
def saveGame (instruction : Instruction) : Play m Unit := do
  let text ← remark
  let snapshot ← capture instruction.result false (some text)
  let saved ← writeFile .saveGame snapshot
  if !saved then note (.warning "game not saved")
  report instruction (if saved then 1 else 0)

/-- Restores the game from the host's save file. -/
def restoreGame (instruction : Instruction) : Play m Unit := do
  try
    applySnapshot (← MonadExcept.ofExcept (← readFile .saveGame))
  catch fault =>
    if fault.isFatal then throw fault
    else
      note (.warning s!"restore failed: {fault.message}")
      report instruction 0

/-- Saves part of memory to an auxiliary file.  Gives the number of bytes saved. -/
def saveAuxiliary (table length : Word) : Play m Word := do
  let bytes ← look (·.slice table.toNat length.toNat)
  if ← writeFile .auxiliary bytes then return length else return 0

/-- Restores part of memory from an auxiliary file.  Gives the number of bytes
restored. -/
def restoreAuxiliary (table length : Word) : Play m Word := do
  match ← readFile .auxiliary with
  | .error fault =>
    note (.warning s!"auxiliary restore failed: {fault.message}")
    return 0
  | .ok bytes =>
    let kept := bytes.take length.toNat
    edit (Edit.writeBytes table.toNat kept)
    return kept.length.toUInt16

/-- Keeps a new undo generation. -/
def saveUndo (instruction : Instruction) : Play m Unit := do
  let machine ← get
  let snapshot ← capture instruction.result machine.options.compressUndo none
  note (.remark s!"undo generation of {snapshot.length} bytes")
  modify fun machine => { machine with undo := machine.undo.push snapshot }
  store instruction (if machine.undo.isEnabled then 1 else 0xffff)

/-- Goes back to the newest undo generation, if there is one. -/
def restoreUndo (instruction : Instruction) : Play m Unit := do
  try
    undo
  catch fault =>
    if fault.isFatal then throw fault
    else
      note (.warning s!"undo failed: {fault.message}")
      store instruction 0

/-- Starts the story: at an address, or in version 6 with a routine. -/
def start : Play m Unit := do
  modify fun machine => { machine with stack := {} }
  let machine ← get
  let initial := machine.memory.headerWord .initialPC
  if machine.memory.version = 6 then
    let main := machine.memory.story.routineAddress initial
    setPc (← onStack (CallStack.call machine.memory main [] 0 none none))
  else setPc initial.toNat

/-- Starts the story again.  Transcript, undo generations and random numbers go
on. -/
def restart : Play m Unit := do
  let kept := keptFlags (← get).memory
  let info ← ask (·.info)
  modify fun machine => { machine with memory := machine.memory.reset, info }
  edit (Header.setUp info (← get).options)
  edit (Edit.change (restoreFlags kept))
  modify fun machine => { machine with
    streams := machine.streams.resetRedirection, dictionaries := {}, resume := none,
    halted := none }
  note (.remark "restart")
  start

end StoryMachine.Play
