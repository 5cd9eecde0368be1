import StoryMachine.Memory
import StoryMachine.Notice

/-!
# Work on memory

An `Edit` is a piece of work on story memory.  It may stop with a fault, and what
it has written until then stays written; on the way it may leave notices.
-/

namespace StoryMachine

/-- Memory that is being worked on, and the notices left so far. -/
structure Draft where
  memory : Memory
  notices : Array Notice := #[]

/-- Work on memory. -/
abbrev Edit := ExceptT Fault (StateM Draft)

namespace Edit

/-- Looks at memory. -/
def view (f : Memory → α) : Edit α := do
  return f (← get).memory

/-- Looks at memory where that may fail. -/
def look (f : Memory → Except Fault α) : Edit α := do
  MonadExcept.ofExcept (f (← get).memory)

/-- Leaves a notice. -/
def note (notice : Notice) : Edit Unit :=
  modify fun draft => { draft with notices := draft.notices.push notice }

/-- Leaves a notice if there is one. -/
def noteIf (notice : Option Notice) : Edit Unit :=
  match notice with
  | some notice => note notice
  | none => pure ()

/-- Changes memory in a way that cannot fail. -/
def change (f : Memory → Memory) : Edit Unit :=
  modify fun draft => { draft with memory := f draft.memory }

/-- Writes a byte. -/
def writeByte (address : Nat) (value : UInt8) : Edit Unit :=
  ExceptT.mk fun draft =>
    if h : address < draft.memory.dynamicCeiling then
      (.ok (), { draft with memory := draft.memory.set address value h })
    else
      (.error (draft.memory.writeFault address), draft)

/-- Writes a word, or nothing if one of its bytes cannot be written. -/
def writeWord (address : Nat) (value : Word) : Edit Unit :=
  ExceptT.mk fun draft =>
    if h : address + 1 < draft.memory.dynamicCeiling then
      (.ok (), { draft with memory := draft.memory.setWord address value h })
    else if address < draft.memory.dynamicCeiling then
      (.error (draft.memory.writeFault (address + 1)), draft)
    else
      (.error (draft.memory.writeFault address), draft)

/-- Writes bytes one after another, stopping at the first that cannot be. -/
def writeBytes (address : Nat) : List UInt8 → Edit Unit
  | [] => pure ()
  | b :: rest => do
    writeByte address b
    writeBytes (address + 1) rest

/-- Does the work on a memory: its outcome, and the draft it leaves. -/
def run (edit : Edit α) (memory : Memory) : Except Fault α × Draft :=
  StateT.run (ExceptT.run edit) { memory }

end Edit

end StoryMachine
