/-!
# Undo generations

A bounded list of snapshots, the newest first.  Saving one more than fits drops
the oldest; a snapshot that could not be resumed goes back to the front.
-/

namespace StoryMachine

/-- The generations kept, newest first, and how many there may be. -/
structure UndoRing where
  levels : Nat
  generations : List (List UInt8) := []
  deriving DecidableEq

namespace UndoRing

/-- Whether a generation can be kept at all. -/
def isEnabled (ring : UndoRing) : Bool :=
  ring.levels != 0

/-- Adds a generation, if undo is enabled. -/
def push (ring : UndoRing) (snapshot : List UInt8) : UndoRing :=
  if ring.isEnabled then
    { ring with generations := snapshot :: ring.generations.take (ring.levels - 1) }
  else ring

/-- The newest generation and the ring without it. -/
def pop? (ring : UndoRing) : Option (List UInt8 × UndoRing) :=
  match ring.generations with
  | [] => none
  | newest :: older => some (newest, { ring with generations := older })

/-- Puts back a generation that could not be resumed. -/
def unpop (ring : UndoRing) (snapshot : List UInt8) : UndoRing :=
  { ring with generations := snapshot :: ring.generations }

/-- How many generations are kept. -/
def size (ring : UndoRing) : Nat :=
  ring.generations.length

/-- Putting back what was taken leaves the ring as it was. -/
theorem unpop_of_pop? {ring rest : UndoRing} {snapshot : List UInt8}
    (h : ring.pop? = some (snapshot, rest)) : rest.unpop snapshot = ring := by
  obtain ⟨levels, _ | ⟨newest, older⟩⟩ := ring
  · simp [pop?] at h
  · obtain ⟨rfl, rfl⟩ : newest = snapshot ∧ _ = rest := by simpa [pop?] using h
    rfl

end UndoRing

end StoryMachine
