import StoryMachine.Proofs.Reachability

/-!
# What a story can never write

Dynamic memory ends at the ceiling that the image names.  Whatever a machine goes
through, the bytes from there on are those of the image, the copy of the image that
is kept for restarting is the image, and all that was worked out from it when the
machine was created is still what the image says: `Protects`.

Nothing is assumed about the story, which may overwrite its own header, nor about
the calls: they may fail, and they may leave the stack overrun.  **What carries it
is the story in memory**: setting up the header keeps it, every step keeps it
(`sound_of_step`), and so do restarts and all ways of going back, in the middle of
which a call may have failed (`story_of_reachable`).
-/

namespace StoryMachine

/-- The story of an image has that image, and so everything that is computed from it. -/
theorem Story.image_of_ofImage {image : Array UInt8} {story : Story}
    (h : Story.ofImage image = .ok story) : story.image = image := by
  unfold Story.ofImage at h
  split at h
  · cases h
  split at h
  case isTrue hversion =>
    split at h
    case isTrue hceiling =>
      obtain rfl := Except.ok.inj h
      rfl
    case isFalse hceiling => cases h
  case isFalse hversion => cases h

/-- Memory has the image that it was made of. -/
theorem Memory.image_of_ofImage {image : Array UInt8} {memory : Memory}
    (h : Memory.ofImage image = .ok memory) : memory.story.image = image := by
  unfold Memory.ofImage at h
  cases hstory : Story.ofImage image with
  | error fault =>
      rw [hstory] at h
      cases h
  | ok story =>
      rw [hstory] at h
      obtain rfl := Except.ok.inj h
      exact Story.image_of_ofImage hstory

namespace Machine

open Play

variable {image : Array UInt8} {ruledOut : Fault → Prop} {machine : Machine}

/-- **The story in memory is that of the image**, however the machine was reached. -/
theorem story_of_reachable (h : Reachable image ruledOut machine) :
    machine.memory.story.image = image := by
  induction h with
  | @create _ _ options _ _ _ h =>
      obtain ⟨memory, info, draft, hmemory, hdraft, heq, -⟩ := (created_of_create h).image_eq
      have hstory := Header.story_setUp info options memory
      rw [hdraft] at hstory
      rw [heq, hstory]
      exact Memory.image_of_ofImage hmemory
  | execute hreach h ih =>
      refine execute_induction (P := fun machine => machine.memory.story.image = image) ?_ ih h
      intro machine after outcome w w' _ himage hplay
      have hgame := (sound_of_step hplay).1
      rw [(sameRun_stopped outcome after).story_eq, hgame.story_eq]
      exact himage
  | restart hreach h ih =>
      rw [(restarted_of_play h).sameRun.story_eq]
      exact ih
  | @sendBack _ _ _ _ _ _ outcome how hreach h hfault ih =>
      have hreload := reload_recall how h
      cases outcome with
      | ok _ =>
          rw [hreload.1.story_eq]
          exact ih
      | error fault =>
          rw [hreload.1.sameRun.story_eq]
          exact ih

/-- What a machine can never change of its image. -/
structure Protects (image : Array UInt8) (machine : Machine) : Prop where
  /-- The bytes at and above the dynamic ceiling. -/
  static_eq : ∀ i, imageWord image 0x0e ≤ i → machine.memory.bytes[i]? = image[i]?
  /-- The pristine copy. -/
  pristine_eq : machine.memory.story.image = image
  size_eq : machine.memory.size = image.size
  version_eq : machine.memory.version = imageByte image 0
  ceiling_eq : machine.memory.dynamicCeiling = imageWord image 0x0e
  routineOffset_eq : machine.memory.story.routineOffset
    = if imageByte image 0 = 6 ∨ imageByte image 0 = 7 then imageWord image 0x28 else 0
  stringOffset_eq : machine.memory.story.stringOffset
    = if imageByte image 0 = 6 ∨ imageByte image 0 = 7 then imageWord image 0x2a else 0

/-- **Write protection.**  A machine that was reached from an image in any way, by calls that
went well or failed, with any hosts, has changed nothing of the image but dynamic memory. -/
theorem write_protected (h : Reachable image ruledOut machine) : machine.Protects image := by
  have himage := story_of_reachable h
  have hceiling : machine.memory.story.dynamicCeiling = imageWord image 0x0e := by
    rw [Story.dynamicCeiling, himage]
  refine ⟨fun i hi => ?_, himage, ?_, ?_, hceiling, ?_, ?_⟩
  · rw [machine.memory.static_eq i (by omega), himage]
  · rw [Memory.size, machine.memory.size_eq, himage]
  · rw [Memory.version, Story.version, himage]
  · rw [Story.routineOffset, Story.version, himage]
  · rw [Story.stringOffset, Story.version, himage]

/-- A story that writes its own version and dynamic ceiling, and then to the first byte that
is not dynamic. -/
def trespassing : Array UInt8 :=
  storyOf [0xe2, 0x57, 0, 0, 8, 0xe1, 0x57, 14, 0, 255, 0xe2, 0x57, 72, 0, 1]

def trespasser : Machine :=
  ((create deaf trespassing {} ()).1.toOption).get rfl

/-- The machine after three steps, of which the last has failed. -/
def caught : Machine := (trespasser.execute deaf 3 ()).1.2

/-- The header in memory was overwritten, and still the write beyond dynamic memory failed and
left its byte alone. -/
theorem write_protected_trespasser :
    caught.memory.byteAt 0 = 8 ∧ caught.memory.wordAt 14 = 255 ∧ caught.halted.isSome = true ∧
      caught.Protects trespassing := by
  have hcreate : Reachable trespassing (fun _ => False) trespasser :=
    @Reachable.create trespassing _ Unit deaf {} () () trespasser rfl
  exact ⟨by decide +kernel, by decide +kernel, by decide +kernel,
    write_protected (reachable_executed deaf 3 hcreate)⟩

end Machine

end StoryMachine
