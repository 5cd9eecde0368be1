import StoryMachine.Proofs.RejectedSnapshot
import StoryMachine.Proofs.WriteProtection

/-!
# Which snapshots a story takes for its own

A snapshot names the story that it was made of by ten bytes of the header.  Both when
it is made and when it is checked these bytes are read from memory, not from the image,
and a story may write them like all of dynamic memory.  So a story can turn down its own
snapshots.

`taken_for_own_iff` says exactly when: two machines of an image understand each other's
snapshots if and only if the ten bytes are the same in both.  Nothing else that a story
has done to its memory matters.
-/

namespace StoryMachine

/-- A story is all in its image. -/
theorem Story.eq_of_image_eq {story other : Story} (h : story.image = other.image) :
    story = other := by
  cases story
  cases other
  cases h
  rfl

namespace Snapshot

section

-- `memory` is what the snapshot was made from, `now` is what it is checked against.
variable {memory now : Memory} {stack : CallStack} {pc : Nat} {compressed : Bool}
  {remark : Option String}

/-- A snapshot of another identity is turned down as that of another story. -/
theorem parsePc_of_identity_ne (h : identity now ≠ identity memory) :
    parsePc now (chunksOf memory stack pc compressed remark) = .error { kind := .wrongStory } := by
  have hten := length_identity memory
  have hlength : (identity memory ++ bytes3 pc).length = 13 := by
    rw [List.length_append, hten]
    rfl
  rw [parsePc, chunksOf, find?_cons_self]
  simp only [hlength, List.take_left' hten, ne_eq, not_true_eq_false, if_false]
  rw [if_pos fun heq => h heq.symm]

/-- A snapshot is for another story if and only if the identities differ, whatever its stack is
like.  The address and the memory are looked at first, and the frames have faults of their own. -/
theorem parse_wrongStory_iff (hstory : now.story = memory.story) (hpc : pc < 0x1000000)
    (hsize : pc < now.size)
    (hlength : (capture memory stack pc compressed remark).length < 0x100000008) :
    parse (capture memory stack pc compressed remark) now = .error { kind := .wrongStory } ↔
      identity now ≠ identity memory := by
  rw [parse, chunks_capture stack pc compressed remark hlength]
  constructor
  · intro h heq
    simp only [bind, Except.bind, parsePc_chunksOf stack pc compressed remark heq hpc hsize,
      parseMemory_chunksOf stack pc compressed remark hstory] at h
    cases hframes : parseFrames (chunksOf memory stack pc compressed remark) with
    | ok restored =>
        rw [hframes] at h
        cases h
    | error fault =>
        rw [hframes] at h
        have hkind : fault.kind = .wrongStory := by rw [Except.error.inj h]
        have hfails := failsAs_parseFrames _ fault hframes
        rw [hkind] at hfails
        rcases hfails with hmissing | hcorrupt | ⟨hover, -⟩
        · cases hmissing
        · cases hcorrupt
        · cases hover
  · intro h
    simp only [bind, Except.bind, parsePc_of_identity_ne h]

end

end Snapshot

namespace Machine

open Snapshot

variable {image : Array UInt8} {ruledOut ruledOut' : Fault → Prop} {first second : Machine}
  {pc : Nat} {compressed : Bool} {remark : Option String}

/-- Machines that are reached from one image play one story. -/
theorem sameStory_of_reachable (hfirst : Reachable image ruledOut first)
    (hsecond : Reachable image ruledOut' second) : second.memory.story = first.memory.story :=
  Story.eq_of_image_eq ((story_of_reachable hsecond).trans (story_of_reachable hfirst).symm)

/-- **Which snapshots a story takes for its own.**  Take any two machines that were reached from an
image, by calls that went well or failed, with any hosts.  A snapshot of the first is for another
story in the eyes of the second if and only if they differ in one of the ten bytes of the header
by which stories are told apart; all of these can be written.  Where they do not differ it is
accepted, if the stack of the first could be stored, and brings back what it was made from. -/
theorem taken_for_own_iff (hfirst : Reachable image ruledOut first)
    (hsecond : Reachable image ruledOut' second) (hsize : image.size < 0x1000000)
    (hpc : pc < image.size)
    (hlength : (capture first.memory first.stack pc compressed remark).length < 0x100000008) :
    (parse (capture first.memory first.stack pc compressed remark) second.memory
        = .error { kind := .wrongStory } ↔
      ∃ address, IdentityByte address ∧
        second.memory.byteAt address ≠ first.memory.byteAt address) ∧
    (∀ address, IdentityByte address → address < second.memory.dynamicCeiling) ∧
    (first.stack.Storable →
      (∀ address, IdentityByte address →
        second.memory.byteAt address = first.memory.byteAt address) →
      parse (capture first.memory first.stack pc compressed remark) second.memory
        = .ok { dynamic := first.memory.dynamic, stack := first.stack.settled, pc }) := by
  have hstory := sameStory_of_reachable hfirst hsecond
  have hpc' : pc < 0x1000000 := Nat.lt_trans hpc hsize
  have hwithin : pc < second.memory.size := by
    rw [Memory.size, second.memory.size_eq, story_of_reachable hsecond]
    exact hpc
  refine ⟨?_, ?_, ?_⟩
  · rw [parse_wrongStory_iff hstory hpc' hwithin hlength, Ne, identity_eq_iff]
    simp only [Classical.not_forall, exists_prop]
  · intro address hplace
    have hceiling := second.memory.header_le_ceiling
    unfold IdentityByte at hplace
    omega
  · intro hstorable hsame
    exact parse_capture first.stack pc compressed remark hstory (identity_eq_iff.mpr hsame)
      hstorable hpc' hwithin hlength

/-- A story that writes its own release number. -/
def relabelling : Array UInt8 :=
  storyOf [0xe1, 0x57, 0, 1, 99, 0xba]

def relabeller : Machine :=
  ((create deaf relabelling {} ()).1.toOption).get rfl

/-- The machine after it has done so. -/
def relabelled : Machine := (relabeller.execute deaf 1 ()).1.2

/-- A snapshot from before was good then, and is now taken for one of another story. -/
theorem taken_for_own_relabelled :
    relabelled.halted = none ∧
      (∃ restored, parse (capture relabeller.memory relabeller.stack 77 true none)
        relabeller.memory = .ok restored) ∧
      parse (capture relabeller.memory relabeller.stack 77 true none) relabelled.memory
        = .error { kind := .wrongStory } := by
  have hcreate : create deaf relabelling {} () = (.ok relabeller, ()) := rfl
  have hreach : Reachable relabelling (fun _ => False) relabeller := .create hcreate
  have hrun : Reachable relabelling (fun _ => False) relabelled := reachable_executed deaf 1 hreach
  have hdiffers : relabelled.memory.byteAt 3 ≠ relabeller.memory.byteAt 3 := by decide +kernel
  have hlength : (capture relabeller.memory relabeller.stack 77 true none).length
      < 0x100000008 := by
    decide +kernel
  refine ⟨by decide +kernel, ?_, ?_⟩
  · exact ⟨_, (taken_for_own_iff hreach hreach (by decide) (by decide) hlength).2.2
      (created_of_create hcreate).storable fun _ _ => rfl⟩
  · exact (taken_for_own_iff hreach hrun (by decide) (by decide) hlength).1.mpr
      ⟨3, .inl (by decide), hdiffers⟩

end Machine

end StoryMachine
