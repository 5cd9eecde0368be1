import StoryMachine.Proofs.StackMoves

/-!
# What a stack endures

An operation on the call stack may fail half way, and a stack that has run over has
words that no frame owns.  Two things hold all the same, whatever is done to a stack
and whether it goes well or not (`Endures`): only a call makes it deeper, which stops
at `maxFrames`, and no frame ever claims a word that is not there (`Covered`).  The
second is enough for a snapshot to hold the frames as they are.
-/

namespace StoryMachine

namespace CallStack

/-- A stack with a word for each that its frames claim, and frames that their records in a
snapshot have room for. -/
structure Covered (stack : CallStack) : Prop where
  owned_le : stack.current.size + owned stack.callers ≤ stack.values.size
  claimed_le : stack.current.size + owned stack.callers ≤ 65535
  locals_le : ∀ frame ∈ stack.frames, frame.locals.length ≤ 15

/-- A stack after something was done to it, which may have failed. -/
structure Endures (stack after : CallStack) : Prop where
  depth_le : after.depth ≤ max stack.depth maxFrames
  covered : stack.Covered → after.Covered

/-- A stack endures that nothing is done to it. -/
theorem Endures.refl (stack : CallStack) : stack.Endures stack :=
  ⟨Nat.le_max_left _ _, id⟩

/-- A stack endures two things if it endures each. -/
theorem Endures.trans {stack middle after : CallStack} (h : stack.Endures middle)
    (h' : middle.Endures after) : stack.Endures after := by
  refine ⟨?_, h'.covered ∘ h.covered⟩
  have hfirst := h.depth_le
  have hsecond := h'.depth_le
  omega

/-- A stack that fits in a snapshot has its frames covered. -/
theorem Storable.covered {stack : CallStack} (h : stack.Storable) : stack.Covered := by
  have howned := h.owned_eq
  have hwords := h.words_le
  rw [owned_frames, length_words] at howned
  rw [length_words] at hwords
  exact ⟨by omega, by omega, fun frame hframe => (h.frames_storable frame hframe).locals_le⟩

variable {stack after : CallStack}

/-- The frames below the current one are as they were, so only the current one and the number
of words matter. -/
theorem endures_of_current {values : WordStack} {current : Frame}
    (h : stack.Covered → current.size + owned stack.callers ≤ values.size ∧
      current.size + owned stack.callers ≤ 65535 ∧ current.locals.length ≤ 15) :
    stack.Endures { values, current, callers := stack.callers } := by
  refine ⟨Nat.le_max_left _ _, fun hcovered => ?_⟩
  obtain ⟨howned, hclaimed, hlocals⟩ := h hcovered
  refine ⟨howned, hclaimed, fun frame hframe => ?_⟩
  rcases mem_frames.mp hframe with rfl | hframe
  · exact hlocals
  · exact hcovered.locals_le frame (mem_frames.mpr (.inr hframe))

/-- The current frame of a covered stack has no more locals than a routine can have. -/
theorem Covered.current_le (h : stack.Covered) : stack.current.locals.length ≤ 15 :=
  h.locals_le _ (mem_frames.mpr (.inl rfl))

/-- What is left when a frame is left is covered, if the frame was. -/
theorem endures_left {caller : Frame} {older : List Frame} {values : WordStack}
    (hcallers : stack.callers = caller :: older)
    (hvalues : stack.Covered → owned stack.callers ≤ values.size) :
    stack.Endures { values, current := caller, callers := older } := by
  refine ⟨?_, fun hcovered => ?_⟩
  · simp only [depth, hcallers, List.length_cons]
    omega
  · have hsize := hvalues hcovered
    obtain ⟨-, hclaimed, hlocals⟩ := hcovered
    rw [hcallers, owned_cons] at hclaimed hsize
    refine ⟨hsize, by simp only; omega, fun frame hframe => hlocals frame ?_⟩
    rw [mem_frames, hcallers, List.mem_cons]
    exact .inr (mem_frames.mp hframe)

/-- A stack endures a move. -/
theorem Move.endures (h : stack.Move after) : stack.Endures after := by
  cases h with
  | push word hroom =>
      have hlimit : stack.values.size < 65535 := hroom
      refine endures_of_current fun hcovered => ?_
      have howned := hcovered.owned_le
      simp only [WordStack.push]
      exact ⟨by omega, by omega, hcovered.current_le⟩
  | drop n hsize hvalues =>
      refine endures_of_current fun hcovered => ?_
      have howned := hcovered.owned_le
      have hclaimed := hcovered.claimed_le
      simp only [WordStack.drop]
      exact ⟨by omega, by omega, hcovered.current_le⟩
  | poke word hvalues =>
      refine endures_of_current fun hcovered => ?_
      have howned := hcovered.owned_le
      have hclaimed := hcovered.claimed_le
      simp only [WordStack.push, WordStack.drop]
      exact ⟨by omega, by omega, hcovered.current_le⟩
  | setLocal number value =>
      refine endures_of_current fun hcovered => ⟨hcovered.owned_le, hcovered.claimed_le, ?_⟩
      rw [List.length_set]
      exact hcovered.current_le
  | leave caller older hcallers hvalues =>
      refine endures_left hcallers fun hcovered => ?_
      have howned := hcovered.owned_le
      simp only [WordStack.drop]
      omega

/-- A stack endures a routine that is entered with room for its frame. -/
theorem endures_entered {frame : Frame} (hdepth : stack.depth < maxFrames)
    (hsize : frame.size = 0) (hlocals : frame.locals.length ≤ 15) :
    stack.Endures (stack.entered frame) := by
  refine ⟨?_, fun hcovered => ?_⟩
  · have hone : (stack.entered frame).depth = stack.depth + 1 := rfl
    omega
  · have howned := hcovered.owned_le
    have hclaimed := hcovered.claimed_le
    refine ⟨?_, ?_, fun other hother => ?_⟩
    · simp only [entered, owned_cons, hsize]
      omega
    · simp only [entered, owned_cons, hsize]
      omega
    · rcases mem_frames.mp hother with rfl | hother
      · exact hlocals
      · exact hcovered.locals_le other (mem_frames.mpr (List.mem_cons.mp hother))

/-! ## The operations, whether they go well or not -/

/-- Work that every stack endures. -/
def Bearable {α : Type} (work : StackWork α) : Prop :=
  ∀ stack : CallStack, stack.Endures (stack.run work).2

/-- A word too many is one that no frame claims. -/
theorem bearable_push (word : Word) : Bearable (push word) := by
  intro stack
  by_cases hroom : stack.values.size < WordStack.limit
  · rw [stack.run_push_of_lt word hroom]
    exact (Move.push word hroom).endures
  · rw [stack.run_push_of_le word (Nat.not_lt.mp hroom)]
    refine endures_of_current fun hcovered => ⟨?_, hcovered.claimed_le, hcovered.current_le⟩
    exact Nat.le_succ_of_le hcovered.owned_le

/-- Every stack endures a pop. -/
theorem bearable_pop : Bearable pop := by
  intro stack
  rcases stack.run_pop with ⟨word, hpop, hsize, hvalues⟩ | hpop <;> rw [hpop]
  · exact (Move.drop 1 hsize hvalues).endures
  · exact .refl stack

/-- Every stack endures that words are dropped. -/
theorem bearable_popMany (count : Nat) : Bearable (popMany count) := by
  intro stack
  rcases stack.run_popMany count with ⟨hpop, hsize, hvalues⟩ | hpop <;> rw [hpop]
  · exact (Move.drop count hsize hvalues).endures
  · exact .refl stack

/-- Every stack endures a poke. -/
theorem bearable_poke (word : Word) : Bearable (poke word) := by
  intro stack
  rcases stack.run_poke word with ⟨hpoke, -, hvalues⟩ | hpoke <;> rw [hpoke]
  · exact (Move.poke word hvalues).endures
  · exact .refl stack

/-- Every stack endures that a local is set. -/
theorem bearable_setLocal (number : UInt8) (value : Word) : Bearable (setLocal number value) := by
  intro stack
  rcases stack.run_setLocal number value with hset | ⟨fault, hset⟩ <;> rw [hset]
  · exact (Move.setLocal number value).endures
  · exact .refl stack

/-- A frame that claims more words than there are is left without them. -/
theorem bearable_ret : Bearable ret := by
  intro stack
  rcases hcallers : stack.callers with _ | ⟨caller, older⟩
  · rw [stack.run_ret_of_nil hcallers]
    exact .refl stack
  · by_cases hvalues : stack.current.size ≤ stack.values.size
    · rw [stack.run_ret_of_cons hcallers hvalues]
      exact (Move.leave caller older hcallers hvalues).endures
    · simp only [run_eq_on, ret, Work.on_bind, Work.on_get, hcallers, Work.on_set, on_onWords,
        WordStack.tryPopMany, if_pos (Nat.not_le.mp hvalues)]
      exact endures_left hcallers fun hcovered =>
        Nat.le_trans (Nat.le_add_left _ _) hcovered.owned_le

/-- Every stack endures that routines are left. -/
theorem bearable_leave (n : Nat) : Bearable (leave n) := by
  induction n with
  | zero => exact Endures.refl
  | succ n ih =>
      intro stack
      have hret := bearable_ret stack
      rw [run_eq_on] at hret ⊢
      rw [leave, Work.on_bind]
      rcases hrun : Work.on ret stack with ⟨fault | frame, middle⟩ <;> rw [hrun] at hret
      · exact hret
      · exact hret.trans (ih middle)

/-- Every stack endures that it is unwound. -/
theorem bearable_unwind (depth : Nat) : Bearable (unwind depth) := by
  intro stack
  by_cases hbad : depth = 0 ∨ stack.depth < depth
  · simp only [run_eq_on, unwind, Work.on_bind, Work.on_get, if_pos hbad]
    exact .refl stack
  · simp only [run_eq_on, unwind, Work.on_bind, Work.on_get, if_neg hbad]
    exact bearable_leave _ stack

end CallStack

end StoryMachine
