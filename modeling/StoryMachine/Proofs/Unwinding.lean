import StoryMachine.Proofs.StackEffect

/-!
# Stacks that stand on other stacks

Whatever a routine does, the frames below its own and their words stay where they
are: the stack stands `Atop` the one it was entered from.  The frames in between
have their own words, and these are the top ones.

Leaving routines takes the newer frames away again, one at a time (`Atop.ret`) or
several (`Atop.leave`); when none is left the stack is the one below
(`Atop.eq_base`).
-/

namespace StoryMachine

namespace CallStack

/-- The stack is another one with newer frames, the newest first, and the words of
these. -/
structure Atop (base : CallStack) (newer : List Frame) (stack : CallStack) : Prop where
  frames_eq : stack.current :: stack.callers = newer ++ base.current :: base.callers
  words_eq : ∃ own, stack.values.words = own ++ base.values.words ∧ own.length = owned newer

variable {base stack after : CallStack} {frame : Frame} {newer gone : List Frame}

/-- A stack is atop itself. -/
theorem atop_self (stack : CallStack) : stack.Atop [] stack :=
  ⟨rfl, [], rfl, rfl⟩

/-- With no newer frames there is nothing on top. -/
theorem Atop.eq_base (h : base.Atop [] stack) : stack = base := by
  obtain ⟨hframes, own, hwords, hlength⟩ := h
  obtain ⟨hcurrent, hcallers⟩ := List.cons.inj hframes
  obtain rfl : own = [] := List.eq_nil_of_length_eq_zero hlength
  obtain ⟨⟨words, size, hsize⟩, current, callers⟩ := stack
  obtain ⟨⟨words', size', hsize'⟩, current', callers'⟩ := base
  simp only [List.nil_append] at hwords hcurrent hcallers
  subst hwords hcurrent hcallers hsize hsize'
  rfl

/-- The newer frames add to the depth. -/
theorem Atop.depth_eq (h : base.Atop newer stack) : stack.depth = newer.length + base.depth := by
  have hlength := congrArg List.length h.frames_eq
  simp only [List.length_cons, List.length_append] at hlength
  simp only [depth]
  omega

/-- The newest frame is the current one. -/
theorem Atop.current_eq (h : base.Atop (frame :: newer) stack) : stack.current = frame :=
  (List.cons.inj h.frames_eq).1

/-- The words of newer frames are on the stack. -/
theorem Atop.owned_le (h : base.Atop newer stack) : owned newer ≤ stack.values.size := by
  obtain ⟨-, own, hwords, hlength⟩ := h
  rw [stack.values.size_eq, hwords, List.length_append]
  omega

/-! ## What happens in the current frame -/

/-- A frame that is entered is the newest. -/
theorem Atop.entered (h : base.Atop newer stack) (hsize : frame.size = 0) :
    base.Atop (frame :: newer) (stack.entered frame) := by
  obtain ⟨hframes, own, hwords, hlength⟩ := h
  refine ⟨congrArg (frame :: ·) hframes, own, hwords, ?_⟩
  rw [hlength, owned_cons, hsize, Nat.zero_add]

/-- A word is pushed, and the current frame owns it. -/
theorem Atop.pushed (h : base.Atop (frame :: newer) stack) (word : Word) :
    base.Atop ({ frame with size := frame.size + 1 } :: newer) (stack.pushed word) := by
  obtain rfl := h.current_eq
  obtain ⟨hframes, own, hwords, hlength⟩ := h
  refine ⟨?_, word :: own, congrArg (word :: ·) hwords, ?_⟩
  · exact congrArg (_ :: ·) (List.cons.inj hframes).2
  · simp only [List.length_cons, owned_cons] at hlength ⊢
    omega

/-- Words of the current frame are dropped. -/
theorem Atop.dropped (h : base.Atop (frame :: newer) stack) {n : Nat} (hn : n ≤ frame.size) :
    base.Atop ({ frame with size := frame.size - n } :: newer) (stack.dropped n) := by
  obtain rfl := h.current_eq
  obtain ⟨hframes, own, hwords, hlength⟩ := h
  rw [owned_cons] at hlength
  refine ⟨?_, own.drop n, ?_, ?_⟩
  · exact congrArg (_ :: ·) (List.cons.inj hframes).2
  · show stack.values.words.drop n = _
    rw [hwords, List.drop_append_of_le_length (by omega)]
  · simp only [List.length_drop, owned_cons]
    omega

/-- The top word is another one. -/
theorem Atop.poked (h : base.Atop (frame :: newer) stack) (hsize : 0 < frame.size) (word : Word) :
    base.Atop (frame :: newer) (stack.poked word) := by
  obtain rfl := h.current_eq
  have hafter := (h.dropped (n := 1) hsize).pushed word
  rw [poked_eq word hsize]
  simpa only [Nat.sub_add_cancel hsize] using hafter

/-- A local that is set is set in the newest frame. -/
theorem Atop.withLocal (h : base.Atop (frame :: newer) stack) (number : UInt8) (value : Word) :
    base.Atop ({ frame with locals := frame.locals.set (number.toNat - 1) value } :: newer)
      (stack.withLocal number value) := by
  obtain rfl := h.current_eq
  obtain ⟨hframes, hwords⟩ := h
  exact ⟨congrArg (_ :: ·) (List.cons.inj hframes).2, hwords⟩

/-! ## Leaving the newer frames -/

/-- **The newest frame is left with its words.**  The frame below it is another newer frame or the
top one of the base. -/
theorem Atop.ret (h : base.Atop (frame :: newer) stack) :
    ∃ after, stack.run CallStack.ret = (.ok frame, after) ∧ base.Atop newer after := by
  obtain rfl := h.current_eq
  have hsize : stack.current.size ≤ stack.values.size :=
    Nat.le_trans (Nat.le_add_right _ _) h.owned_le
  obtain ⟨hframes, own, hwords, hlength⟩ := h
  rw [owned_cons] at hlength
  have hcallers := (List.cons.inj hframes).2
  obtain ⟨caller, older, hbelow⟩ :
      ∃ caller older, newer ++ base.current :: base.callers = caller :: older :=
    List.exists_cons_of_ne_nil (by simp)
  refine ⟨stack.left caller older,
    stack.run_ret_of_cons (hcallers.trans hbelow) hsize, hbelow.symm,
    own.drop stack.current.size, ?_, ?_⟩
  · show stack.values.words.drop stack.current.size = _
    rw [hwords, List.drop_append_of_le_length (by omega)]
  · rw [List.length_drop]
    omega

/-- Frames that are left leave the rest atop. -/
theorem Atop.leave (h : base.Atop (gone ++ newer) stack) :
    ∃ after, stack.run (CallStack.leave gone.length) = (.ok (), after) ∧ base.Atop newer after := by
  induction gone generalizing stack with
  | nil => exact ⟨stack, rfl, h⟩
  | cons frame gone ih =>
      obtain ⟨middle, hret, hmiddle⟩ := h.ret
      obtain ⟨after, hleave, hafter⟩ := ih hmiddle
      refine ⟨after, ?_, hafter⟩
      rw [run_eq_on] at hret hleave
      simp only [run_eq_on, List.length_cons, CallStack.leave, Work.on_bind, hret]
      exact hleave

/-- Routines are left until the given number of frames remains. -/
theorem run_unwind_of_le {depth : Nat} (hpos : 0 < depth) (hle : depth ≤ stack.depth) :
    stack.run (CallStack.unwind depth) = stack.run (CallStack.leave (stack.depth - depth)) := by
  have hgood : ¬(depth = 0 ∨ stack.depth < depth) := by omega
  simp only [run_eq_on, CallStack.unwind, Work.on_bind, Work.on_get, if_neg hgood]

/-- **Unwinding to the frames below leaves all newer ones.** -/
theorem Atop.unwind (h : base.Atop newer stack) :
    stack.run (CallStack.unwind base.depth) = (.ok (), base) := by
  have hdepth := h.depth_eq
  have hpos : 0 < base.depth := Nat.succ_pos _
  rw [run_unwind_of_le hpos (by omega), hdepth, Nat.add_sub_cancel]
  rw [← List.append_nil newer] at h
  obtain ⟨after, hleave, hafter⟩ := h.leave
  rw [hleave, hafter.eq_base]

/-- Each routine that is left takes one frame. -/
theorem depth_of_run_leave {n : Nat} (h : stack.run (CallStack.leave n) = (.ok (), after)) :
    after.depth + n = stack.depth := by
  induction n generalizing stack with
  | zero =>
      cases h
      rfl
  | succ n ih =>
      rcases stack.run_ret with ⟨caller, older, hcallers, -, hret⟩ | ⟨fault, middle, hret, -⟩
      · rw [run_eq_on] at h hret
        simp only [CallStack.leave, Work.on_bind, hret] at h
        have hdepth := ih h
        simp only [depth, left, hcallers, List.length_cons] at hdepth ⊢
        omega
      · rw [run_eq_on] at h hret
        simp only [CallStack.leave, Work.on_bind, hret] at h
        cases h

/-- Unwinding leaves as many frames as it was asked for. -/
theorem depth_of_run_unwind {depth : Nat}
    (h : stack.run (CallStack.unwind depth) = (.ok (), after)) :
    0 < depth ∧ depth ≤ stack.depth ∧ after.depth = depth := by
  by_cases hbad : depth = 0 ∨ stack.depth < depth
  · simp only [run_eq_on, CallStack.unwind, Work.on_bind, Work.on_get, if_pos hbad] at h
    cases h
  · have hpos : 0 < depth := by omega
    have hle : depth ≤ stack.depth := by omega
    rw [run_unwind_of_le hpos hle] at h
    have hsum := depth_of_run_leave h
    exact ⟨hpos, hle, by omega⟩

end CallStack

end StoryMachine
