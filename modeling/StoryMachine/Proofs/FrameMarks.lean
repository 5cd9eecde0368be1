import StoryMachine.Proofs.FrameTurns
import StoryMachine.Proofs.Restarting

/-!
# Where the frames of the stack return to

A frame remembers where its routine returns to, and which read waits for that, if one
does: its mark.  Nothing changes the mark of a frame as long as it is on the stack.  One
step enters a routine on top of the frames there are, or leaves some, or does neither;
when it leaves the frame of a routine that a read waits for, the machine is left at the
place in the mark, with the read in the mark to be gone on with (`Proceeds`).  Only where
the machine starts again or goes back to another state are there other frames, and then
no read waits for any of them.

So a run that stays deeper than some frame finds that frame again with its mark, and
when it leaves the frame with a value for a read, that is the read in the mark
(`mark_of_ended`).
-/

namespace StoryMachine

variable {W α β : Type}

/-- Where a routine returns to, and the read that waits for it. -/
def Frame.mark (frame : Frame) : Nat × Option PendingRead :=
  (frame.returnPc, frame.pending)

namespace CallStack

/-- The marks of all frames, the current one first. -/
def marks (stack : CallStack) : List (Nat × Option PendingRead) :=
  (stack.current :: stack.callers).map Frame.mark

variable {stack after : CallStack}

/-- There is a mark for each frame. -/
@[simp] theorem length_marks (stack : CallStack) : stack.marks.length = stack.depth := by
  simp [marks, depth]

/-- A frame that is entered adds its mark. -/
@[simp] theorem marks_entered (stack : CallStack) (frame : Frame) :
    (stack.entered frame).marks = frame.mark :: stack.marks := rfl

/-- A frame that is left takes its mark away. -/
theorem marks_of_left {caller : Frame} {older : List Frame} (h : stack.callers = caller :: older) :
    stack.marks = stack.current.mark :: (stack.left caller older).marks := by
  rw [marks, h]
  rfl

/-- Work on the current frame leaves the marks as they are. -/
theorem marks_of_touched (h : Relation.ReflTransGen Touch stack after) :
    after.marks = stack.marks := by
  induction h with
  | refl => rfl
  | tail _ htouch ih => cases htouch <;> exact ih

/-- Nothing but a new frame has a new mark. -/
theorem marks_of_shed (h : Relation.ReflTransGen Shed stack after) :
    after.marks <:+ stack.marks := by
  induction h with
  | refl => exact List.suffix_refl _
  | tail _ hshed ih =>
      refine List.IsSuffix.trans ?_ ih
      cases hshed with
      | touch htouch =>
          have hsame := marks_of_touched (.single htouch)
          exact hsame ▸ List.suffix_refl _
      | leave caller older hcallers hvalues =>
          rw [marks_of_left hcallers]
          exact List.suffix_cons _ _

end CallStack

namespace Machine

/-- Frames may be left.  Either no read waits for that, or the machine is left where the last of
them says, to go on with the read that waited for it. -/
inductive Leaves (machine after : Machine) : Prop
  | frames (h : after.stack.marks <:+ machine.stack.marks) (hresume : after.resume = machine.resume)
  | awaited (newer : List (Nat × Option PendingRead)) (read : PendingRead) (value : Word)
      (h : machine.stack.marks = newer ++ (after.pc, some read) :: after.stack.marks)
      (hresume : after.resume = some (read, value))

/-- What becomes of the frames in one step, unless the machine starts again or goes back. -/
inductive Proceeds (machine after : Machine) : Prop
  | leaves (h : Leaves machine after)
  | enters (mark : Nat × Option PendingRead) (h : after.stack.marks = mark :: machine.stack.marks)
      (hresume : after.resume = machine.resume)

variable {machine after : Machine}

/-- Shedding frames leaves them by their marks. -/
theorem Sheds.leaves (h : Sheds machine after) : Leaves machine after := by
  cases h with
  | frames h hresume => exact .frames (CallStack.marks_of_shed h) hresume
  | awaited last caller older read value h hcallers hvalues hpending hstack hpc hresume =>
      obtain ⟨newer, hnewer⟩ := CallStack.marks_of_shed h
      refine .awaited newer read value ?_ hresume
      rw [← hnewer, CallStack.marks_of_left hcallers, Frame.mark, hpending, hstack, hpc]

/-- A turn of the frames is one of their marks. -/
theorem Turns.proceeds (h : Turns machine after) : Proceeds machine after := by
  cases h with
  | sheds h => exact .leaves h.leaves
  | enters caller frame h hsize hstack hresume =>
      refine .enters frame.mark ?_ hresume
      rw [hstack, CallStack.marks_entered, CallStack.marks_of_touched h]

end Machine

namespace Play

open Machine

/-! ## Starting again and going back -/

/-- No read waits for any of the frames. -/
def Unawaited (stack : CallStack) : Prop :=
  ∀ mark ∈ stack.marks, mark.2 = none

/-- Where no read waits, leaving frames brings none to go on with. -/
theorem Unawaited.of_leaves {machine after : Machine} (h : Unawaited machine.stack)
    (hleaves : Leaves machine after) :
    Unawaited after.stack ∧ after.resume = machine.resume := by
  cases hleaves with
  | frames hmarks hresume => exact ⟨fun mark hmark => h mark (hmarks.subset hmark), hresume⟩
  | awaited newer read value hmarks hresume =>
      have hnone : some read = none := h (after.pc, some read) (by
        rw [hmarks]
        exact List.mem_append_right newer List.mem_cons_self)
      exact nomatch hnone

/-- No read waits for a frame of a snapshot. -/
theorem unawaited_of_framesFrom {skip : Nat} {bytes : List UInt8}
    {shares : List (Frame × List Word)} (h : Snapshot.framesFrom skip bytes = .ok shares) :
    ∀ share ∈ shares, share.1.pending = none := by
  fun_induction Snapshot.framesFrom skip bytes generalizing shares with
  | case1 =>
      obtain rfl := Except.ok.inj h
      intro share hshare
      cases hshare
  | case2 _ _ _ ih => exact ih h
  | case3 => cases h
  | case4 =>
      rename_i ih
      obtain ⟨others, hothers, h⟩ := bind_eq_ok.mp h
      obtain rfl := Except.ok.inj h
      intro share hshare
      rcases List.mem_cons.mp hshare with rfl | hshare
      · rfl
      · exact ih hothers share hshare
  | case5 => cases h

/-- Nor for a frame of the stack that is made of its frames. -/
theorem unawaited_of_ofParts {frames : List Frame} {words : List Word} {stack : CallStack}
    (h : CallStack.ofParts frames words = .ok stack)
    (hframes : ∀ frame ∈ frames, frame.pending = none) : Unawaited stack := by
  unfold CallStack.ofParts at h
  simp only at h
  split at h
  case h_2 => exact nomatch h
  case h_1 current callers hreverse =>
    split at h
    case isTrue => exact nomatch h
    case isFalse =>
      split at h
      case isTrue => exact nomatch h
      case isFalse =>
        obtain rfl := Except.ok.inj h
        intro mark hmark
        obtain ⟨frame, hframe, rfl⟩ := List.mem_map.mp hmark
        refine hframes frame (List.mem_reverse.mp ?_)
        rw [hreverse]
        exact hframe

/-- A snapshot says nothing of reads. -/
theorem unawaited_of_parse {bytes : List UInt8} {memory : Memory} {restored : Restored}
    (h : Snapshot.parse bytes memory = .ok restored) : Unawaited restored.stack := by
  obtain ⟨chunks, -, h⟩ := bind_eq_ok.mp h
  obtain ⟨pc, -, h⟩ := bind_eq_ok.mp h
  obtain ⟨dynamic, -, h⟩ := bind_eq_ok.mp h
  obtain ⟨stack, hstack, h⟩ := bind_eq_ok.mp h
  obtain rfl := Except.ok.inj h
  unfold Snapshot.parseFrames at hstack
  split at hstack
  case h_2 => exact nomatch hstack
  case h_1 data _ =>
      obtain ⟨shares, hshares, hparts⟩ := bind_eq_ok.mp hstack
      refine unawaited_of_ofParts hparts fun frame hframe => ?_
      obtain ⟨share, hshare, rfl⟩ := List.mem_map.mp hframe
      exact unawaited_of_framesFrom hshares share hshare

/-- Finishing the instruction that made a snapshot may leave its frame. -/
theorem leaves_finish (next : Nat) (ending : Ending) :
    Leads Leaves (finish next ending : Play (StateM W) Unit) := by
  have hsheds : Leads Sheds (finish next ending : Play (StateM W) Unit) := by
    cases ending with
    | store target => exact (delivers_writeVariable target 2).touching.touches.imp Touches.sheds
    | branch data =>
        exact .ite (sheds_jump _) ((calm_pure ()).touching.touches.imp Touches.sheds)
  exact hsheds.imp Sheds.leaves

section

variable {host : Host (StateM W)} {machine after : Machine} {w w' : W}

/-- A machine that begins anew: no read waits for a frame, none is to be gone on with, and the
dictionaries are faithful. -/
structure Anew (machine : Machine) : Prop where
  unawaited : Unawaited machine.stack
  resume_eq : machine.resume = none
  faithful : machine.Faithful

/-- Kept dictionaries are faithful where there are none. -/
theorem faithful_of_empty (h : machine.dictionaries = {}) : machine.Faithful := by
  unfold Faithful
  rw [h]
  exact fun _ _ hnone => nomatch hnone

/-- A machine that goes back to a snapshot begins anew. -/
theorem anew_of_applySnapshot {bytes : List UInt8}
    (hplay : machine.play host (applySnapshot bytes) w = ((.ok (), after), w')) : Anew after := by
  cases hparse : Snapshot.parse bytes machine.memory with
  | error fault =>
      obtain ⟨v, hreject⟩ := play_applySnapshot_of_rejected host w hparse
      rw [hreject] at hplay
      exact nomatch hplay
  | ok restored =>
      obtain ⟨v, haccept⟩ := play_applySnapshot_of_accepted host w hparse
      rw [haccept] at hplay
      obtain ⟨ready, ending, length, v', -, -, hfinish⟩ := finished_of_goBack hparse hplay
      obtain ⟨hunawaited, hresume⟩ := Unawaited.of_leaves (unawaited_of_parse hparse)
        ((leaves_finish (restored.pc + length) ending host _ v').1 () after w' hfinish)
      have hfinishes := (ends_finish (restored.pc + length) ending host _ v').1 () after w' hfinish
      exact ⟨hunawaited, hresume, hfinishes.faithful (faithful_of_empty rfl)⟩

/-- So does one that goes back to the file of the host. -/
theorem anew_of_reloadFile (hplay : machine.play host reloadFile w = ((.ok (), after), w')) :
    Anew after := by
  obtain ⟨_, _, _, -, hplay⟩ := play_bind_ok hplay
  obtain ⟨_, _, _, -, hplay⟩ := play_bind_ok hplay
  exact anew_of_applySnapshot hplay

/-- So does one that restores bytes. -/
theorem anew_of_restoreBytes {bytes : List UInt8}
    (hplay : machine.play host (restoreBytes bytes) w = ((.ok (), after), w')) : Anew after := by
  obtain ⟨_, middle, _, happly, hplay⟩ := play_bind_ok hplay
  cases hplay
  obtain ⟨hunawaited, hresume, hfaithful⟩ := anew_of_applySnapshot happly
  exact ⟨hunawaited, hresume, hfaithful⟩

/-- So does one that undoes. -/
theorem anew_of_undo (hplay : machine.play host undo w = ((.ok (), after), w')) : Anew after := by
  cases hpop : machine.undo.pop? with
  | none =>
      unfold undo at hplay
      rw [play_bind_of_ok (play_get machine host w), hpop] at hplay
      exact nomatch hplay
  | some pair =>
      obtain ⟨snapshot, ring⟩ := pair
      rw [play_undo host w hpop, play_bind, play_tryCatch] at hplay
      rcases happly : Machine.play { machine with undo := ring } host (applySnapshot snapshot) w
        with ⟨⟨fault | _, middle⟩, v⟩ <;> rw [happly] at hplay
      · exact nomatch hplay
      · cases hplay
        obtain ⟨hunawaited, hresume, hfaithful⟩ := anew_of_applySnapshot happly
        exact ⟨hunawaited, hresume, hfaithful⟩

/-- So does one that is told to go back. -/
theorem anew_of_recall (how : Recall)
    (hplay : machine.play host how.work w = ((.ok (), after), w')) : Anew after := by
  cases how with
  | undo => exact anew_of_undo hplay
  | bytes snapshot => exact anew_of_restoreBytes hplay
  | file =>
      obtain ⟨_, _, _, -, hplay⟩ := play_bind_ok hplay
      obtain ⟨_, _, _, -, hplay⟩ := play_bind_ok hplay
      exact anew_of_restoreBytes hplay

/-- So does one with an instruction that goes back. -/
theorem anew_of_attempt {work : Play (StateM W) Unit} {opcode : Opcode} {operands : List Word}
    (h : attempt? opcode operands = some work)
    (hplay : machine.play host work w = ((.ok (), after), w')) : Anew after := by
  unfold attempt? at h
  split at h
  · split at h
    · exact nomatch h
    · obtain rfl := Option.some.inj h
      exact anew_of_reloadFile hplay
  · obtain rfl := Option.some.inj h
    exact anew_of_undo hplay
  · exact nomatch h

/-- No read waits for the stack that a story enters with. -/
theorem unawaited_of_entrance {memory : Memory} {pc : Nat} {stack : CallStack}
    (h : entrance memory = .ok (pc, stack)) : Unawaited stack := by
  unfold entrance at h
  dsimp only at h
  split at h
  · rcases CallStack.run_call {} memory (memory.story.routineAddress (memory.headerWord .initialPC))
        [] 0 none none with ⟨frame, first, hcall, hentry, -⟩ | ⟨fault, hcall⟩ <;> rw [hcall] at h
    · cases h
      intro mark hmark
      rcases List.mem_cons.mp hmark with rfl | hmark
      · exact hentry.pending_eq
      · rcases List.mem_singleton.mp hmark with rfl
        rfl
    · exact nomatch h
  · cases h
    intro mark hmark
    rcases List.mem_singleton.mp hmark with rfl
    rfl

/-- A machine that starts again begins anew. -/
theorem anew_of_restart (hplay : machine.play host restart w = ((.ok (), after), w')) :
    Anew after := by
  obtain ⟨_, _, _, -, hplay⟩ := play_bind_ok hplay
  obtain ⟨_, _, _, -, hplay⟩ := play_bind_ok hplay
  obtain ⟨_, _, _, -, hplay⟩ := play_bind_ok hplay
  obtain ⟨_, _, _, -, hplay⟩ := play_bind_ok hplay
  obtain ⟨_, _, _, -, hplay⟩ := play_bind_ok hplay
  obtain ⟨_, cleared, _, -, hplay⟩ := play_bind_ok hplay
  rw [play_bind_of_ok (play_modify cleared host _ _), play_bind_of_ok (play_note _ host _ _),
    play_start_eq] at hplay
  cases hentrance : entrance cleared.memory with
  | error fault =>
      dsimp only at hplay
      rw [hentrance] at hplay
      exact nomatch hplay
  | ok place =>
      obtain ⟨pc, stack⟩ := place
      dsimp only at hplay
      rw [hentrance] at hplay
      cases hplay
      exact ⟨unawaited_of_entrance hentrance, rfl, faithful_of_empty rfl⟩

/-! ## One step, and many -/

/-- **A machine whose stack is replaced begins anew.** -/
theorem anew_of_replaces (h : Replaces host machine w after) : Anew after := by
  cases h with
  | restart hresume hfetch hopcode hplay => exact anew_of_restart hplay
  | goBack hresume hfetch hattempt hplay => exact anew_of_attempt hattempt hplay

/-- **One step** enters a routine, or leaves some, or neither, unless the machine begins anew. -/
theorem proceeds_of_step (hplay : machine.play host step w = ((.ok (), after), w')) :
    Proceeds { machine with resume := none } after ∨ Anew after :=
  (turns_of_step hplay).imp Turns.proceeds anew_of_replaces

/-- **One step** keeps the dictionaries faithful. -/
theorem faithful_of_step (hplay : machine.play host step w = ((.ok (), after), w'))
    (h : machine.Faithful) : after.Faithful := by
  have hends {machine : Machine} {work : Play (StateM W) Unit} {v : W} (hwork : Ends work)
      (hplay : machine.play host work v = ((.ok (), after), w')) (h : machine.Faithful) :
      after.Faithful :=
    ((hwork host machine v).1 () after w' hplay).faithful h
  cases hresume : machine.resume with
  | some read =>
      obtain ⟨pending, value⟩ := read
      rw [play_step_of_resume hresume] at hplay
      exact hends (answers_resumeRead value pending).quiet.ends hplay h
  | none =>
      rw [play_step_of_fetch hresume] at hplay
      obtain ⟨⟨instruction, operands⟩, poised, v, hfetch, hcarry⟩ := play_bind_ok hplay
      have hpoised : poised.Faithful := by
        rw [(fetched_of_play hfetch).poised_eq]
        exact h
      rcases @carryOut_cases W instruction operands with
        hplain | hrestart | ⟨-, hkeep⟩ | ⟨work, otherwise, warning, hattempt, hotherwise, hback⟩
      · exact hends hplain hcarry hpoised
      · rw [hrestart] at hcarry
        exact (anew_of_restart hcarry).faithful
      · rw [hkeep] at hcarry
        obtain ⟨v', hstore⟩ := play_saveUndo host poised v instruction
        rw [hstore] at hcarry
        exact hends (quiet_store instruction _).ends hcarry hpoised
      · rw [hback] at hcarry
        rcases play_reloadOr_ok hattempt hcarry with ⟨_, hwork⟩ | ⟨v', hother⟩
        · exact (anew_of_attempt hattempt hwork).faithful
        · exact hends hotherwise hother hpoised

/-- Steps that go well, each of them from a machine with more than some number of frames. -/
inductive Above (host : Host (StateM W)) (depth : Nat) (first : Machine) (u : W) :
    Machine → W → Prop
  | refl : Above host depth first u first u
  | step {machine after : Machine} {w w' : W} (h : Above host depth first u machine w)
      (hdepth : depth < machine.stack.depth) (hhalted : machine.halted = none)
      (hplay : machine.play host step w = ((.ok (), after), w')) :
      Above host depth first u after w'

/-- The oldest marks are some given ones, or no read waits for any of them. -/
def Kept (marks oldest : List (Nat × Option PendingRead)) : Prop :=
  oldest <:+ marks ∨
    ∃ others, others <:+ marks ∧ others.length = oldest.length ∧ ∀ mark ∈ others, mark.2 = none

/-- Frames that are not left stay. -/
theorem Kept.of_suffix {marks later oldest : List (Nat × Option PendingRead)}
    (h : Kept marks oldest) (hlater : later <:+ marks) (hlength : oldest.length ≤ later.length) :
    Kept later oldest := by
  rcases h with h | ⟨others, hothers, hsame, hnone⟩
  · exact .inl (List.suffix_of_suffix_length_le h hlater hlength)
  · exact .inr ⟨others, List.suffix_of_suffix_length_le hothers hlater (by omega), hsame, hnone⟩

/-- One step keeps the oldest frames that it does not leave.  Where the stack is replaced, no read
waits for its frames. -/
theorem kept_of_step {oldest : List (Nat × Option PendingRead)}
    (hplay : machine.play host step w = ((.ok (), after), w'))
    (h : Kept machine.stack.marks oldest) (hlength : oldest.length ≤ after.stack.depth) :
    Kept after.stack.marks oldest := by
  rw [← CallStack.length_marks] at hlength
  rcases proceeds_of_step hplay with (hleaves | ⟨mark, hmarks, -⟩) | hanew
  · cases hleaves with
    | frames hmarks => exact h.of_suffix hmarks hlength
    | awaited newer read value hmarks =>
        refine h.of_suffix ⟨newer ++ [(after.pc, some read)], ?_⟩ hlength
        rw [List.append_assoc]
        exact hmarks.symm
  · rw [hmarks]
    exact h.imp (List.IsSuffix.trans · (List.suffix_cons _ _))
      fun ⟨others, hothers, hrest⟩ => ⟨others, hothers.trans (List.suffix_cons _ _), hrest⟩
  · refine .inr ⟨after.stack.marks.drop (after.stack.marks.length - oldest.length),
      List.drop_suffix _ _, ?_, fun mark hmark => hanew.unawaited mark (List.mem_of_mem_drop hmark)⟩
    rw [List.length_drop]
    omega

/-- **While a run stays above some frames**, they are kept. -/
theorem kept_of_above {depth : Nat} {first : Machine} {u : W}
    {oldest : List (Nat × Option PendingRead)} (h : Above host depth first u machine w)
    (hfirst : Kept first.stack.marks oldest) (hlength : oldest.length = depth + 1)
    (hdepth : depth < machine.stack.depth) : Kept machine.stack.marks oldest := by
  induction h with
  | refl => exact hfirst
  | step _ hbefore _ hplay ih =>
      refine kept_of_step hplay (ih hbefore) ?_
      omega

/-- **A run that ends with a value for a read**, right below the frame that it began in, has left
that frame: the machine is where the frame returns to, and the read is the one that waited for it. -/
theorem mark_of_ended {first : Machine} {u : W} {mark : Nat × Option PendingRead}
    {older : List (Nat × Option PendingRead)} {read : PendingRead} {value : Word}
    (hfirst : first.stack.marks = mark :: older)
    (h : Above host older.length first u machine w) (hdepth : machine.stack.depth = older.length)
    (hresume : machine.resume = some (read, value)) : mark = (machine.pc, some read) := by
  cases h with
  | refl =>
      rw [← CallStack.length_marks, hfirst, List.length_cons] at hdepth
      omega
  | @step before _ _ _ h hbefore _ hplay =>
      have hkept : Kept before.stack.marks (mark :: older) :=
        kept_of_above h (.inl (hfirst ▸ List.suffix_refl _)) rfl hbefore
      have hnone (hsame : machine.resume = none) : mark = (machine.pc, some read) := by
        rw [hsame] at hresume
        exact nomatch hresume
      rcases proceeds_of_step hplay with (hleaves | ⟨-, -, hsame⟩) | hanew
      · cases hleaves with
        | frames _ hsame => exact hnone hsame
        | awaited newer read' value' hmarks hread =>
            obtain ⟨rfl, rfl⟩ : read' = read ∧ value' = value := by
              simpa using hread.symm.trans hresume
            have hleft : (machine.pc, some read') :: machine.stack.marks <:+ before.stack.marks :=
              ⟨newer, hmarks.symm⟩
            have hlength : machine.stack.marks.length = older.length := by
              rw [CallStack.length_marks, hdepth]
            rcases hkept with hkept | ⟨others, hothers, hsame, hunawaited⟩
            · have heq := (List.suffix_of_suffix_length_le hkept hleft (by simp [hlength])).eq_of_length
                (by simp [hlength])
              exact (List.cons.inj heq).1
            · have heq := (List.suffix_of_suffix_length_le hothers hleft
                (by simp [hlength, hsame])).eq_of_length (by simp [hlength, hsame])
              exact nomatch hunawaited (machine.pc, some read') (heq ▸ List.mem_cons_self)
      · exact hnone hsame
      · exact hnone hanew.resume_eq

end

end Play

end StoryMachine
