import StoryMachine.Proofs.Reachability
import StoryMachine.Proofs.StackEffect

/-!
# The frames and their words

The frames count their words, and the words lie in one list that all frames share.  As
long as no call has reported a fault the two agree (`orderly_of_untroubled`), whatever
the story does: routines that return or throw, routines that a read has started, and
snapshots of any origin included.

On a stack in order the words of the current frame are the last of the list
(`words_eq`).  That is all a frame can get at: `Guarded` says for each operation when it
fails, and that it leaves the words of older frames alone.
-/

namespace StoryMachine

namespace CallStack

/-! ## The words of the current frame -/

/-- The words of the current frame, the oldest first. -/
def ownWords (stack : CallStack) : List Word :=
  stack.words.drop (owned stack.callers)

/-- A stack that differs in the words of the current frame only. -/
structure Reworded (stack : CallStack) (own : List Word) (after : CallStack) : Prop where
  callers_eq : after.callers = stack.callers
  current_eq : after.current = { stack.current with size := own.length }
  words_eq : after.words = stack.olderWords ++ own

section

variable {stack : CallStack} {own gone : List Word} {word top : Word}

/-- The words of the stack are those of older frames and then those of the current one. -/
theorem words_eq (stack : CallStack) : stack.words = stack.olderWords ++ stack.ownWords :=
  (List.take_append_drop _ _).symm

/-- From the top, the words are those of the current frame and then the others. -/
theorem values_words_eq (stack : CallStack) :
    stack.values.words = stack.ownWords.reverse ++ stack.olderWords.reverse := by
  rw [← List.reverse_append, ← words_eq, words, List.reverse_reverse]

/-- A stack in order accounts for its words. -/
theorem Orderly.accounted (h : stack.Orderly) : stack.Accounted := h.owned_eq

/-- The current frame of a stack in order has as many words as it claims. -/
theorem Orderly.length_ownWords (h : stack.Orderly) :
    stack.ownWords.length = stack.current.size := by
  have haccounted := accounted_iff.mp h.accounted
  rw [ownWords, List.length_drop, length_words]
  omega

/-- The current frame of a stack in order claims no more words than there are. -/
theorem Orderly.size_le (h : stack.Orderly) : stack.current.size ≤ stack.values.size := by
  have haccounted := accounted_iff.mp h.accounted
  omega

/-- A frame that has no words claims none. -/
theorem Orderly.size_eq_zero (h : stack.Orderly) (hown : stack.ownWords = []) :
    stack.current.size = 0 := by
  rw [← h.length_ownWords, hown, List.length_nil]

/-- A frame that has a word claims some. -/
theorem Orderly.size_ne_zero (h : stack.Orderly) (hown : stack.ownWords = own ++ [word]) :
    stack.current.size ≠ 0 := by
  rw [← h.length_ownWords, hown, List.length_append, List.length_singleton]
  exact Nat.succ_ne_zero _

/-- The last word of the current frame is on top. -/
theorem values_words_of_append (hown : stack.ownWords = own ++ [word]) :
    stack.values.words = word :: (own.reverse ++ stack.olderWords.reverse) := by
  rw [values_words_eq, hown, List.reverse_append]
  rfl

/-- Words are dropped from the end of the current frame. -/
theorem Orderly.reworded_dropped (h : stack.Orderly) (hown : stack.ownWords = own ++ gone) :
    stack.Reworded own (stack.dropped gone.length) := by
  have hsize : stack.current.size - gone.length = own.length := by
    rw [← h.length_ownWords, hown, List.length_append, Nat.add_sub_cancel]
  refine ⟨rfl, ?_, ?_⟩
  · rw [← hsize]
    rfl
  · show ((stack.values.words).drop gone.length).reverse = _
    rw [values_words_eq, hown, List.reverse_append, List.append_assoc,
      List.drop_left' List.length_reverse, List.reverse_append, List.reverse_reverse,
      List.reverse_reverse]

/-- Replacing the top word changes the words of the current frame only. -/
theorem Orderly.reworded_poked (h : stack.Orderly) (hown : stack.ownWords = own ++ [top])
    (word : Word) : stack.Reworded (own ++ [word]) (stack.poked word) := by
  obtain ⟨-, hcurrent, hwords⟩ := h.reworded_dropped hown
  refine ⟨rfl, ?_, ?_⟩
  · have hsize : stack.current.size = (own ++ [word]).length := by
      rw [← h.length_ownWords, hown, List.length_append, List.length_append]
      rfl
    rw [← hsize]
    rfl
  · have hpushed : (stack.poked word).words = (stack.dropped [top].length).words ++ [word] :=
      List.reverse_cons
    rw [hpushed, hwords, List.append_assoc]

/-- What is left of the words when the current frame is left. -/
theorem Orderly.words_left (h : stack.Orderly) (caller : Frame) (older : List Frame) :
    (stack.left caller older).words = stack.olderWords := by
  show ((stack.values.words).drop stack.current.size).reverse = _
  rw [values_words_eq, ← h.length_ownWords, List.drop_left' List.length_reverse,
    List.reverse_reverse]

end

/-! ## What a frame can get at -/

/-- A stack on which every operation stays within the current frame, and fails, with nothing
changed, exactly where this frame holds too few words. -/
structure Guarded (stack : CallStack) : Prop where
  length_ownWords : stack.ownWords.length = stack.current.size
  /-- The main routine cannot be left. -/
  ret_of_nil : stack.callers = [] → ∃ fault, stack.run ret = (.error fault, stack)
  /-- Any other routine is left with all its words, and nothing else goes. -/
  ret_of_cons : ∀ caller older, stack.callers = caller :: older → ∃ after,
    stack.run ret = (.ok stack.current, after) ∧ after.current = caller ∧ after.callers = older ∧
      after.words = stack.olderWords
  pop_of_nil : stack.ownWords = [] → stack.run pop = (.error WordStack.underflow, stack)
  pop_of_append : ∀ own word, stack.ownWords = own ++ [word] → ∃ after,
    stack.run pop = (.ok word, after) ∧ stack.Reworded own after
  peek_of_nil : stack.ownWords = [] → stack.peek = .error WordStack.underflow
  peek_of_append : ∀ own word, stack.ownWords = own ++ [word] → stack.peek = .ok word
  poke_of_nil : ∀ word, stack.ownWords = [] →
    stack.run (poke word) = (.error WordStack.underflow, stack)
  poke_of_append : ∀ own top word, stack.ownWords = own ++ [top] → ∃ after,
    stack.run (poke word) = (.ok (), after) ∧ stack.Reworded (own ++ [word]) after
  popMany_of_lt : ∀ count, stack.ownWords.length < count →
    stack.run (popMany count) = (.error WordStack.underflow, stack)
  popMany_of_append : ∀ own gone, stack.ownWords = own ++ gone → ∃ after,
    stack.run (popMany gone.length) = (.ok (), after) ∧ stack.Reworded own after

variable {stack : CallStack}

/-- A frame that owns no word has none to look at. -/
theorem peek_of_zero (h : stack.current.size = 0) : stack.peek = .error WordStack.underflow := by
  unfold peek
  rw [h]
  split <;> rfl

/-- A frame that owns words shows the top one. -/
theorem peek_of_cons {word : Word} {rest : List Word} (h : stack.current.size ≠ 0)
    (hwords : stack.values.words = word :: rest) : stack.peek = .ok word := by
  unfold peek
  rw [hwords]
  exact if_pos (Nat.pos_of_ne_zero h)

/-- **On a stack in order no frame can get at the words of another.** -/
theorem Orderly.guarded (h : stack.Orderly) : stack.Guarded where
  length_ownWords := h.length_ownWords
  ret_of_nil hcallers := ⟨_, stack.run_ret_of_nil hcallers⟩
  ret_of_cons caller older hcallers :=
    ⟨_, stack.run_ret_of_cons hcallers h.size_le, rfl, rfl, h.words_left caller older⟩
  pop_of_nil hown := stack.run_pop_of_zero (h.size_eq_zero hown)
  pop_of_append own word hown :=
    ⟨_, stack.run_pop_of_cons (h.size_ne_zero hown) (values_words_of_append hown),
      h.reworded_dropped hown⟩
  peek_of_nil hown := peek_of_zero (h.size_eq_zero hown)
  peek_of_append own word hown :=
    peek_of_cons (h.size_ne_zero hown) (values_words_of_append hown)
  poke_of_nil word hown := stack.run_poke_of_zero word (h.size_eq_zero hown)
  poke_of_append own top word hown :=
    ⟨_, stack.run_poke_of_cons word (h.size_ne_zero hown) (values_words_of_append hown),
      h.reworded_poked hown word⟩
  popMany_of_lt count hcount := stack.run_popMany_of_lt (h.length_ownWords ▸ hcount)
  popMany_of_append own gone hown := by
    have hsize : gone.length ≤ stack.current.size := by
      rw [← h.length_ownWords, hown, List.length_append]
      exact Nat.le_add_left _ _
    exact ⟨_, stack.run_popMany_of_le hsize (Nat.le_trans hsize h.size_le),
      h.reworded_dropped hown⟩

end CallStack

namespace Machine

open Play

/-! ## Runs in which nothing went wrong -/

/-- The machines that can be reached from an image, with any hosts, by calls none of which has
reported a fault. -/
inductive Untroubled (image : Array UInt8) : Machine → Prop
  | create {W : Type} {host : Host (StateM W)} {options : Options} {w w' : W} {machine : Machine}
      (h : create host image options w = (.ok machine, w')) : Untroubled image machine
  | execute {W : Type} {host : Host (StateM W)} {cycles : Nat} {w w' : W} {machine after : Machine}
      {event : Event} (hreach : Untroubled image machine)
      (h : machine.execute host cycles w = ((event, after), w'))
      (hevent : ∀ fault, event ≠ .error fault) : Untroubled image after
  | restart {W : Type} {host : Host (StateM W)} {w w' : W} {machine after : Machine}
      (hreach : Untroubled image machine)
      (h : machine.play host restart w = ((.ok (), after), w')) : Untroubled image after
  | sendBack {W : Type} {host : Host (StateM W)} {w w' : W} {machine after : Machine}
      (how : Recall) (hreach : Untroubled image machine)
      (h : machine.play host how.work w = ((.ok (), after), w')) : Untroubled image after

variable {W : Type} {host : Host (StateM W)} {machine after : Machine} {w w' : W} {event : Event}
  {cycles : Nat} {image : Array UInt8}

/-- Executing says why the machine has halted, if it has. -/
theorem event_of_execute (h : machine.execute host cycles w = ((event, after), w')) {halt : Event}
    (hhalted : after.halted = some halt) : event = halt := by
  induction cycles generalizing machine w with
  | zero =>
      cases hbefore : machine.halted with
      | some halt' =>
          rw [execute_of_halted 0 hbefore] at h
          cases h
          exact Option.some.inj (hbefore.symm.trans hhalted)
      | none =>
          obtain ⟨event', hzero⟩ := @execute_zero W host machine w
          rw [hzero] at h
          cases h
          rw [hbefore] at hhalted
          exact nomatch hhalted
  | succ cycles ih =>
      cases hbefore : machine.halted with
      | some halt' =>
          rw [execute_of_halted (cycles + 1) hbefore] at h
          cases h
          exact Option.some.inj (hbefore.symm.trans hhalted)
      | none =>
          rcases hplay : machine.play host step w with ⟨⟨outcome, middle⟩, v⟩
          obtain ⟨v', hrest⟩ := execute_succ_of_play cycles hbefore hplay
          rw [hrest] at h
          exact ih h

/-- The stack is in order unless a fault has halted the machine. -/
def KeepsOrder (machine : Machine) : Prop :=
  (∀ fault, machine.halted ≠ some (.error fault)) → machine.stack.Orderly

/-- A step keeps the stack in order unless a fault halts the machine. -/
theorem keepsOrder_of_step {outcome : Except Fault Unit} (hhalted : machine.halted = none)
    (h : machine.KeepsOrder) (hplay : machine.play host step w = ((outcome, after), w')) :
    (stopped outcome after).KeepsOrder := by
  have horderly : machine.stack.Orderly := h fun fault heq => nomatch hhalted.symm.trans heq
  cases outcome with
  | ok _ => exact fun _ => (sound_of_step hplay).2.2 rfl horderly
  | error fault => exact fun hnone => absurd rfl (hnone _)

/-- Executing without a fault leaves the stack in order. -/
theorem orderly_of_execute (horderly : machine.stack.Orderly)
    (h : machine.execute host cycles w = ((event, after), w'))
    (hevent : ∀ fault, event ≠ .error fault) : after.stack.Orderly := by
  have hafter : after.KeepsOrder := by
    refine execute_induction ?_ (fun _ => horderly) h
    intro machine after outcome w w' hhalted hkeeps hplay
    exact keepsOrder_of_step hhalted hkeeps hplay
  exact hafter fun fault hhalted => hevent fault (event_of_execute h hhalted)

/-- Calls that report no fault keep the stack in order. -/
theorem orderly_of_untroubled (h : Untroubled image machine) : machine.stack.Orderly := by
  induction h with
  | create h => exact (created_of_create h).storable.orderly
  | execute hreach h hevent ih => exact orderly_of_execute ih h hevent
  | restart hreach h ih =>
      rcases (restarted_of_play h).started with ⟨hfailed, -⟩ | ⟨-, -, hstorable, -⟩
      · exact absurd rfl hfailed
      · exact hstorable.orderly
  | sendBack how hreach h ih => exact (reload_recall how h).2.2

/-- **The call stack is sound.**  Take any machine that was reached from an image by calls none
of which has reported a fault.  There is a frame; the frames own exactly the words there are,
which are not too many; and no frame has more than 15 locals.  So no operation gets at the words
of an older frame: it fails, with nothing changed, exactly where the current frame holds too few
words, and a routine that can be left is left with all its words. -/
theorem call_stack_sound (h : Untroubled image machine) :
    machine.stack.frames ≠ [] ∧ machine.stack.Orderly ∧ machine.stack.Guarded := by
  have horderly := orderly_of_untroubled h
  refine ⟨fun hnil => ?_, horderly, horderly.guarded⟩
  have hmem : machine.stack.current ∈ machine.stack.frames := CallStack.mem_frames.mpr (.inl rfl)
  rw [hnil] at hmem
  exact nomatch hmem

/-- A machine that has executed without a fault is untroubled. -/
theorem untroubled_executed (host : Host (StateM Unit)) (cycles : Nat)
    (h : Untroubled image machine)
    (hevent : ∀ fault, (machine.execute host cycles ()).1.1 ≠ .error fault) :
    Untroubled image (machine.execute host cycles ()).1.2 :=
  .execute h rfl hevent

/-- A story that pushes 5 and calls a routine with one local, which pushes 7. -/
def nesting : Array UInt8 :=
  storyOf [0xe8, 0x7f, 5, 0xf9, 0x7f, 20, 0xba, 0, 1, 0xe8, 0x7f, 7]

def nester : Machine :=
  ((create deaf nesting {} ()).1.toOption).get rfl

/-- The machine in the routine. -/
def nested : Machine := (nester.execute deaf 3 ()).1.2

theorem untroubled_nested : Untroubled nesting nested := by
  have hcreate : Untroubled nesting nester :=
    @Untroubled.create nesting Unit deaf {} () () nester rfl
  have hrunning : (nester.execute deaf 3 ()).1.1 = .running := by decide +kernel
  exact untroubled_executed deaf 3 hcreate fun fault => by rw [hrunning]; exact nofun

/-- The routine can take one word and no more, though its caller has another. -/
theorem call_stack_sound_nested :
    nested.stack.words = [5, 7] ∧ nested.stack.depth = 2 ∧
      nested.stack.run (CallStack.popMany 2) = (.error WordStack.underflow, nested.stack) ∧
      ∃ after, nested.stack.run CallStack.pop = (.ok 7, after) ∧ after.words = [5] := by
  obtain ⟨-, -, hguarded⟩ := call_stack_sound untroubled_nested
  have hown : nested.stack.ownWords = [] ++ [7] := by decide +kernel
  have holder : nested.stack.olderWords = [5] := by decide +kernel
  refine ⟨by decide +kernel, by decide +kernel, hguarded.popMany_of_lt 2 (by rw [hown]; decide), ?_⟩
  obtain ⟨after, hpop, hreworded⟩ := hguarded.pop_of_append [] 7 hown
  refine ⟨after, hpop, ?_⟩
  rw [hreworded.words_eq, holder]
  rfl

end Machine

end StoryMachine
