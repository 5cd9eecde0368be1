import StoryMachine.Proofs.DictionaryCache
import StoryMachine.Proofs.Endurance

/-!
# What an instruction can do to the machine

Whatever an instruction does, it does in moves: it works on memory, on the streams,
on the call stack, draws a random number, remembers a dictionary, enters a routine
or returns from one.  At its end it may leave things as they are, jump, hand a value
to a read that waits, or stop the story.  A fault on the way leaves the *setting* of
the machine alone: its story, tables, options and undo generations.  The stack endures
it, whatever it was (`Withstands`).

`Quiet` work only moves and `Ends` is work that moves and then ends.  Every part of
the machine except starting, restoring and undoing is shown to be one or the other
here, for every host.  What holds of all states of a run is then a matter of the few
moves (`SameSetting`, `Sound` in the modules that follow), not of the instructions.
Of most quiet work it is known as well what becomes of the stack (`Shifts`): `Calm`
work leaves it as it is, and `Delivers` is work that writes one variable.
-/

namespace StoryMachine

variable {W α β : Type}

namespace Machine

/-- What stays when an instruction is executed, also if that fails. -/
structure SameSetting (machine after : Machine) : Prop where
  story_eq : after.memory.story = machine.memory.story
  objects_eq : after.objects = machine.objects
  globals_eq : after.globals = machine.globals
  codec_eq : after.codec = machine.codec
  undo_eq : after.undo = machine.undo
  options_eq : after.options = machine.options
  info_eq : after.info = machine.info

/-- A machine has the setting that it has. -/
theorem SameSetting.refl (machine : Machine) : SameSetting machine machine :=
  ⟨rfl, rfl, rfl, rfl, rfl, rfl, rfl⟩

/-- The setting stays over two changes if it stays over each. -/
theorem SameSetting.trans {machine middle after : Machine} (h : SameSetting machine middle)
    (h' : SameSetting middle after) : SameSetting machine after :=
  ⟨h'.1.trans h.1, h'.2.trans h.2, h'.3.trans h.3, h'.4.trans h.4, h'.5.trans h.5,
    h'.6.trans h.6, h'.7.trans h.7⟩

/-- What an instruction leaves, also if it fails: the setting, and a stack that has endured
it. -/
structure Withstands (machine after : Machine) : Prop extends SameSetting machine after where
  stack_endures : machine.stack.Endures after.stack

/-- What does nothing has been withstood. -/
theorem Withstands.refl (machine : Machine) : Withstands machine machine :=
  ⟨.refl machine, .refl machine.stack⟩

/-- What two parts of an instruction leave has been withstood if each has. -/
theorem Withstands.trans {machine middle after : Machine} (h : Withstands machine middle)
    (h' : Withstands middle after) : Withstands machine after :=
  ⟨h.toSameSetting.trans h'.toSameSetting, h.stack_endures.trans h'.stack_endures⟩

/-- The machine after its current frame was left, given the frames below it. -/
def backIn (machine : Machine) (caller : Frame) (older : List Frame) : Machine :=
  { machine with
    stack := machine.stack.left caller older
    pc := machine.stack.current.returnPc }

/-- The dictionaries that are kept answer as the story's own would. -/
def Faithful (machine : Machine) : Prop :=
  Dictionaries.Faithful machine.codec machine.memory.dynamicCeiling machine.memory.story.image
    machine.dictionaries

/-- What one part of an instruction can do if it goes well. -/
inductive Move (machine : Machine) : Machine → Prop
  | memory (memory : Memory) (h : memory.story = machine.memory.story) :
      Move machine { machine with memory }
  | streams (streams : Streams) : Move machine { machine with streams }
  | random (random : Random) : Move machine { machine with random }
  | dictionaries (dictionaries : Dictionaries)
      (h : machine.Faithful → Faithful { machine with dictionaries }) :
      Move machine { machine with dictionaries }
  | stack (stack : CallStack) (h : machine.stack.Move stack) : Move machine { machine with stack }
  | enter (store : Option UInt8) (pending : Option PendingRead) (frame : Frame) (first : Nat)
      (h : CallStack.Entry machine.memory machine.pc store pending frame first)
      (hdepth : machine.stack.depth < CallStack.maxFrames) :
      Move machine { machine with stack := machine.stack.entered frame, pc := first }
  | ret (caller : Frame) (older : List Frame) (h : machine.stack.callers = caller :: older)
      (hvalues : machine.stack.current.size ≤ machine.stack.values.size) :
      Move machine (machine.backIn caller older)

/-- What the parts of an instruction can do one after another. -/
abbrev Moves : Machine → Machine → Prop := Relation.ReflTransGen Move

/-- How an instruction can end. -/
inductive Last (machine : Machine) : Machine → Prop
  | stay : Last machine machine
  | jump (pc : Nat) : Last machine { machine with pc }
  | resume (read : PendingRead × Word) : Last machine { machine with resume := some read }
  | quit : Last machine { machine with halted := some .quit }

/-- What an instruction can do from beginning to end. -/
def Finishes (machine after : Machine) : Prop :=
  ∃ middle, Moves machine middle ∧ Last middle after

/-- A machine withstands every move. -/
theorem Move.withstands {machine after : Machine} (h : machine.Move after) :
    Withstands machine after := by
  cases h with
  | memory memory h => exact ⟨⟨h, rfl, rfl, rfl, rfl, rfl, rfl⟩, .refl machine.stack⟩
  | stack stack h => exact ⟨⟨rfl, rfl, rfl, rfl, rfl, rfl, rfl⟩, h.endures⟩
  | enter store pending frame first hentry hdepth =>
      exact ⟨⟨rfl, rfl, rfl, rfl, rfl, rfl, rfl⟩,
        CallStack.endures_entered hdepth hentry.size_eq hentry.locals_le⟩
  | ret caller older hcallers hvalues =>
      exact ⟨⟨rfl, rfl, rfl, rfl, rfl, rfl, rfl⟩,
        (CallStack.Move.leave caller older hcallers hvalues).endures⟩
  | _ => exact ⟨⟨rfl, rfl, rfl, rfl, rfl, rfl, rfl⟩, .refl machine.stack⟩

/-- A machine withstands moves one after another. -/
theorem Moves.withstands {machine after : Machine} (h : machine.Moves after) :
    Withstands machine after := by
  induction h with
  | refl => exact .refl machine
  | tail _ hmove ih => exact ih.trans hmove.withstands

/-- A machine withstands the end of an instruction. -/
theorem Last.withstands {machine after : Machine} (h : machine.Last after) :
    Withstands machine after := by
  cases h <;> exact ⟨⟨rfl, rfl, rfl, rfl, rfl, rfl, rfl⟩, .refl machine.stack⟩

/-- **A machine withstands an instruction** that goes well. -/
theorem Finishes.withstands {machine after : Machine} (h : machine.Finishes after) :
    Withstands machine after := by
  obtain ⟨middle, hmoves, hlast⟩ := h
  exact hmoves.withstands.trans hlast.withstands

/-- Whether dictionaries are faithful is a matter of the story and its text tables. -/
theorem Faithful.congr {machine after : Machine} (h : machine.Faithful)
    (hcodec : after.codec = machine.codec) (hstory : after.memory.story = machine.memory.story)
    (hkept : after.dictionaries = machine.dictionaries) : after.Faithful := by
  unfold Faithful Memory.dynamicCeiling at h ⊢
  rw [hcodec, hstory, hkept]
  exact h

/-- A move leaves the kept dictionaries faithful: new ones are, and the rest stays. -/
theorem Move.faithful {machine after : Machine} (hmove : machine.Move after)
    (h : machine.Faithful) : after.Faithful := by
  cases hmove with
  | memory memory hstory => exact h.congr rfl hstory rfl
  | dictionaries dictionaries hkept => exact hkept h
  | _ => exact h

/-- Moves leave the kept dictionaries faithful. -/
theorem Moves.faithful {machine after : Machine} (hmoves : machine.Moves after)
    (h : machine.Faithful) : after.Faithful := by
  induction hmoves with
  | refl => exact h
  | tail _ hmove ih => exact hmove.faithful ih

/-- An instruction that goes well leaves the kept dictionaries faithful. -/
theorem Finishes.faithful {machine after : Machine} (hfinishes : machine.Finishes after)
    (h : machine.Faithful) : after.Faithful := by
  obtain ⟨middle, hmoves, hlast⟩ := hfinishes
  have hmiddle := hmoves.faithful h
  cases hlast <;> exact hmiddle

/-- Moves on the stack are moves of the machine. -/
theorem moves_stack (machine : Machine) {stack : CallStack}
    (h : Relation.ReflTransGen CallStack.Move machine.stack stack) :
    machine.Moves { machine with stack } := by
  induction h with
  | refl => exact .refl
  | tail _ hmove ih => exact ih.tail (.stack _ hmove)

end Machine

/-! ## Kinds of work -/

namespace Play

open Machine

/-- Work that, where it goes well, takes the machine along a relation. -/
def Leads (R : Machine → Machine → Prop) (work : Play (StateM W) α) : Prop :=
  ∀ (host : Host (StateM W)) (machine : Machine) (w : W),
    (∀ a after w', machine.play host work w = ((.ok a, after), w') → R machine after) ∧
      ∀ fault after w', machine.play host work w = ((.error fault, after), w') →
        Withstands machine after

/-- Work that only moves. -/
abbrev Quiet (work : Play (StateM W) α) : Prop := Leads Moves work

/-- Work that moves, and then ends. -/
abbrev Ends (work : Play (StateM W) α) : Prop := Leads Finishes work

/-- Work that leaves the machine as it is. -/
def Reads (work : Play (StateM W) α) : Prop :=
  ∀ (host : Host (StateM W)) (machine : Machine) (w : W), (machine.play host work w).1.2 = machine

/-- Quiet work after which the stack stands in some relation to what it was. -/
abbrev Shifts (Q : CallStack → CallStack → Prop) (work : Play (StateM W) α) : Prop :=
  Leads (fun machine after => Moves machine after ∧ Q machine.stack after.stack) work

/-- Quiet work that leaves the stack as it is. -/
abbrev Calm (work : Play (StateM W) α) : Prop := Shifts (fun stack after => after = stack) work

/-- Quiet work that delivers one value to a variable and does nothing else to the stack. -/
abbrev Delivers (target : Option UInt8) (work : Play (StateM W) α) : Prop :=
  Shifts (fun stack after => ∃ value, after = stack.delivered target value) work

/-- Work that moves, and then work that leads along a relation.  Together they lead along what
the two relations make. -/
theorem Leads.bind {R S T : Machine → Machine → Prop}
    (hR : ∀ {machine middle}, R machine middle → Moves machine middle)
    (hT : ∀ {machine middle after}, R machine middle → S middle after → T machine after)
    {work : Play (StateM W) α} {next : α → Play (StateM W) β} (h : Leads R work)
    (hnext : ∀ a, Leads S (next a)) : Leads T (work >>= next) := by
  intro host machine w
  rcases hwork : machine.play host work w with ⟨⟨fault | a, middle⟩, v⟩
  · rw [play_bind_of_error hwork]
    constructor
    · intro b after w' heq
      exact nomatch heq
    · rintro _ _ _ ⟨⟩
      exact (h host machine w).2 fault middle v hwork
  · rw [play_bind_of_ok hwork]
    have hfirst := (h host machine w).1 a middle v hwork
    constructor
    · intro b after w' heq
      exact hT hfirst ((hnext a host middle v).1 b after w' heq)
    · intro fault after w' heq
      exact (hR hfirst).withstands.trans ((hnext a host middle v).2 fault after w' heq)

/-- Work that leads along a relation leads along a wider one. -/
theorem Leads.imp {R S : Machine → Machine → Prop} {work : Play (StateM W) α} (h : Leads R work)
    (hS : ∀ {machine after}, R machine after → S machine after) : Leads S work :=
  fun host machine w =>
    ⟨fun a after w' heq => hS ((h host machine w).1 a after w' heq), (h host machine w).2⟩

/-- Quiet work after quiet work is quiet. -/
theorem Quiet.bind {work : Play (StateM W) α} {next : α → Play (StateM W) β} (h : Quiet work)
    (hnext : ∀ a, Quiet (next a)) : Quiet (work >>= next) :=
  Leads.bind (R := Moves) (S := Moves) (T := Moves) id Relation.ReflTransGen.trans h hnext

/-- Quiet work before the end of an instruction belongs to it. -/
theorem Quiet.ends_bind {work : Play (StateM W) α} {next : α → Play (StateM W) β} (h : Quiet work)
    (hnext : ∀ a, Ends (next a)) : Ends (work >>= next) :=
  Leads.bind id (fun hmoves ⟨middle, hmoves', hlast⟩ => ⟨middle, hmoves.trans hmoves', hlast⟩) h
    hnext

/-- Work that shifts the stack is quiet. -/
theorem Shifts.quiet {Q : CallStack → CallStack → Prop} {work : Play (StateM W) α}
    (h : Shifts Q work) : Quiet work := h.imp And.left

/-- A shift of the stack is also a wider one. -/
theorem Shifts.imp {Q R : CallStack → CallStack → Prop} {work : Play (StateM W) α}
    (h : Shifts Q work) (hR : ∀ {stack after}, Q stack after → R stack after) : Shifts R work :=
  Leads.imp h fun hboth => ⟨hboth.1, hR hboth.2⟩

/-- Calm work first makes no difference to what reads nothing but the stack at its beginning. -/
theorem Calm.leads_bind {R : CallStack → Machine → Prop} {work : Play (StateM W) α}
    {next : α → Play (StateM W) β} (h : Calm work)
    (hnext : ∀ a, Leads (fun machine after => R machine.stack after) (next a)) :
    Leads (fun machine after => R machine.stack after) (work >>= next) :=
  Leads.bind And.left (fun hfirst hsecond => hfirst.2 ▸ hsecond) h hnext

/-- Calm work before a shift belongs to it. -/
theorem Calm.shifts_bind {Q : CallStack → CallStack → Prop} {work : Play (StateM W) α}
    {next : α → Play (StateM W) β} (h : Calm work) (hnext : ∀ a, Shifts Q (next a)) :
    Shifts Q (work >>= next) :=
  Leads.bind And.left
    (fun hfirst hsecond => ⟨hfirst.1.trans hsecond.1, hfirst.2 ▸ hsecond.2⟩) h hnext

/-- Calm work after calm work is calm. -/
theorem Calm.bind {work : Play (StateM W) α} {next : α → Play (StateM W) β} (h : Calm work)
    (hnext : ∀ a, Calm (next a)) : Calm (work >>= next) := h.shifts_bind hnext

/-- Calm work after a move that leaves the stack as it is. -/
theorem Calm.after_move {work : Play (StateM W) α} (h : Calm work) {machine middle : Machine}
    (hmove : machine.Move middle) (hstack : middle.stack = machine.stack)
    (host : Host (StateM W)) (w : W) :
    (∀ a after w', middle.play host work w = ((.ok a, after), w') →
        Moves machine after ∧ after.stack = machine.stack) ∧
      ∀ fault after w', middle.play host work w = ((.error fault, after), w') →
        Withstands machine after := by
  obtain ⟨hok, herror⟩ := h host middle w
  refine ⟨fun a after w' heq => ?_, fun fault after w' heq => ?_⟩
  · obtain ⟨hmoves, hsame⟩ := hok a after w' heq
    exact ⟨hmoves.head hmove, hsame.trans hstack⟩
  · exact hmove.withstands.trans (herror fault after w' heq)

/-- Calm work afterwards does nothing more to the stack. -/
theorem Shifts.bind_calm {Q : CallStack → CallStack → Prop} {work : Play (StateM W) α}
    {next : α → Play (StateM W) β} (h : Shifts Q work) (hnext : ∀ a, Calm (next a)) :
    Shifts Q (work >>= next) :=
  Leads.bind And.left
    (fun hfirst hsecond => ⟨hfirst.1.trans hsecond.1, hsecond.2.symm ▸ hfirst.2⟩) h hnext

/-- Quiet work is the end of an instruction that stays where it is. -/
theorem Quiet.ends {work : Play (StateM W) α} (h : Quiet work) : Ends work :=
  h.imp fun {_ after} hmoves => ⟨after, hmoves, .stay⟩

/-- Work that leaves the machine leads to that machine. -/
theorem Reads.leads {work : Play (StateM W) α} (h : Reads work) :
    Leads (fun machine after => after = machine) work := by
  intro host machine w
  have hsame := h host machine w
  constructor
  · intro a after w' heq
    rw [heq] at hsame
    exact hsame
  · intro fault after w' heq
    rw [heq] at hsame
    obtain rfl : after = machine := hsame
    exact .refl _

/-- Looking first makes no difference. -/
theorem Reads.leads_bind {R : Machine → Machine → Prop} {work : Play (StateM W) α}
    {next : α → Play (StateM W) β} (h : Reads work) (hnext : ∀ a, Leads R (next a)) :
    Leads R (work >>= next) := by
  refine Leads.bind ?_ ?_ h.leads hnext
  · rintro machine _ rfl
    exact .refl
  · rintro machine _ after rfl hsecond
    exact hsecond

/-- Work that leaves the machine leaves the stack. -/
theorem Reads.calm {work : Play (StateM W) α} (h : Reads work) : Calm work := by
  refine h.leads.imp ?_
  rintro machine _ rfl
  exact ⟨.refl, rfl⟩

/-- Work that leaves the machine is quiet. -/
theorem Reads.quiet {work : Play (StateM W) α} (h : Reads work) : Quiet work := h.calm.quiet

/-- A choice leads where both sides do. -/
theorem Leads.ite {R : Machine → Machine → Prop} {c : Prop} [Decidable c]
    {work other : Play (StateM W) α} (h : Leads R work) (hother : Leads R other) :
    Leads R (if c then work else other) := by
  split
  · exact h
  · exact hother

theorem reads_pure (a : α) : Reads (pure a : Play (StateM W) α) := fun _ _ _ => rfl

theorem reads_throw (fault : Fault) : Reads (throw fault : Play (StateM W) α) := fun _ _ _ => rfl

/-- Looking at the machine leaves it. -/
theorem reads_get : Reads (get : Play (StateM W) Machine) := fun _ _ _ => rfl

/-- Asking the host leaves the machine. -/
theorem reads_ask (f : Host (StateM W) → StateM W α) : Reads (ask f) := fun _ _ _ => rfl

theorem reads_note (notice : Notice) : Reads (note notice : Play (StateM W) Unit) :=
  reads_ask _

theorem reads_view (f : Memory → α) : Reads (view f : Play (StateM W) α) := fun _ _ _ => rfl

theorem reads_ofExcept (outcome : Except Fault α) :
    Reads (MonadExcept.ofExcept outcome : Play (StateM W) α) := by
  intro host machine w
  rw [play_ofExcept]

/-- Reading memory leaves the machine, also if it fails. -/
theorem reads_look (f : Memory → Except Fault α) : Reads (look f : Play (StateM W) α) := by
  intro host machine w
  rw [play_look]

/-- **Work done in turn leaves the machine if each of its parts does.** -/
theorem Reads.bind {work : Play (StateM W) α} {next : α → Play (StateM W) β} (h : Reads work)
    (hnext : ∀ a, Reads (next a)) : Reads (work >>= next) := by
  intro host machine w
  have hsame := h host machine w
  rcases hwork : machine.play host work w with ⟨⟨fault | a, middle⟩, v⟩ <;> rw [hwork] at hsame
  · rw [play_bind_of_error hwork]
    exact hsame
  · rw [play_bind_of_ok hwork]
    exact (hnext a host middle v).trans hsame

/-- A choice leaves the machine if both sides do. -/
theorem Reads.ite {c : Prop} [Decidable c] {work other : Play (StateM W) α} (h : Reads work)
    (hother : Reads other) : Reads (if c then work else other) := by
  split
  · exact h
  · exact hother

/-- Work that leaves the machine may be tried, with a handler that leaves it as well. -/
theorem Reads.tryCatch {work : Play (StateM W) α} {handler : Fault → Play (StateM W) α}
    (h : Reads work) (hhandler : ∀ fault, Reads (handler fault)) :
    Reads (tryCatch work handler) := by
  intro host machine w
  have hsame := h host machine w
  rw [play_tryCatch]
  rcases hwork : machine.play host work w with ⟨⟨fault | a, middle⟩, v⟩ <;> rw [hwork] at hsame
  · exact (hhandler fault host middle v).trans hsame
  · exact hsame

theorem calm_pure (a : α) : Calm (pure a : Play (StateM W) α) := (reads_pure a).calm

theorem calm_throw (fault : Fault) : Calm (throw fault : Play (StateM W) α) :=
  (reads_throw fault).calm

theorem calm_get : Calm (get : Play (StateM W) Machine) := reads_get.calm

theorem calm_ask (f : Host (StateM W) → StateM W α) : Calm (ask f) := (reads_ask f).calm

theorem calm_note (notice : Notice) : Calm (note notice : Play (StateM W) Unit) :=
  (reads_note notice).calm

theorem calm_view (f : Memory → α) : Calm (view f : Play (StateM W) α) := (reads_view f).calm

theorem calm_look (f : Memory → Except Fault α) : Calm (look f : Play (StateM W) α) :=
  (reads_look f).calm

theorem calm_ofExcept (outcome : Except Fault α) :
    Calm (MonadExcept.ofExcept outcome : Play (StateM W) α) := (reads_ofExcept outcome).calm

theorem quiet_pure (a : α) : Quiet (pure a : Play (StateM W) α) := (calm_pure a).quiet

theorem quiet_throw (fault : Fault) : Quiet (throw fault : Play (StateM W) α) :=
  (calm_throw fault).quiet

/-- A change that stands in some relation to every machine it is made to. -/
theorem leads_modify {R : Machine → Machine → Prop} {f : Machine → Machine}
    (h : ∀ machine, R machine (f machine)) : Leads R (modify f : Play (StateM W) PUnit) := by
  intro host machine w
  rw [play_modify]
  constructor
  · rintro _ _ _ ⟨⟩
    exact h machine
  · intro fault after w' heq
    exact nomatch heq

/-- A change that is a move and leaves the stack alone, whatever machine it is made to. -/
theorem calm_modify {f : Machine → Machine}
    (h : ∀ machine : Machine, machine.Move (f machine) ∧ (f machine).stack = machine.stack) :
    Calm (modify f : Play (StateM W) PUnit) :=
  leads_modify fun machine => ⟨.single (h machine).1, (h machine).2⟩

/-- A last act, whatever machine it is done to. -/
theorem ends_modify {f : Machine → Machine} (h : ∀ machine : Machine, machine.Last (f machine)) :
    Ends (modify f : Play (StateM W) PUnit) :=
  leads_modify fun machine => ⟨machine, .refl, h machine⟩

/-- Going to an address ends an instruction. -/
theorem ends_setPc (pc : Nat) : Ends (setPc pc : Play (StateM W) Unit) :=
  ends_modify fun _ => .jump pc

/-- Work on memory that keeps the story leaves the stack. -/
theorem calm_edit {work : Edit α} (h : work.KeepsStory) : Calm (edit work : Play (StateM W) α) := by
  intro host machine w
  have hstory : (work.run machine.memory).2.memory.story = machine.memory.story :=
    h.eq { memory := machine.memory }
  rw [play_edit]
  rcases hrun : work.run machine.memory with ⟨outcome, draft⟩
  rw [hrun] at hstory
  constructor
  · rintro _ _ _ ⟨⟩
    exact ⟨.single (.memory _ hstory), rfl⟩
  · rintro _ _ _ ⟨⟩
    exact (Move.memory _ hstory).withstands

/-- Work on the stack that, where it goes well, is made of moves. -/
theorem shifts_onStack {Q : CallStack → CallStack → Prop} {work : StackWork α}
    (hbearable : CallStack.Bearable work)
    (h : ∀ (stack : CallStack) a after, stack.run work = (.ok a, after) →
      Relation.ReflTransGen CallStack.Move stack after ∧ Q stack after) :
    Shifts Q (onStack work : Play (StateM W) α) := by
  intro host machine w
  have hendures := hbearable machine.stack
  rw [play_onStack]
  rcases hrun : machine.stack.run work with ⟨fault | a, after⟩
  · rw [hrun] at hendures
    constructor
    · intro a after w' heq
      exact nomatch heq
    · rintro _ _ _ ⟨⟩
      exact ⟨⟨rfl, rfl, rfl, rfl, rfl, rfl, rfl⟩, hendures⟩
  · constructor
    · rintro _ _ _ ⟨⟩
      obtain ⟨hmoves, hshift⟩ := h machine.stack a after hrun
      exact ⟨machine.moves_stack hmoves, hshift⟩
    · intro fault after w' heq
      exact nomatch heq

/-- Work on the stack is quiet if it moves wherever it goes well, and otherwise can be borne. -/
theorem quiet_onStack {work : StackWork α} (hbearable : CallStack.Bearable work)
    (h : ∀ (stack : CallStack) a after, stack.run work = (.ok a, after) →
      Relation.ReflTransGen CallStack.Move stack after) :
    Quiet (onStack work : Play (StateM W) α) :=
  (shifts_onStack (Q := fun _ _ => True) hbearable fun stack a after hrun =>
    ⟨h stack a after hrun, trivial⟩).quiet

/-- Work of the streams changes memory and the streams. -/
theorem calm_onStreams {work : StreamWork (StateM W) α} (h : work.KeepsStory) :
    Calm (onStreams work) := by
  intro host machine w
  have hstory : (work.on host { memory := machine.memory, streams := machine.streams } w).1.2.memory.story
      = machine.memory.story := h host _ w
  rw [play_onStreams]
  rcases hrun : work.on host { memory := machine.memory, streams := machine.streams } w
    with ⟨⟨outcome, desk⟩, v⟩
  rw [hrun] at hstory
  have hmove : machine.Move { machine with memory := desk.memory } := .memory _ hstory
  constructor
  · rintro _ _ _ ⟨⟩
    exact ⟨(Relation.ReflTransGen.single hmove).tail (.streams desk.streams), rfl⟩
  · rintro _ _ _ ⟨⟩
    exact ⟨⟨hstory, rfl, rfl, rfl, rfl, rfl, rfl⟩, .refl machine.stack⟩

end Play

end StoryMachine
