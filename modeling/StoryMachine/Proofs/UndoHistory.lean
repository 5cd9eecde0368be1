import StoryMachine.Proofs.Resuming
import StoryMachine.Proofs.SnapshotLength

/-!
# Undoing step by step

In a `Run` a machine is created, executes, and is restarted; each `save_undo` that goes
well is recorded with the machine that it captured.  Whatever else is executed in between,
the undo generations of the machine are the snapshots of the newest of these, as many as
there are levels (`history_of_run`).

The main statement is `undo_gives_back`: undoing again and again leads back through them,
the newest first.  Each call is shown to succeed because the one before it has left the
machine in the same game, with the identity of its story intact (`play_undo_of_recallable`).
-/

namespace StoryMachine

variable {W : Type}

namespace UndoRing

/-- A new generation pushes out the oldest if there are too many. -/
theorem generations_push {ring : UndoRing} (snapshot : List UInt8)
    (h : ring.generations.length ≤ ring.levels) :
    (ring.push snapshot).generations = (snapshot :: ring.generations).take ring.levels := by
  unfold push isEnabled
  cases hlevels : ring.levels with
  | zero =>
      rw [hlevels] at h
      simp [List.length_eq_zero_iff.mp (Nat.le_zero.mp h)]
  | succ levels => simp

/-- A generation more does not change how many are kept. -/
theorem levels_push (ring : UndoRing) (snapshot : List UInt8) :
    (ring.push snapshot).levels = ring.levels := by
  unfold push
  split <;> rfl

end UndoRing

namespace Machine

open Play

/-- A `save_undo` that went well: the instruction, and the machine when its operands had
been taken. -/
structure Save where
  instruction : Instruction
  machine : Machine

/-- The snapshot that was kept. -/
def Save.snapshot (save : Save) : List UInt8 :=
  Snapshot.capture save.machine.memory save.machine.stack save.instruction.result
    save.machine.options.compressUndo none

/-- The runs of a machine from its creation on, with the generations kept in it, the newest
first.  Hosts may do as they please.  No instruction goes back to another state and none keeps
a generation without delivering its result.  Calls to go back fail; one that is left half way
leaves a stack that can be stored. -/
inductive Run (image : Array UInt8) (options : Options) : List Save → Machine → Prop
  | create {W : Type} {host : Host (StateM W)} {w w' : W} {machine : Machine}
      (h : create host image options w = (.ok machine, w')) : Run image options [] machine
  | cycle {W : Type} {host : Host (StateM W)} {w w' : W} {saves : List Save}
      {machine after : Machine} {event : Event} (hrun : Run image options saves machine)
      (huneventful : Uneventful host machine w)
      (h : machine.execute host 1 w = ((event, after), w')) : Run image options saves after
  | keep {W : Type} {host : Host (StateM W)} {w v w' : W} {saves : List Save}
      {machine poised after : Machine} {instruction : Instruction} {operands : List Word}
      (hrun : Run image options saves machine) (hhalted : machine.halted = none)
      (hresume : machine.resume = none)
      (hfetch : machine.play host fetch w = ((.ok (instruction, operands), poised), v))
      (hopcode : instruction.opcode = .saveUndo)
      (h : machine.play host step w = ((.ok (), after), w')) :
      Run image options (⟨instruction, poised⟩ :: saves) after
  | restart {W : Type} {host : Host (StateM W)} {w w' : W} {saves : List Save}
      {machine after : Machine} {outcome : Except Fault Unit}
      (hrun : Run image options saves machine)
      (h : machine.play host restart w = ((outcome, after), w')) : Run image options saves after
  | fail {W : Type} {host : Host (StateM W)} {w w' : W} {saves : List Save}
      {machine after : Machine} {fault : Fault} (how : Recall)
      (hrun : Run image options saves machine)
      (h : machine.play host how.work w = ((.error fault, after), w'))
      (hstack : fault.kind ≠ .stackOverflow) (hshallow : after.Shallow) :
      Run image options saves after

/-- What is known of a kept generation: it can be stored, and its instruction, which stores
its result, could deliver it. -/
structure Save.Sure (save : Save) : Prop where
  size_lt : save.machine.memory.size < 0x1000000
  storable : save.machine.stack.Storable
  shallow : save.machine.Shallow
  ending : ∃ target, save.instruction.store = some target ∧ save.machine.CanAssign target ∧
    Ending.read save.machine.memory save.instruction.result = .ok (.store target, 1)
  pc_eq : save.machine.pc = save.instruction.result + 1

/-- What a run leaves behind. -/
structure History (options : Options) (saves : List Save) (machine : Machine) : Prop where
  fit : machine.Fit
  shallow : machine.halted = none → machine.Shallow
  levels_eq : machine.undo.levels = options.undoLevels
  generations_eq :
    machine.undo.generations = (saves.take options.undoLevels).map Save.snapshot
  sure : ∀ save ∈ saves, save.Sure
  sameGame : ∀ save ∈ saves, SameGame save.machine machine

section

variable {image : Array UInt8} {options : Options} {saves : List Save} {machine after poised : Machine}
  {host : Host (StateM W)} {w w' v : W} {outcome : Except Fault Unit}

/-- The same run has the same history. -/
theorem History.sameRun (h : History options saves machine) (hrun : SameRun machine after)
    (hfit : after.Fit) (hshallow : after.halted = none → after.Shallow) :
    History options saves after where
  fit := hfit
  shallow := hshallow
  levels_eq := by rw [hrun.undo_eq, h.levels_eq]
  generations_eq := by rw [hrun.undo_eq, h.generations_eq]
  sure := h.sure
  sameGame := fun save hsave => (h.sameGame save hsave).trans hrun.toSameGame

/-- A `save_undo` pushes its snapshot, and then it stores its result. -/
theorem play_store_of_keep {instruction : Instruction} {operands : List Word}
    (hresume : machine.resume = none)
    (hfetch : machine.play host fetch w = ((.ok (instruction, operands), poised), v))
    (hopcode : instruction.opcode = .saveUndo)
    (hstep : machine.play host step w = ((.ok (), after), w')) :
    ∃ value v', Machine.play
      { poised with undo := poised.undo.push (Save.snapshot ⟨instruction, poised⟩) } host
      (store instruction value) v' = ((.ok (), after), w') := by
  rw [play_step_of_fetch hresume, play_bind_of_ok hfetch] at hstep
  have hperform := play_perform_of_carryOut hstep
  rw [perform, play_bind_of_ok (play_get poised host v), hopcode] at hperform
  dsimp only at hperform
  obtain ⟨v', hkeep⟩ := play_saveUndo host poised v instruction
  exact ⟨_, v', hkeep.symm.trans hperform⟩

/-- A generation that was kept can be gone back to. -/
theorem sure_of_keep {instruction : Instruction} {snapshot : List UInt8} {value : Word}
    (hsound : machine.Sound) (hshallow : machine.Shallow)
    (hfetched : Fetched machine instruction poised) (hopcode : instruction.opcode = .saveUndo)
    (hstore : Machine.play { poised with undo := poised.undo.push snapshot } host
      (store instruction value) v = ((.ok (), after), w')) :
    Save.Sure ⟨instruction, poised⟩ := by
  have hsteady := hfetched.steady hsound
  have hmemory : poised.memory = machine.memory := by rw [hfetched.poised_eq]
  have hpc : poised.pc = instruction.next := by rw [hfetched.poised_eq]
  have hfive := Instruction.version_of_saveUndo hfetched.decode_eq hopcode
  have hstores : instruction.opcode.stores machine.memory.version = true := by
    rw [hopcode]
    rfl
  obtain ⟨hlt, htarget⟩ := Instruction.stores_of_decode hfetched.decode_eq hstores
  have hnext : instruction.next = instruction.result + 1 :=
    Instruction.next_eq_of_stores hfetched.decode_eq hstores (by rw [hopcode]; rfl)
      (by rw [hopcode]; rfl)
  have hread : Ending.read poised.memory instruction.result
      = .ok (.store (machine.memory.byteAt instruction.result), 1) := by
    rw [hmemory, Ending.read, if_pos (Nat.le_of_succ_le hfive), Memory.readByte, if_pos hlt]
    rfl
  have hcan : poised.CanAssign (machine.memory.byteAt instruction.result) := by
    refine Classical.byContradiction fun hnot => ?_
    obtain ⟨fault, stack, hfault, -⟩ := play_writeVariable_of_not host
      { poised with undo := poised.undo.push snapshot } v value hnot
    rw [store, htarget, storeTo, hfault] at hstore
    cases hstore
  exact ⟨hsteady.size_lt, hsteady.storable, hfetched.shallow hshallow,
    ⟨_, htarget, hcan, hread⟩, hpc.trans hnext⟩

/-- **Keeping a generation** puts it in front of the others. -/
theorem History.keep {instruction : Instruction} {operands : List Word}
    (h : History options saves machine) (hhalted : machine.halted = none)
    (hresume : machine.resume = none)
    (hfetch : machine.play host fetch w = ((.ok (instruction, operands), poised), v))
    (hopcode : instruction.opcode = .saveUndo)
    (hstep : machine.play host step w = ((.ok (), after), w')) :
    History options (⟨instruction, poised⟩ :: saves) after := by
  have hfetched := fetched_of_play hfetch
  have hsound := h.fit.sound hhalted
  have hpoised := hfetched.shallow (h.shallow hhalted)
  obtain ⟨value, v', hstore⟩ := play_store_of_keep hresume hfetch hopcode hstep
  have hsure := sure_of_keep hsound (h.shallow hhalted) hfetched hopcode hstore
  obtain ⟨hrun, -, -, hshallow⟩ := stays_of_ends (quiet_store instruction value).ends hstore
  have hgame : SameGame poised after := ⟨hrun.story_eq, hrun.globals_eq⟩
  have hlevels : poised.undo.levels = options.undoLevels := by
    rw [hfetched.sameRun.undo_eq, h.levels_eq]
  have hgenerations : poised.undo.generations
      = (saves.take options.undoLevels).map Save.snapshot := by
    rw [hfetched.sameRun.undo_eq, h.generations_eq]
  have hfew : poised.undo.generations.length ≤ poised.undo.levels := by
    rw [hgenerations, hlevels, List.length_map, List.length_take]
    exact Nat.min_le_left _ _
  have hundo := hrun.undo_eq
  refine ⟨fit_of_step hhalted h.fit hstep, fun _ => hshallow rfl hpoised, ?_, ?_, ?_, ?_⟩
  · rw [hundo, UndoRing.levels_push, hlevels]
  · rw [hundo, UndoRing.generations_push _ hfew, hgenerations, hlevels, ← List.map_cons,
      ← List.map_take]
    cases options.undoLevels with
    | zero => rfl
    | succ levels => simp [List.take_take]
  · intro save hsave
    rcases List.mem_cons.mp hsave with rfl | hsave
    · exact hsure
    · exact h.sure save hsave
  · intro save hsave
    rcases List.mem_cons.mp hsave with rfl | hsave
    · exact hgame
    · exact ((h.sameGame save hsave).trans hfetched.sameRun.toSameGame).trans hgame

/-- **The undo generations of a run** are the snapshots of its newest saves. -/
theorem history_of_run (hsize : image.size < 0x1000000) (h : Run image options saves machine) :
    History options saves machine := by
  induction h with
  | create h =>
      have hcreated := created_of_create h
      refine ⟨fit_of_created hsize hcreated, fun _ => hcreated.shallow, ?_, ?_,
        fun _ hsave => absurd hsave List.not_mem_nil, fun _ hsave => absurd hsave List.not_mem_nil⟩
      · rw [hcreated.undo_eq]
      · rw [hcreated.undo_eq, List.take_nil]
        rfl
  | @cycle _ host w _ _ machine after event hrun huneventful h ih =>
      cases hhalted : machine.halted with
      | some event =>
          rw [execute_of_halted 1 hhalted] at h
          cases h
          exact ih
      | none =>
          rcases hplay : machine.play host step w with ⟨⟨outcome, middle⟩, v⟩
          obtain ⟨v', hone⟩ := execute_succ_of_play 0 hhalted hplay
          obtain ⟨event', hzero⟩ := @execute_zero _ host (stopped outcome middle) v'
          rw [hone, hzero] at h
          cases h
          obtain ⟨hsame, hshallow⟩ := stays_of_step huneventful hplay
          refine ih.sameRun (hsame.trans (sameRun_stopped outcome middle))
            (fit_of_step hhalted ih.fit hplay) fun hrunning => ?_
          cases outcome with
          | ok _ => exact hshallow rfl (ih.shallow hhalted)
          | error fault => exact nomatch hrunning
  | keep hrun hhalted hresume hfetch hopcode h ih =>
      exact ih.keep hhalted hresume hfetch hopcode h
  | restart hrun h ih =>
      have hrestarted := restarted_of_play h
      refine ih.sameRun hrestarted.sameRun (fit_of_restarted ih.fit hrestarted) fun hrunning => ?_
      rcases hrestarted.started with ⟨-, hstack, -, -, hsame⟩ | ⟨-, -, -, hdepth⟩
      · unfold Shallow
        rw [hstack]
        exact ih.shallow (hsame.symm.trans hrunning)
      · exact Nat.le_trans hdepth (by decide)
  | fail how hrun h hstack hshallow ih =>
      obtain ⟨hfailed, -⟩ := reload_recall how h
      exact ih.sameRun hfailed.sameRun (fit_of_failed ih.fit hfailed hstack) fun _ => hshallow

end

/-! ## Undoing -/

/-- The machine with the stack of a kept generation and its memory, readied, right behind
the instruction that kept it.  The generation itself is used up. -/
def recalled (before : Machine) (save : Save) (ready : Memory) : Machine :=
  { before with
    memory := ready
    stack := save.machine.stack
    pc := save.instruction.result + 1
    resume := none
    dictionaries := {}
    halted := none
    undo := { before.undo with generations := before.undo.generations.tail } }

/-- The machine has gone back to a kept generation, whose instruction has stored 2. -/
def TakenBack (before : Machine) (save : Save) (after : Machine) : Prop :=
  ∃ target ready, save.instruction.store = some target ∧
    before.Readied save.machine.memory ready ∧
    after = (before.recalled save ready).assign target 2

/-- A kept generation that a machine can go back to. -/
structure Save.Recallable (save : Save) (now : Machine) : Prop where
  sure : save.Sure
  sameGame : SameGame save.machine now
  pending_eq : ∀ frame ∈ save.machine.stack.frames, frame.pending = none
  apart : save.machine.memory.ExtensionApart
  clear : 64 ≤ save.instruction.result ∧
    ¬save.machine.memory.InExtension save.instruction.result
  identity_eq : Snapshot.identity save.machine.memory = Snapshot.identity now.memory
  setUp : ∃ draft, (Header.setUp now.info now.options).run save.machine.memory = (.ok (), draft)

section

variable {before after : Machine} {save : Save}

/-- A machine is sent on after a variable was written. -/
theorem assign_halted (machine : Machine) (number : UInt8) (value : Word) :
    { machine.assign number value with halted := none }
      = { machine with halted := none }.assign number value := by
  unfold assign
  split
  · rfl
  split
  · rfl
  have hsame : globalAddress { machine with halted := none } number = globalAddress machine number :=
    rfl
  simp only [hsame]
  split <;> rfl

/-- An undo that goes well goes back to the newest generation, and does not keep it. -/
theorem play_undo_of_ok {machine middle : Machine} {host : Host (StateM W)} {w v : W}
    {ring : UndoRing} {snapshot : List UInt8} (hpop : machine.undo.pop? = some (snapshot, ring))
    (happly : Machine.play { machine with undo := ring } host (applySnapshot snapshot) w
      = ((.ok (), middle), v)) :
    machine.play host Play.undo w = ((.ok (), { middle with halted := none }), v) := by
  rw [play_undo host w hpop, play_bind, play_tryCatch, happly]
  rfl

/-- **One call of undo** goes back to the newest generation. -/
theorem play_undo_of_recallable (host : Host (StateM W)) (w : W) {older : List (List UInt8)}
    (hgenerations : before.undo.generations = save.snapshot :: older)
    (h : save.Recallable before) :
    ∃ after w', before.play host Play.undo w = ((.ok (), after), w') ∧ TakenBack before save after := by
  obtain ⟨target, htarget, hcan, hread⟩ := h.sure.ending
  obtain ⟨draft, hdraft⟩ := h.setUp
  have hpop : before.undo.pop? = some (save.snapshot, { before.undo with generations := older }) := by
    rw [UndoRing.pop?, hgenerations]
  have hsaving : save.machine.Saving save.instruction.result (.store target) 1 := by
    refine ⟨h.sure.size_lt, h.sure.storable, h.pending_eq, hread, h.sure.pc_eq, hcan, h.apart, ?_⟩
    intro i hle hlt
    obtain rfl : i = save.instruction.result := by omega
    exact h.clear
  have hlength := Snapshot.length_capture_lt save.machine.memory save.instruction.result
    save.machine.options.compressUndo h.sure.storable.covered h.sure.shallow
  obtain ⟨v, happly⟩ := @play_applySnapshot_capture W save.machine
    { before with undo := { before.undo with generations := older } } _ _ _ _ host w hsaving
    ⟨h.sameGame.story_eq, h.sameGame.globals_eq⟩ h.identity_eq.symm ⟨draft, hdraft, rfl⟩
    save.machine.options.compressUndo none hlength
  have hundo := play_undo_of_ok hpop happly
  refine ⟨_, v, hundo, target, _, htarget, ⟨draft, hdraft, rfl⟩, ?_⟩
  rw [resumed, conclude, assign_halted, recalled, hgenerations, h.sure.pc_eq]
  rfl

/-- What is stored in a variable leaves the identity of the story alone, if the global
variables lie behind the header. -/
theorem identity_assign {machine : Machine} (hglobals : 64 ≤ machine.globals) (number : UInt8)
    (value : Word) :
    Snapshot.identity (machine.assign number value).memory
      = Snapshot.identity machine.memory := by
  unfold assign
  split
  · rfl
  split
  · rfl
  split
  case isFalse => rfl
  case isTrue h =>
      refine Snapshot.identity_eq_iff.mpr fun address hid => ?_
      have hfirst : 64 ≤ globalAddress machine number := by
        unfold globalAddress
        omega
      have hsame : Memory.SameOff (fun i => 64 ≤ i) machine.memory
          (machine.memory.setWord (globalAddress machine number) value h) :=
        Memory.sameOff_setWord value h hfirst (Nat.le_succ_of_le hfirst)
      unfold Snapshot.IdentityByte at hid
      exact hsame.byteAt_eq address (by omega)

/-- Writing a variable stays in the setting. -/
theorem assign_setting (machine : Machine) (number : UInt8) (value : Word) :
    SameSetting machine (machine.assign number value) := by
  unfold assign
  split
  · exact ⟨rfl, rfl, rfl, rfl, rfl, rfl, rfl⟩
  split
  · exact ⟨rfl, rfl, rfl, rfl, rfl, rfl, rfl⟩
  split <;> exact ⟨rfl, rfl, rfl, rfl, rfl, rfl, rfl⟩

/-- What was recallable before a call of undo is recallable after it. -/
theorem Save.Recallable.takenBack {other : Save} (h : other.Recallable before)
    (hsave : save.Recallable before) (hglobals : 64 ≤ before.globals)
    (hback : TakenBack before save after) : other.Recallable after := by
  obtain ⟨target, ready, -, hready, rfl⟩ := hback
  have hsetting := assign_setting (before.recalled save ready) target 2
  have hstory : ready.story = before.memory.story :=
    (story_of_readied hready).trans hsave.sameGame.story_eq.symm
  refine ⟨h.sure, ⟨?_, ?_⟩, h.pending_eq, h.apart, h.clear, ?_, ?_⟩
  · rw [hsetting.story_eq]
    exact hstory.trans h.sameGame.story_eq
  · rw [hsetting.globals_eq]
    exact h.sameGame.globals_eq
  · rw [@identity_assign (before.recalled save ready) hglobals]
    exact h.identity_eq.trans
      (hsave.identity_eq.symm.trans (identity_readied hsave.apart hready).symm)
  · rw [hsetting.info_eq, hsetting.options_eq]
    exact h.setUp

/-- Calls of undo, one after another. -/
def undoTimes : Nat → Play (StateM W) Unit
  | 0 => pure ()
  | n + 1 => do
    Play.undo
    undoTimes n

/-- **Calls of undo** lead back through the generations, the newest first. -/
theorem play_undoTimes (host : Host (StateM W)) (w : W) {machine : Machine} {saves : List Save}
    (hglobals : 64 ≤ machine.globals)
    (hgenerations : machine.undo.generations = saves.map Save.snapshot)
    (hsaves : ∀ save ∈ saves, save.Recallable machine) {i : Nat} (hi : saves[i]? = some save) :
    ∃ before v after v', machine.play host (undoTimes i) w = ((.ok (), before), v) ∧
      before.play host Play.undo v = ((.ok (), after), v') ∧ TakenBack before save after := by
  induction i generalizing machine saves w with
  | zero =>
      cases saves with
      | nil => exact nomatch hi
      | cons newest older =>
          obtain rfl : newest = save := Option.some.inj hi
          obtain ⟨after, v', hundo, hback⟩ := play_undo_of_recallable host w hgenerations
            (hsaves newest List.mem_cons_self)
          exact ⟨machine, w, after, v', rfl, hundo, hback⟩
  | succ i ih =>
      cases saves with
      | nil => exact nomatch hi
      | cons newest older =>
          have hnewest := hsaves newest List.mem_cons_self
          obtain ⟨middle, v, hundo, hback⟩ := play_undo_of_recallable host w hgenerations hnewest
          have hmiddle : ∀ other ∈ older, other.Recallable middle := fun other hother =>
            (hsaves other (List.mem_cons_of_mem _ hother)).takenBack hnewest hglobals hback
          have hkept : 64 ≤ middle.globals ∧
              middle.undo.generations = older.map Save.snapshot := by
            obtain ⟨target, ready, -, -, rfl⟩ := hback
            rw [(assign_setting _ target 2).globals_eq, (assign_setting _ target 2).undo_eq]
            exact ⟨hglobals, congrArg List.tail hgenerations⟩
          rw [undoTimes, play_bind_of_ok hundo]
          exact ih v hkept.1 hkept.2 hmiddle hi

end

/-- **Undo gives back what was kept.**  Take any run, and whatever was executed in it:
calling undo again and again leads back through the generations that were kept, the newest
first, as far as there are levels.  Each call succeeds.  It leaves the stack that was captured
and the memory that was captured, the latter with its header set up for the machine as it is
now and with the two lowest bits of the second flags from just before the call, and then stores
2 in the result variable of the instruction and goes on right behind it. -/
theorem undo_gives_back {image : Array UInt8} {options : Options} {saves : List Save}
    {machine : Machine} (host : Host (StateM W)) (w : W) (hsize : image.size < 0x1000000)
    (hrun : Run image options saves machine) (hglobals : 64 ≤ machine.globals)
    (hpending : ∀ save ∈ saves, ∀ frame ∈ save.machine.stack.frames, frame.pending = none)
    (hextension : ∀ save ∈ saves, save.machine.memory.ExtensionApart)
    (hclear : ∀ save ∈ saves, 64 ≤ save.instruction.result ∧
      ¬save.machine.memory.InExtension save.instruction.result)
    (hidentity : ∀ save ∈ saves,
      Snapshot.identity save.machine.memory = Snapshot.identity machine.memory)
    (hsetUp : ∀ save ∈ saves, ∃ draft,
      (Header.setUp machine.info machine.options).run save.machine.memory = (.ok (), draft))
    (i : Nat) (save : Save) (hlevel : i < options.undoLevels) (hsave : saves[i]? = some save) :
    ∃ before v after v', machine.play host (undoTimes i) w = ((.ok (), before), v) ∧
      before.play host Play.undo v = ((.ok (), after), v') ∧ TakenBack before save after := by
  have hhistory := history_of_run hsize hrun
  refine play_undoTimes host w hglobals hhistory.generations_eq (fun kept hkept => ?_) ?_
  · have hkept := List.mem_of_mem_take hkept
    exact ⟨hhistory.sure kept hkept, hhistory.sameGame kept hkept, hpending kept hkept,
      hextension kept hkept, hclear kept hkept, hidentity kept hkept, hsetUp kept hkept⟩
  · rw [List.getElem?_take_of_lt hlevel]
    exact hsave

/-! ## Two generations, and a spoilt one -/

/-- A machine after so many steps. -/
def stepped : Nat → Machine → Machine
  | 0, machine => machine
  | n + 1, machine => stepped n (machine.play deaf step ()).1.2

/-- `save_undo` to a global variable, a change of another one, `save_undo` to the stack. -/
def keepingTwice : Array UInt8 :=
  storyOf [0xbe, 9, 0xff, 16, 0x0d, 17, 42, 0xbe, 9, 0xff, 0]

def keeper : Machine :=
  ((create deaf keepingTwice {} ()).1.toOption).get rfl

/-- What the next step of a machine keeps, if it keeps anything. -/
def nextSave (machine : Machine)
    (h : (Instruction.decode machine.memory machine.pc).toOption.isSome = true) : Save :=
  ⟨(Instruction.decode machine.memory machine.pc).toOption.get h, (machine.play deaf fetch ()).1.2⟩

def olderSave : Save := nextSave keeper rfl

def newerSave : Save := nextSave (stepped 2 keeper) rfl

/-- The change in between is neither a save nor an undo. -/
theorem uneventful_keeper : Uneventful deaf (stepped 1 keeper) () := by
  intro _ instruction operands poised v hfetch
  have hopcode : instruction.opcode = .store := by
    have hfetched := fetched_of_play hfetch
    have hdecode : (Instruction.decode (stepped 1 keeper).memory (stepped 1 keeper).pc).map
        Instruction.opcode = .ok .store := rfl
    rw [hfetched.decode_eq] at hdecode
    exact Except.ok.inj hdecode
  rw [hopcode]
  exact ⟨nofun, nofun⟩

/-- The story runs through both its saves. -/
theorem run_keepingTwice : Run keepingTwice {} [newerSave, olderSave] (stepped 3 keeper) := by
  have hcreate : Run keepingTwice {} [] keeper :=
    @Run.create keepingTwice {} Unit deaf () () keeper rfl
  have holder : Run keepingTwice {} [olderSave] (stepped 1 keeper) :=
    @Run.keep keepingTwice {} Unit deaf () () () [] keeper olderSave.machine (stepped 1 keeper)
      olderSave.instruction [] hcreate rfl rfl rfl rfl rfl
  have hchange : Run keepingTwice {} [olderSave] (stepped 2 keeper) :=
    @Run.cycle keepingTwice {} Unit deaf () () [olderSave] (stepped 1 keeper) (stepped 2 keeper)
      .running holder uneventful_keeper rfl
  exact @Run.keep keepingTwice {} Unit deaf () () () [olderSave] (stepped 2 keeper)
    newerSave.machine (stepped 3 keeper) newerSave.instruction [] hchange rfl rfl rfl rfl rfl

/-- The second call of undo goes back to the older of two saves. -/
theorem undo_gives_back_twice : Run keepingTwice {} [newerSave, olderSave] (stepped 3 keeper) ∧
    ∃ before v after v', (stepped 3 keeper).play deaf (undoTimes 1) () = ((.ok (), before), v) ∧
      before.play deaf Play.undo v = ((.ok (), after), v') ∧ TakenBack before olderSave after := by
  have hpending : ∀ save ∈ [newerSave, olderSave], ∀ frame ∈ save.machine.stack.frames,
      frame.pending = none := by decide +kernel
  have hnone : ∀ save ∈ [newerSave, olderSave],
      save.machine.memory.headerWord .extensionTable = 0 := by decide +kernel
  have hplace : ∀ save ∈ [newerSave, olderSave], 64 ≤ save.instruction.result := by decide +kernel
  have hidentity : ∀ save ∈ [newerSave, olderSave], Snapshot.identity save.machine.memory
      = Snapshot.identity (stepped 3 keeper).memory := by decide +kernel
  have hsetUp : ∀ save ∈ [newerSave, olderSave],
      ((Header.setUp (stepped 3 keeper).info (stepped 3 keeper).options).run
        save.machine.memory).1.toOption = some () := by decide +kernel
  exact ⟨run_keepingTwice, undo_gives_back deaf () (by decide) run_keepingTwice (by decide)
    hpending (fun save hsave => .inr (.inl (hnone save hsave)))
    (fun save hsave => ⟨hplace save hsave, Memory.not_inExtension_of_eq_zero (hnone save hsave) _⟩)
    hidentity (fun save hsave => ⟨_, eq_of_toOption (hsetUp save hsave)⟩) 1 olderSave (by decide) rfl⟩

/-- `save_undo` to a global variable, and one to a local variable that is not there. -/
def keepingBadly : Array UInt8 :=
  storyOf [0xbe, 9, 0xff, 16, 0xbe, 9, 0xff, 5]

def spoiler : Machine :=
  ((create deaf keepingBadly {} ()).1.toOption).get rfl

def soundSave : Save := nextSave spoiler rfl

/-- The machine after its second `save_undo` has faulted. -/
def spoilt : Machine :=
  ((stepped 1 spoiler).execute deaf 1 ()).1.2

/-- A `save_undo` that cannot store its result has put its generation on the ring all the
same, and undo cannot get past it: the one save that went well is out of reach. -/
theorem undo_fails_behind_spoilt : Run keepingBadly {} [soundSave] (stepped 1 spoiler) ∧
    (∃ fault, (stepped 1 spoiler).execute deaf 1 () = ((.error fault, spoilt), ())) ∧
    keepingBadly.size < 0x1000000 ∧ 0 < spoilt.options.undoLevels ∧ 64 ≤ spoilt.globals ∧
    64 ≤ soundSave.instruction.result ∧
    soundSave.machine.memory.headerWord .extensionTable = 0 ∧
    (∀ frame ∈ soundSave.machine.stack.frames, frame.pending = none) ∧
    Snapshot.identity soundSave.machine.memory = Snapshot.identity spoilt.memory ∧
    (∃ draft, (Header.setUp spoilt.info spoilt.options).run soundSave.machine.memory
      = (.ok (), draft)) ∧
    ∃ fault after, spoilt.play deaf Play.undo () = ((.error fault, after), ()) := by
  have hcreate : Run keepingBadly {} [] spoiler :=
    @Run.create keepingBadly {} Unit deaf () () spoiler rfl
  have hsound : Run keepingBadly {} [soundSave] (stepped 1 spoiler) :=
    @Run.keep keepingBadly {} Unit deaf () () () [] spoiler soundSave.machine (stepped 1 spoiler)
      soundSave.instruction [] hcreate rfl rfl rfl rfl rfl
  have hsetUp : ((Header.setUp spoilt.info spoilt.options).run
      soundSave.machine.memory).1.toOption = some () := by decide +kernel
  have hfails : (spoilt.play deaf Play.undo ()).1.1.toOption = none := by decide +kernel
  refine ⟨hsound, ⟨_, rfl⟩, by decide, by decide +kernel, by decide +kernel, by decide +kernel,
    by decide +kernel, by decide +kernel, by decide +kernel, ⟨_, eq_of_toOption hsetUp⟩, ?_⟩
  rcases hundo : spoilt.play deaf Play.undo () with ⟨⟨fault | _, after⟩, v⟩
  · exact ⟨fault, after, rfl⟩
  · rw [hundo] at hfails
    exact nomatch hfails

end Machine

end StoryMachine
