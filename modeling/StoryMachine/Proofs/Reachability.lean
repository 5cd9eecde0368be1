import StoryMachine.Proofs.Stepping

/-!
# Every state a machine can get into

A machine is created from an image.  From then on it executes, is restarted, or is
told to go back to a snapshot, each time with whatever host; that is `Reachable`.
Calls that fail are calls too, so the machine may be left in between.

All machines of an image play the same game (`plays_of_reachable`): the story is that
of the image, and the global variables are where its header says.  A machine that has
not halted is sound, unless a call to go back to a snapshot had overrun the stack
(`fit_of_reachable`).
-/

namespace StoryMachine

variable {W : Type}

namespace Machine

open Play

/-! ## Creating -/

/-- Loading what it takes to read text only reads memory. -/
theorem keeps_loadCodec : Keeps Draft.memory loadCodec := by
  have hpure {α : Type} (a : α) : Keeps Draft.memory (pure a : Edit α) := .pure a
  refine .bind (Edit.keeps_view _) fun memory => ?_
  have hrest (alphabet : Alphabet) : Keeps Draft.memory (do
      Edit.noteIf memory.extension.notice
      let unicodeTable := (memory.extensionWord .unicodeTable).toNat
      let unicode ←
        if unicodeTable = 0 then pure .standard
        else Edit.look fun memory => UnicodeTable.load memory.bytes unicodeTable
      return { version := memory.version, alphabet, unicode,
               abbreviations := (memory.headerWord .abbreviationsTable).toNat } : Edit Codec) := by
    refine .bind ?_ fun _ => ?_
    · cases memory.extension.notice with
      | none => exact .pure ()
      | some notice => exact Edit.keeps_note notice
    · exact .ite (.bind (hpure _) fun _ => .pure _) (.bind (Edit.keeps_look _) fun _ => .pure _)
  exact .ite (.bind (hpure _) hrest) (.bind (Edit.keeps_look _) hrest)

/-- A machine that was just created from an image. -/
structure Created (image : Array UInt8) (options : Options) (machine : Machine) : Prop where
  /-- The story is that of the image, with the header set up for some host. -/
  image_eq : ∃ memory info draft, Memory.ofImage image = .ok memory ∧
    (Header.setUp info options).run memory = (.ok (), draft) ∧
    machine.memory = draft.memory ∧
    machine.globals = (draft.memory.headerWord .globalTable).toNat
  undo_eq : machine.undo = { levels := options.undoLevels }
  options_eq : machine.options = options
  resume_eq : machine.resume = none
  storable : machine.stack.Storable
  shallow : machine.Shallow

/-- How an image becomes a machine: the header is set up for the host, the text tables are read,
and the story is started.  Reading the tables leaves memory as the header was set up, and the seed
comes from the options or from the host. -/
theorem started_of_create {host : Host (StateM W)} {image : Array UInt8} {options : Options}
    {machine : Machine} {w w' : W} (h : create host image options w = (.ok machine, w')) :
    ∃ memory draft codec draft' seed v v', Memory.ofImage image = .ok memory ∧
      (Header.setUp (host.info w).1 options).run memory = (.ok (), draft) ∧
      Work.on loadCodec draft = (.ok codec, draft') ∧
      (assemble draft.memory codec options (host.info w).1 seed).play host start v
        = ((.ok (), machine), v') := by
  have h : Work.on _ w = (.ok machine, w') := h
  obtain ⟨memory, v, hmemory, h⟩ := Work.on_bind_ok h
  rw [Work.on_ofExcept] at hmemory
  obtain ⟨hread, rfl⟩ := Prod.mk.inj hmemory
  obtain ⟨info, v, hinfo, h⟩ := Work.on_bind_ok h
  obtain rfl : (host.info w).1 = info := Except.ok.inj (congrArg Prod.fst hinfo)
  rcases hrun : Edit.run (do Header.setUp (host.info w).1 options; loadCodec) memory
    with ⟨outcome, draft'⟩
  rw [hrun] at h
  obtain ⟨_, v, -, h⟩ := Work.on_bind_ok h
  obtain ⟨codec, v, hcodec, h⟩ := Work.on_bind_ok h
  rw [Work.on_ofExcept] at hcodec
  have hcodec : outcome = .ok codec := congrArg Prod.fst hcodec
  rw [hcodec, Edit.run_eq_on] at hrun
  obtain ⟨_, draft, hsetUp, hload⟩ := Work.on_bind_ok hrun
  have hdraft : draft'.memory = draft.memory := by
    have hkeeps := keeps_loadCodec.eq draft
    rw [hload] at hkeeps
    exact hkeeps
  rw [hdraft] at h
  dsimp only at h
  split at h
  all_goals
    obtain ⟨seed, v, -, h⟩ := Work.on_bind_ok h
    obtain ⟨⟨started, after⟩, v', hplay, h⟩ := Work.on_bind_ok h
    obtain ⟨_, v'', hok, h⟩ := Work.on_bind_ok h
    rw [Work.on_ofExcept] at hok
    obtain rfl : started = .ok _ := congrArg Prod.fst hok
    obtain ⟨_, _, -, h⟩ := Work.on_bind_ok h
    obtain rfl : after = machine := Except.ok.inj (congrArg Prod.fst h)
    have hplay := Prod.mk.inj hplay
    exact ⟨memory, draft, codec, draft', seed, v, v', hread, hsetUp, hload,
      Prod.ext (Except.ok.inj hplay.1) hplay.2⟩

/-- A machine that is created is set up, and starts on what its header says. -/
theorem created_of_create {host : Host (StateM W)} {image : Array UInt8} {options : Options}
    {machine : Machine} {w w' : W} (h : create host image options w = (.ok machine, w')) :
    Created image options machine := by
  obtain ⟨memory, draft, codec, _, seed, v, v', hmemory, hdraft, -, hplay⟩ := started_of_create h
  obtain ⟨outcome, pc, stack, hstart, hstorable, hdepth⟩ :=
    play_start host (assemble draft.memory codec options (host.info w).1 seed) v
  rw [hstart] at hplay
  cases hplay
  exact ⟨⟨memory, _, draft, hmemory, hdraft, rfl, rfl⟩, rfl, rfl, rfl, hstorable,
    Nat.le_trans hdepth (by decide)⟩

/-- A machine that was just created has not halted. -/
theorem halted_of_create {host : Host (StateM W)} {image : Array UInt8} {options : Options}
    {machine : Machine} {w w' : W} (h : create host image options w = (.ok machine, w')) :
    machine.halted = none := by
  obtain ⟨_, draft, codec, _, seed, v, v', -, -, -, hplay⟩ := started_of_create h
  obtain ⟨outcome, pc, stack, hstart, -⟩ :=
    play_start host (assemble draft.memory codec options (host.info w).1 seed) v
  rw [hstart] at hplay
  cases hplay
  rfl

/-! ## Executing -/

/-- A machine after a step: a fault halts it. -/
def stopped (outcome : Except Fault Unit) (after : Machine) : Machine :=
  match outcome with
  | .ok () => after
  | .error fault => { after with halted := some (.error (fault.atPc after.current)) }

section

variable {host : Host (StateM W)} {machine after : Machine} {w w' : W}

/-- A machine that has halted repeats its event. -/
theorem execute_of_halted {event : Event} (cycles : Nat) (h : machine.halted = some event) :
    machine.execute host cycles w = ((event, machine), w) := by
  rw [execute, h]
  rfl

/-- A cycle is a step.  One that fails halts the machine, after any other the remaining
cycles follow. -/
theorem execute_succ_of_play {outcome : Except Fault Unit} (cycles : Nat)
    (h : machine.halted = none) (hplay : machine.play host step w = ((outcome, after), w')) :
    ∃ v, machine.execute host (cycles + 1) w = (stopped outcome after).execute host cycles v := by
  have hrun : machine.execute host (cycles + 1) w = executeFrom host (cycles + 1) machine w := by
    rw [execute, h]
  rw [hrun, executeFrom]
  show ∃ v, StateT.bind (machine.play host step) _ w = _
  simp only [StateT.bind, hplay]
  cases outcome with
  | error fault => exact ⟨_, rfl⟩
  | ok _ => exact ⟨_, rfl⟩

/-- No instruction is executed in no cycles. -/
theorem execute_zero : ∃ event, machine.execute host 0 w = ((event, machine), w) := by
  unfold execute
  cases machine.halted with
  | none => exact ⟨_, rfl⟩
  | some event => exact ⟨_, rfl⟩

/-- **What every step keeps, executing keeps.**  A machine that has halted stays as it
is. -/
theorem execute_induction {P : Machine → Prop} {event : Event} {cycles : Nat}
    (hstep : ∀ (machine after : Machine) (outcome : Except Fault Unit) (w w' : W),
      machine.halted = none → P machine →
      machine.play host step w = ((outcome, after), w') → P (stopped outcome after))
    (h : P machine) (hexecute : machine.execute host cycles w = ((event, after), w')) :
    P after := by
  induction cycles generalizing machine w with
  | zero =>
      obtain ⟨event', hzero⟩ := @execute_zero W host machine w
      rw [hzero] at hexecute
      cases hexecute
      exact h
  | succ cycles ih =>
      cases hhalted : machine.halted with
      | some halt =>
          rw [execute_of_halted (cycles + 1) hhalted] at hexecute
          cases hexecute
          exact h
      | none =>
          rcases hplay : machine.play host step w with ⟨⟨outcome, middle⟩, v⟩
          obtain ⟨v', hrest⟩ := execute_succ_of_play cycles hhalted hplay
          rw [hrest] at hexecute
          exact ih (hstep machine middle outcome w v hhalted h hplay) hexecute

end

/-! ## Reaching -/

/-- The ways to tell a machine to go back to another state. -/
inductive Recall where
  | file
  | bytes (snapshot : List UInt8)
  | undo

/-- What a machine then does. -/
def Recall.work : Recall → Play (StateM W) Unit
  | .file => restore
  | .bytes snapshot => restoreBytes snapshot
  | .undo => Play.undo

/-- The machines that can be reached from an image, with any hosts, by calls that go well or
fail, except that no call to go back fails with a fault that is ruled out. -/
inductive Reachable (image : Array UInt8) (ruledOut : Fault → Prop) : Machine → Prop
  | create {W : Type} {host : Host (StateM W)} {options : Options} {w w' : W} {machine : Machine}
      (h : create host image options w = (.ok machine, w')) : Reachable image ruledOut machine
  | execute {W : Type} {host : Host (StateM W)} {cycles : Nat} {w w' : W} {machine after : Machine}
      {event : Event} (hreach : Reachable image ruledOut machine)
      (h : machine.execute host cycles w = ((event, after), w')) : Reachable image ruledOut after
  | restart {W : Type} {host : Host (StateM W)} {w w' : W} {machine after : Machine}
      {outcome : Except Fault Unit} (hreach : Reachable image ruledOut machine)
      (h : machine.play host restart w = ((outcome, after), w')) : Reachable image ruledOut after
  | sendBack {W : Type} {host : Host (StateM W)} {w w' : W} {machine after : Machine}
      {outcome : Except Fault Unit} (how : Recall) (hreach : Reachable image ruledOut machine)
      (h : machine.play host how.work w = ((outcome, after), w'))
      (hfault : ∀ fault, outcome = .error fault → ¬ruledOut fault) :
      Reachable image ruledOut after

/-- A machine that has executed instructions is reachable. -/
theorem reachable_executed {image : Array UInt8} {ruledOut : Fault → Prop} {machine : Machine}
    (host : Host (StateM Unit)) (cycles : Nat) (h : Reachable image ruledOut machine) :
    Reachable image ruledOut (machine.execute host cycles ()).1.2 :=
  .execute h rfl

section

variable {host : Host (StateM W)} {machine after : Machine} {w w' : W}
  {outcome : Except Fault Unit} {image : Array UInt8} {ruledOut : Fault → Prop}

/-- Restoring bytes ends as any attempt to go back. -/
theorem reload_restoreBytes {bytes : List UInt8}
    (hplay : machine.play host (restoreBytes bytes) w = ((outcome, after), w')) :
    Reload machine outcome after := by
  rcases happly : machine.play host (applySnapshot bytes) w with ⟨⟨fault | _, middle⟩, v⟩ <;>
    have hreload := reload_applySnapshot happly
  · rw [restoreBytes, play_bind_of_error happly] at hplay
    cases hplay
    exact hreload
  · rw [restoreBytes, play_bind_of_ok happly, play_modify] at hplay
    cases hplay
    obtain ⟨hgame, hsound, horderly⟩ := hreload
    refine ⟨⟨hgame.story_eq, hgame.globals_eq⟩, fun hsize => ?_, horderly⟩
    have hafter := hsound hsize
    exact ⟨hafter.size_lt, hafter.storable, hafter.pc_lt⟩

/-- A machine that is told to go back ends as any such attempt. -/
theorem reload_recall (how : Recall)
    (hplay : machine.play host how.work w = ((outcome, after), w')) :
    Reload machine outcome after := by
  cases how with
  | undo => exact reload_undo hplay
  | bytes snapshot => exact reload_restoreBytes hplay
  | file => exact of_file (reload_of_unchanged machine) reload_restoreBytes hplay

/-- The machine plays the story of an image, with the global variables where its header
says. -/
def Plays (image : Array UInt8) (machine : Machine) : Prop :=
  ∃ memory, Memory.ofImage image = .ok memory ∧ machine.memory.story = memory.story ∧
    machine.globals = (memory.headerWord .globalTable).toNat

/-- The same game plays the story of the same image. -/
theorem Plays.sameGame (h : machine.Plays image) (hgame : SameGame machine after) :
    after.Plays image := by
  obtain ⟨memory, hmemory, hstory, hglobals⟩ := h
  exact ⟨memory, hmemory, hgame.story_eq.trans hstory, hgame.globals_eq.trans hglobals⟩

/-- A machine that a fault halts is in the same game. -/
theorem sameRun_stopped (outcome : Except Fault Unit) (after : Machine) :
    SameRun after (stopped outcome after) := by
  cases outcome with
  | ok _ => exact .refl after
  | error fault => exact ⟨⟨rfl, rfl⟩, rfl, rfl⟩

/-- **All machines of an image play the same game**, however they were reached. -/
theorem plays_of_reachable
    (hapart : ∀ memory, Memory.ofImage image = .ok memory → memory.ExtensionApart)
    (h : Reachable image ruledOut machine) : machine.Plays image := by
  induction h with
  | @create _ _ options _ _ _ h =>
      obtain ⟨memory, info, draft, hmemory, hdraft, heq, hglobals⟩ := (created_of_create h).image_eq
      have hmemory' := hapart memory hmemory
      have hsame := Header.sameOff_setUp hmemory' info options
      rw [hdraft] at hsame
      have hpointer : draft.memory.headerWord .globalTable = memory.headerWord .globalTable :=
        hsame.wordAt_eq (Header.not_touched_of_lt hmemory' (by decide) (by decide))
          (Header.not_touched_of_lt hmemory' (by decide) (by decide))
      refine ⟨memory, hmemory, ?_, ?_⟩
      · rw [heq, hsame.story_eq]
      · rw [hglobals, hpointer]
  | execute hreach h ih =>
      refine execute_induction (fun machine after outcome w w' _ hplays hplay => ?_) ih h
      exact (hplays.sameGame (sound_of_step hplay).1).sameGame
        (sameRun_stopped outcome after).toSameGame
  | restart hreach h ih => exact ih.sameGame (restarted_of_play h).sameRun.toSameGame
  | @sendBack _ _ _ _ _ _ outcome how hreach h hfault ih =>
      have hreload := reload_recall how h
      cases outcome with
      | ok _ => exact ih.sameGame hreload.1
      | error fault => exact ih.sameGame hreload.1.sameRun.toSameGame

/-- A machine that is sound as long as it has not halted. -/
structure Fit (machine : Machine) : Prop where
  size_lt : machine.memory.size < 0x1000000
  sound : machine.halted = none → machine.Sound

/-- Memory is as large as its image. -/
theorem size_ofImage {memory : Memory} (h : Memory.ofImage image = .ok memory) :
    memory.size = image.size := by
  unfold Memory.ofImage Story.ofImage at h
  split at h
  · exact nomatch h
  · split at h
    · split at h
      · obtain rfl := Except.ok.inj h
        rfl
      · exact nomatch h
    · exact nomatch h

/-- A machine is created fit. -/
theorem fit_of_created {options : Options} (hsize : image.size < 0x1000000)
    (h : Created image options machine) : machine.Fit := by
  obtain ⟨memory, info, draft, hmemory, hdraft, heq, -⟩ := h.image_eq
  have hstory := Header.story_setUp info options memory
  rw [hdraft] at hstory
  have hlt : machine.memory.size < 0x1000000 := by
    rw [heq, Memory.size_congr hstory, size_ofImage hmemory]
    exact hsize
  refine ⟨hlt, fun _ => ⟨hlt, h.storable, fun hsome => ?_⟩⟩
  rw [h.resume_eq] at hsome
  exact nomatch hsome

/-- A step leaves a fit machine. -/
theorem fit_of_step (h : machine.halted = none) (hfit : machine.Fit)
    (hplay : machine.play host step w = ((outcome, after), w')) : (stopped outcome after).Fit := by
  obtain ⟨hgame, hsound, -⟩ := sound_of_step hplay
  have hlt : after.memory.size < 0x1000000 := by
    rw [hgame.size_eq]
    exact hfit.size_lt
  cases outcome with
  | ok _ => exact ⟨hlt, fun _ => hsound rfl (hfit.sound h)⟩
  | error fault => exact ⟨hlt, nofun⟩

/-- A restart leaves a fit machine. -/
theorem fit_of_restarted (hfit : machine.Fit) (h : Restarted machine outcome after) :
    after.Fit := by
  obtain ⟨hrun, hstarted⟩ := h
  have hlt : after.memory.size < 0x1000000 := by
    rw [hrun.size_eq]
    exact hfit.size_lt
  refine ⟨hlt, fun hhalted => ?_⟩
  rcases hstarted with ⟨-, hstack, hpc, hresume, hsame⟩ | ⟨hresume, -, hstorable, -⟩
  · have hsound := hfit.sound (hsame.symm.trans hhalted)
    refine ⟨hlt, ?_, ?_⟩
    · rw [hstack]
      exact hsound.storable
    · rw [hpc, hresume]
      exact hsound.pc_lt
  · refine ⟨hlt, hstorable, fun hsome => ?_⟩
    rw [hresume] at hsome
    exact nomatch hsome

/-- A call to go back that fails leaves a sound machine, unless the stack ran over. -/
theorem fit_of_failed {fault : Fault} (hfit : machine.Fit) (h : Failed machine fault after)
    (hfault : fault.kind ≠ .stackOverflow) : after.Fit := by
  have hlt : after.memory.size < 0x1000000 := by
    rw [h.sameRun.size_eq]
    exact hfit.size_lt
  refine ⟨hlt, fun hnone => ?_⟩
  rcases h.sound (hfit.sound (h.halted_eq.symm.trans hnone)) with hover | hafter
  · exact absurd hover hfault
  · exact hafter

/-- **A machine that has not halted is sound**, however it was reached, unless a call to go
back to a snapshot had overrun the stack. -/
theorem fit_of_reachable (hsize : image.size < 0x1000000)
    (h : Reachable image (fun fault => fault.kind = .stackOverflow) machine) : machine.Fit := by
  induction h with
  | create h => exact fit_of_created hsize (created_of_create h)
  | execute hreach h ih =>
      exact execute_induction (fun _ _ _ _ _ hhalted hfit hplay => fit_of_step hhalted hfit hplay) ih h
  | restart hreach h ih => exact fit_of_restarted ih (restarted_of_play h)
  | @sendBack _ _ _ _ _ _ outcome how hreach h hfault ih =>
      have hreload := reload_recall how h
      cases outcome with
      | ok _ =>
          have hsound := hreload.2.1 ih.size_lt
          exact ⟨hsound.size_lt, fun _ => hsound⟩
      | error fault =>
          exact fit_of_failed ih hreload.1 (hfault fault rfl)

end

end Machine

end StoryMachine
