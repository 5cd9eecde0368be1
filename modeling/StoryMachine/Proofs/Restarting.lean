import StoryMachine.Proofs.ObjectLinks
import StoryMachine.Proofs.Reachability

/-!
# Starting again

A machine can be started in two ways: it is created from an image, or it is restarted
after it has run for some time.  The second way builds less anew.  The tables that were
read from the image when the machine was created, and the options, are kept, and so the
restarted machine is like a new one only if no run changes them.

That is an invariant of all that can become of a machine (`fixtures_of_later`).  The rest
of the way is the same for both: the image is taken as it was, its header is set up for
the host, and the story is entered where the header says (`entrance`).  The two flags that
a restart keeps play no part in that (`entrance_congr`), although in version 6 the main
routine may lie anywhere, the header included.
-/

namespace StoryMachine

variable {W α β γ : Type}

namespace Play

open Machine

/-- Work that leaves a part of the machine as it is, whether it goes well or not. -/
def Retains (part : Machine → γ) (work : Play (StateM W) α) : Prop :=
  ∀ (host : Host (StateM W)) (machine : Machine) (w : W),
    part (machine.play host work w).1.2 = part machine

section

variable {part : Machine → γ}

/-- Work that leaves the machine leaves every part of it. -/
theorem Reads.retains {work : Play (StateM W) α} (h : Reads work) : Retains part work := by
  intro host machine w
  rw [h host machine w]

/-- A change leaves a part if it does so of every machine. -/
theorem retains_modify {f : Machine → Machine} (h : ∀ machine, part (f machine) = part machine) :
    Retains part (modify f : Play (StateM W) PUnit) := fun _ machine _ => h machine

/-- **Work done in turn leaves a part** if each of its parts does. -/
theorem Retains.bind {work : Play (StateM W) α} {next : α → Play (StateM W) β}
    (h : Retains part work) (hnext : ∀ a, Retains part (next a)) :
    Retains part (work >>= next) := by
  intro host machine w
  have hwork := h host machine w
  rw [play_bind]
  rcases hplay : machine.play host work w with ⟨⟨fault | a, middle⟩, v⟩ <;> rw [hplay] at hwork
  · exact hwork
  · exact (hnext a host middle v).trans hwork

/-- Work that is tried leaves a part if its handler does too. -/
theorem Retains.tryCatch {work : Play (StateM W) α} {handler : Fault → Play (StateM W) α}
    (h : Retains part work) (hhandler : ∀ fault, Retains part (handler fault)) :
    Retains part (MonadExcept.tryCatch work handler) := by
  intro host machine w
  have hwork := h host machine w
  rw [play_tryCatch]
  rcases hplay : machine.play host work w with ⟨⟨fault | a, middle⟩, v⟩ <;> rw [hplay] at hwork
  · exact (hhandler fault host middle v).trans hwork
  · exact hwork

/-- A choice leaves a part if both sides do. -/
theorem Retains.ite {c : Prop} [Decidable c] {work other : Play (StateM W) α}
    (h : Retains part work) (hother : Retains part other) :
    Retains part (if c then work else other) := by
  split
  · exact h
  · exact hother

/-- A part that is left is the same afterwards. -/
theorem Retains.eq {work : Play (StateM W) α} (h : Retains part work)
    {host : Host (StateM W)} {machine after : Machine} {w w' : W} {outcome : Except Fault α}
    (hplay : machine.play host work w = ((outcome, after), w')) : part after = part machine := by
  have hpart := h host machine w
  rwa [hplay] at hpart

/-- An instruction of the plain kind keeps what belongs to the setting. -/
theorem Leads.retains {R : Machine → Machine → Prop} {work : Play (StateM W) α} (h : Leads R work)
    (hR : ∀ machine after, R machine after → SameSetting machine after)
    (hpart : ∀ machine after, SameSetting machine after → part after = part machine) :
    Retains part work := by
  intro host machine w
  rcases hplay : machine.play host work w with ⟨⟨fault | a, after⟩, v⟩
  · exact hpart machine after ((h host machine w).2 fault after v hplay).toSameSetting
  · exact hpart machine after (hR machine after ((h host machine w).1 a after v hplay))

end

end Play

namespace Machine

open Play

/-! ## What no run changes -/

/-- What a machine has from its creation and keeps: the story, the places of its tables, the
tables of its text, and the options. -/
def fixtures (machine : Machine) : Story × ObjectTable × Nat × Codec × Options :=
  (machine.memory.story, machine.objects, machine.globals, machine.codec, machine.options)

/-- The setting includes what a machine has from its creation. -/
theorem fixtures_of_sameSetting {machine after : Machine} (h : SameSetting machine after) :
    after.fixtures = machine.fixtures := by
  rw [fixtures, h.story_eq, h.objects_eq, h.globals_eq, h.codec_eq, h.options_eq]
  rfl

/-- The end of an instruction leaves what a machine has from its creation. -/
theorem retains_of_ends {work : Play (StateM W) α} (h : Ends work) : Retains fixtures work :=
  Leads.retains h (fun _ _ hfinishes => hfinishes.withstands.toSameSetting)
    fun _ _ => fixtures_of_sameSetting

/-- Work on memory that leaves the story leaves what a machine has from its creation. -/
theorem retains_edit {edit : Edit α}
    (h : ∀ memory, (edit.run memory).2.memory.story = memory.story) :
    Retains fixtures (Play.edit edit : Play (StateM W) α) := by
  intro host machine w
  rw [play_edit]
  show ((edit.run machine.memory).2.memory.story, _) = _
  rw [h machine.memory]
  rfl

/-- Setting up the header leaves it. -/
theorem retains_setUp (info : HostInfo) (options : Options) :
    Retains fixtures (Play.edit (Header.setUp info options) : Play (StateM W) Unit) :=
  retains_edit (Header.story_setUp info options)

/-- Putting back the flags leaves it. -/
theorem retains_restoreFlags (kept : Word) :
    Retains fixtures (Play.edit (Edit.change (restoreFlags kept)) : Play (StateM W) Unit) :=
  retains_edit fun _ => rfl

/-- Going to an address leaves it. -/
theorem retains_setPc (pc : Nat) : Retains fixtures (setPc pc : Play (StateM W) Unit) :=
  retains_modify fun _ => by rfl

/-- Completing a restore leaves it. -/
theorem retains_completeRestore (result : Nat) :
    Retains fixtures (completeRestore result : Play (StateM W) Unit) := by
  have hstore (target : UInt8) : Retains fixtures (do
      setPc (result + 1)
      writeVariable target 2 : Play (StateM W) Unit) :=
    (retains_setPc _).bind fun _ => retains_of_ends (quiet_writeVariable target 2).ends
  have hbranch (read : Branch × Nat) : Retains fixtures (do
      setPc (result + read.2)
      if read.1.condition then jump (read.1.target (result + read.2)) : Play (StateM W) Unit) :=
    (retains_setPc _).bind fun _ =>
      .ite (retains_of_ends (ends_jump _)) (reads_pure ()).retains
  refine (reads_view _).retains.bind fun version => ?_
  split
  · exact (reads_look _).retains.bind hstore
  · exact (reads_look _).retains.bind hbranch

/-- Going back to an accepted snapshot leaves it. -/
theorem retains_goBack (restored : Restored) :
    Retains fixtures (goBack restored : Play (StateM W) Unit) := by
  intro host machine w
  unfold goBack
  rw [play_bind_of_ok (play_get machine host w), play_bind, play_ofExcept]
  cases hmemory : machine.memory.setDynamic restored.dynamic with
  | error fault => rfl
  | ok memory =>
      have hreplaced : fixtures { machine with memory } = machine.fixtures := by
        show (memory.story, _) = _
        rw [story_of_setDynamic hmemory]
        rfl
      have hrest : Retains fixtures (do
          edit (Header.setUp machine.info machine.options)
          edit (Edit.change (restoreFlags (keptFlags machine.memory)))
          modify fun machine =>
            { machine with stack := restored.stack, resume := none, dictionaries := {} }
          note (.remark s!"restored to {Numeral.marked 5 restored.pc}")
          completeRestore restored.pc : Play (StateM W) Unit) :=
        (retains_setUp _ _).bind fun _ => (retains_restoreFlags _).bind fun _ =>
          (retains_modify fun _ => by rfl).bind fun _ => (reads_note _).retains.bind fun _ =>
            retains_completeRestore restored.pc
      dsimp only
      rw [play_bind_of_ok (play_set machine host w { machine with memory })]
      exact (hrest host { machine with memory } w).trans hreplaced

/-- Going back to any snapshot leaves it. -/
theorem retains_applySnapshot (bytes : List UInt8) :
    Retains fixtures (applySnapshot bytes : Play (StateM W) Unit) := by
  intro host machine w
  obtain ⟨v, hplay⟩ := @play_applySnapshot W host machine w bytes
  rw [hplay]
  exact (reads_look _).retains.bind retains_goBack host machine v

/-- Restoring bytes leaves it. -/
theorem retains_restoreBytes (bytes : List UInt8) :
    Retains fixtures (restoreBytes bytes : Play (StateM W) Unit) :=
  (retains_applySnapshot bytes).bind fun _ => retains_modify fun _ => by rfl

/-- Undoing leaves it. -/
theorem retains_undo : Retains fixtures (Play.undo : Play (StateM W) Unit) := by
  refine reads_get.retains.bind fun machine => ?_
  cases machine.undo.pop? with
  | none => exact (reads_throw _).retains
  | some generation =>
      obtain ⟨snapshot, ring⟩ := generation
      refine (retains_modify fun _ => by rfl).bind fun _ => ?_
      refine Retains.bind (.tryCatch (retains_applySnapshot _) fun fault => ?_) fun _ =>
        retains_modify fun _ => by rfl
      exact (retains_modify fun _ => by rfl).bind fun _ => (reads_throw fault).retains

/-- Every call to go back leaves it. -/
theorem retains_recall (how : Recall) : Retains fixtures (how.work : Play (StateM W) Unit) := by
  cases how with
  | undo => exact retains_undo
  | bytes snapshot => exact retains_restoreBytes snapshot
  | file =>
      exact (reads_readFile _).retains.bind fun _ =>
        (reads_ofExcept _).retains.bind retains_restoreBytes

/-- Starting again leaves it. -/
theorem retains_restart : Retains fixtures (restart : Play (StateM W) Unit) := by
  have hstart : Retains fixtures (start : Play (StateM W) Unit) := by
    intro host machine w
    obtain ⟨outcome, pc, stack, hplay, -⟩ := play_start host machine w
    rw [hplay]
    rfl
  refine reads_get.retains.bind fun _ => (reads_ask _).retains.bind fun _ => ?_
  refine (retains_modify fun _ => by rfl).bind fun _ => reads_get.retains.bind fun _ => ?_
  refine (retains_setUp _ _).bind fun _ => (retains_restoreFlags _).bind fun _ => ?_
  exact (retains_modify fun _ => by rfl).bind fun _ => (reads_note _).retains.bind fun _ => hstart

/-- What an instruction tries that is to go back leaves it. -/
theorem retains_attempt {work : Play (StateM W) Unit} {opcode : Opcode} {operands : List Word}
    (h : attempt? opcode operands = some work) : Retains fixtures work := by
  unfold attempt? at h
  split at h
  · split at h
    · exact nomatch h
    · obtain rfl := Option.some.inj h
      exact (reads_readFile _).retains.bind fun _ =>
        (reads_ofExcept _).retains.bind retains_applySnapshot
  · obtain rfl := Option.some.inj h
    exact retains_undo
  · exact nomatch h

/-- **No instruction changes what a machine has from its creation.** -/
theorem retains_carryOut (instruction : Instruction) (operands : List Word) :
    Retains fixtures (carryOut instruction operands : Play (StateM W) Unit) := by
  intro host machine w
  rcases @carryOut_cases W instruction operands with
    hends | hrestart | ⟨-, hkeep⟩ | ⟨work, otherwise, warning, hattempt, hotherwise, hback⟩
  · exact retains_of_ends hends host machine w
  · rw [hrestart]
    exact retains_restart host machine w
  · rw [hkeep]
    obtain ⟨v, hstore⟩ := play_saveUndo host machine w instruction
    rw [hstore]
    exact retains_of_ends (quiet_store instruction _).ends host _ v
  · rw [hback]
    refine Retains.tryCatch (retains_attempt hattempt) (fun fault => ?_) host machine w
    exact .ite (reads_throw fault).retains
      ((reads_note _).retains.bind fun _ => retains_of_ends hotherwise)

/-- **No step changes the fixtures**, whatever comes of it. -/
theorem retains_step : Retains fixtures (step : Play (StateM W) Unit) := by
  intro host machine w
  cases hresume : machine.resume with
  | some read =>
      obtain ⟨pending, value⟩ := read
      rw [play_step_of_resume hresume]
      exact retains_of_ends (answers_resumeRead value pending).quiet.ends host _ w
  | none =>
      rw [play_step_of_fetch hresume, play_bind]
      rcases play_fetch host machine w with
        ⟨fault, pc, stack, v, hfetch⟩ | ⟨instruction, operands, poised, v, hfetch, hfetched⟩ <;>
        rw [hfetch]
      · rfl
      · refine (retains_carryOut instruction operands host poised v).trans ?_
        rw [hfetched.poised_eq]
        rfl

/-- What can become of a machine: it executes, is restarted or is sent back, with any hosts, and
the calls go well or fail. -/
inductive Later (first : Machine) : Machine → Prop
  | refl : Later first first
  | execute {W : Type} {host : Host (StateM W)} {cycles : Nat} {w w' : W} {machine after : Machine}
      {event : Event} (hlater : Later first machine)
      (h : machine.execute host cycles w = ((event, after), w')) : Later first after
  | restart {W : Type} {host : Host (StateM W)} {w w' : W} {machine after : Machine}
      {outcome : Except Fault Unit} (hlater : Later first machine)
      (h : machine.play host restart w = ((outcome, after), w')) : Later first after
  | sendBack {W : Type} {host : Host (StateM W)} {w w' : W} {machine after : Machine}
      {outcome : Except Fault Unit} (how : Recall) (hlater : Later first machine)
      (h : machine.play host how.work w = ((outcome, after), w')) : Later first after

/-- **Nothing that can become of a machine changes its fixtures.** -/
theorem fixtures_of_later {first machine : Machine} (h : Later first machine) :
    machine.fixtures = first.fixtures := by
  induction h with
  | refl => rfl
  | execute _ h ih =>
      refine execute_induction (P := fun machine => machine.fixtures = first.fixtures) ?_ ih h
      intro machine after outcome w w' _ hmachine hplay
      have hafter := (retains_step.eq hplay).trans hmachine
      cases outcome with
      | ok _ => exact hafter
      | error fault => exact hafter
  | restart _ h ih => exact (retains_restart.eq h).trans ih
  | sendBack how _ h ih => exact ((retains_recall how).eq h).trans ih

end Machine

/-! ## Entering the story -/

namespace Play

open Machine

/-- The byte that holds the two flags. -/
def FlagsByte (address : Nat) : Prop := address = 0x11

instance (address : Nat) : Decidable (FlagsByte address) :=
  inferInstanceAs (Decidable (_ = _))

/-- The two lowest flags are not in the high byte. -/
theorem high_flags (flags kept : Word) :
    ((flags &&& 0xfffc) ||| (kept &&& 3)).high = flags.high := by
  rw [Word.high_or, Word.high_and, Word.high_and, show Word.high 0xfffc = -1 by decide,
    show Word.high 3 = 0 by decide, UInt8.and_zero, UInt8.or_zero, UInt8.and_neg_one]

/-- The two flags are all that is put back. -/
theorem sameOff_restoreFlags (memory before : Memory) :
    Memory.SameOff FlagsByte memory (restoreFlags (keptFlags before) memory) :=
  Memory.sameOff_setHeaderWord_of_high .flags2 (high_flags _ _)

/-- The two lowest bits of the second flags are put back, and the others stay. -/
theorem flags_restoreFlags (memory : Memory) (kept : Word) :
    (restoreFlags kept memory).headerWord .flags2
      = (memory.headerWord .flags2 &&& 0xfffc) ||| kept := by
  unfold restoreFlags Memory.setHeaderWord Memory.headerWord
  exact Memory.wordAt_setWord _ _

/-- Where a story begins, and with which stack. -/
def entrance (memory : Memory) : Except Fault (Nat × CallStack) :=
  let initial := memory.headerWord .initialPC
  if memory.version = 6 then
    match ({} : CallStack).run
        (CallStack.call memory (memory.story.routineAddress initial) [] 0 none none) with
    | (.ok pc, stack) => .ok (pc, stack)
    | (.error fault, _) => .error fault
  else .ok (initial.toNat, {})

/-- Starting enters the story there, or not at all. -/
theorem play_start_eq (host : Host (StateM W)) (machine : Machine) (w : W) :
    machine.play host start w = match entrance machine.memory with
      | .ok (pc, stack) => ((.ok (), { machine with pc, stack }), w)
      | .error fault => ((.error fault, { machine with stack := {} }), w) := by
  unfold start entrance
  rw [play_bind_of_ok (play_modify machine host w _), play_bind_of_ok (play_get _ host w)]
  dsimp only
  by_cases hsix : machine.memory.version = 6
  · rw [if_pos hsix, if_pos hsix, play_bind, play_onStack]
    rcases CallStack.run_call {} machine.memory
        (machine.memory.story.routineAddress (machine.memory.headerWord .initialPC)) [] 0 none none
      with ⟨frame, first, hcall, -⟩ | ⟨fault, hcall⟩ <;> rw [hcall]
    · rfl
  · rw [if_neg hsix, if_neg hsix]
    rfl

/-- A story with an entrance starts there. -/
theorem play_start_of_entrance (host : Host (StateM W)) (machine : Machine) (w : W) {pc : Nat}
    {stack : CallStack} (h : entrance machine.memory = .ok (pc, stack)) :
    machine.play host start w = ((.ok (), { machine with pc, stack }), w) := by
  rw [play_start_eq, h]

/-- **The flags play no part in that.**  A routine begins at a multiple of four. -/
theorem entrance_congr {memory after : Memory} (h : Memory.SameOff FlagsByte memory after) :
    entrance after = entrance memory := by
  have hversion : after.version = memory.version := congrArg Story.version h.story_eq
  have hinitial : after.headerWord .initialPC = memory.headerWord .initialPC :=
    @Memory.SameOff.wordAt_eq _ _ _ h 0x06 (by decide) (by decide)
  unfold entrance
  rw [hversion, hinitial, h.story_eq]
  by_cases hsix : memory.version = 6
  · rw [if_pos hsix, if_pos hsix]
    have hmain : ¬FlagsByte (memory.story.routineAddress (memory.headerWord .initialPC)) := by
      have hstory : memory.story.version = 6 := hsix
      unfold FlagsByte Story.routineAddress Story.unpack
      rw [hstory]
      simp only [show ¬(6 : Nat) ≤ 3 by decide, show ¬(6 : Nat) ≤ 5 by decide,
        show (6 : Nat) ≤ 7 by decide, if_true, if_false]
      omega
    have hread : after.readByte _ = memory.readByte _ :=
      Memory.readByte_congr (Memory.size_congr h.story_eq) (h.byteAt_eq _ hmain)
    have hlocals (address count : Nat) : CallStack.initialLocals after address count
        = CallStack.initialLocals memory address count := by
      unfold CallStack.initialLocals
      rw [hversion, hsix]
      rfl
    unfold CallStack.call
    simp only [hread, hlocals, hversion]
  · rw [if_neg hsix, if_neg hsix]

end Play

namespace Machine

open Play

/-! ## The two ways of starting -/

/-- **A machine is created** where the image can be run, its header can be set up for the host,
the tables of its text can be read, and the story can be entered.  The seed comes from the options
or from the host. -/
theorem create_of_parts (host : Host (StateM W)) {image : Array UInt8} {options : Options} (w : W)
    {memory : Memory} {draft draft' : Draft} {codec : Codec} {pc : Nat} {stack : CallStack}
    (hmemory : Memory.ofImage image = .ok memory)
    (hsetUp : (Header.setUp (host.info w).1 options).run memory = (.ok (), draft))
    (hcodec : Work.on loadCodec draft = (.ok codec, draft'))
    (hentrance : entrance draft.memory = .ok (pc, stack)) :
    ∃ seed w', create host image options w
      = (.ok { assemble draft.memory codec options (host.info w).1 seed with pc, stack }, w') := by
  have hdraft : draft'.memory = draft.memory := by
    have hkeeps := keeps_loadCodec.eq draft
    rw [hcodec] at hkeeps
    exact hkeeps
  have hrun : Edit.run (do Header.setUp (host.info w).1 options; loadCodec) memory
      = (.ok codec, draft') := by
    have hsetUp : Work.on (Header.setUp (host.info w).1 options) { memory } = (.ok (), draft) :=
      hsetUp
    rw [Edit.run_eq_on, Work.on_bind, hsetUp]
    exact hcodec
  have hstart (seed : UInt32) (v : W) :=
    play_start_eq host (assemble draft.memory codec options (host.info w).1 seed) v
  simp only [show ∀ seed, (assemble draft.memory codec options (host.info w).1 seed).memory
    = draft.memory from fun _ => rfl, hentrance] at hstart
  show ∃ seed w', Work.on _ w = (.ok _, w')
  have hread : Work.on (MonadExcept.ofExcept (Memory.ofImage image)) w = (.ok memory, w) := by
    rw [Work.on_ofExcept, hmemory]
  rw [Work.on_bind_of_ok hread, Work.on_bind_of_ok (Work.on_liftM w _), hrun]
  dsimp only
  rw [Work.on_bind_of_ok (Work.on_liftM _ _), Work.on_bind_of_ok (Work.on_ofExcept _ _), hdraft]
  cases options.randomSeed with
  | some seed =>
      dsimp only
      rw [pure_bind, Work.on_bind_of_ok (Work.on_liftM _ _), hstart]
      exact ⟨seed, _, rfl⟩
  | none =>
      dsimp only
      rw [Work.on_bind_of_ok (Work.on_liftM _ _), Work.on_bind_of_ok (Work.on_liftM _ _), hstart]
      exact ⟨_, _, rfl⟩

/-- **A machine is restarted** where its header can be set up for the host, and the story can be
entered. -/
theorem play_restart_of_parts (host : Host (StateM W)) (machine : Machine) (w : W) {draft : Draft}
    {pc : Nat} {stack : CallStack}
    (hsetUp : (Header.setUp (host.info w).1 machine.options).run machine.memory.reset
      = (.ok (), draft))
    (hentrance : entrance draft.memory = .ok (pc, stack)) :
    ∃ w', machine.play host restart w = ((.ok (), { machine with
        memory := restoreFlags (keptFlags machine.memory) draft.memory
        stack, pc, info := (host.info w).1, streams := machine.streams.resetRedirection
        dictionaries := {}, resume := none, halted := none }), w') := by
  unfold restart
  rw [play_bind_of_ok (play_get machine host w), play_bind_of_ok (play_ask machine host w _),
    play_bind_of_ok (play_modify machine host _ _), play_bind_of_ok (play_get _ host _), play_bind,
    play_edit]
  dsimp only
  rw [hsetUp]
  dsimp only
  rw [play_bind_of_ok (play_edit _ host _ _), play_bind_of_ok (play_modify _ host _ _),
    play_bind_of_ok (play_note _ host _ _)]
  have hentrance' : entrance (restoreFlags (keptFlags machine.memory) draft.memory)
      = .ok (pc, stack) :=
    (entrance_congr (sameOff_restoreFlags draft.memory machine.memory)).trans hentrance
  exact ⟨_, play_start_of_entrance host _ _ hentrance'⟩

/-- A machine that has started again, compared with the one before and with a new one. -/
structure StartedAgain (machine fresh after : Machine) : Prop where
  /-- All of memory is new, but for the two flags. -/
  sameOff : Memory.SameOff FlagsByte fresh.memory after.memory
  flags_eq : after.memory.headerWord .flags2
    = (fresh.memory.headerWord .flags2 &&& 0xfffc) ||| (machine.memory.headerWord .flags2 &&& 3)
  stack_eq : after.stack = fresh.stack
  pc_eq : after.pc = fresh.pc
  objects_eq : after.objects = fresh.objects
  globals_eq : after.globals = fresh.globals
  codec_eq : after.codec = fresh.codec
  streams_eq : after.streams = { machine.streams with screen := true, tables := [], replay := none }
  dictionaries_eq : after.dictionaries = {}
  resume_eq : after.resume = none
  halted_eq : after.halted = none
  undo_eq : after.undo = machine.undo
  random_eq : after.random = machine.random

/-- The memory of an image is that of its story. -/
theorem eq_ofStory_of_ofImage {image : Array UInt8} {memory : Memory}
    (h : Memory.ofImage image = .ok memory) : memory = Memory.ofStory memory.story := by
  unfold Memory.ofImage at h
  cases hstory : Story.ofImage image with
  | error fault =>
      rw [hstory] at h
      exact nomatch h
  | ok story =>
      rw [hstory] at h
      obtain rfl := Except.ok.inj h
      rfl

/-- The image is taken as it was, so the header is set up as it was at first. -/
theorem reset_of_setUp {image : Array UInt8} {memory later : Memory} {draft : Draft}
    {info : HostInfo} {options : Options} (hmemory : Memory.ofImage image = .ok memory)
    (hsetUp : (Header.setUp info options).run memory = (.ok (), draft))
    (hstory : later.story = draft.memory.story) : later.reset = memory := by
  have hdraft : draft.memory.story = memory.story := by
    have hkept := Header.story_setUp info options memory
    rwa [hsetUp] at hkept
  rw [Memory.reset, hstory, hdraft, ← eq_ofStory_of_ofImage hmemory]

/-- A machine has been told of its host when it was created. -/
theorem info_of_create {host : Host (StateM W)} {image : Array UInt8} {options : Options}
    {machine : Machine} {w w' : W} (h : create host image options w = (.ok machine, w')) :
    machine.info = (host.info w).1 := by
  obtain ⟨_, draft, codec, _, seed, v, v', -, -, -, hplay⟩ := started_of_create h
  obtain ⟨outcome, pc, stack, hstart, -⟩ :=
    play_start host (assemble draft.memory codec options (host.info w).1 seed) v
  rw [hstart] at hplay
  cases hplay
  rfl

/-- **A restart is a fresh start.**  Whatever has become of a machine, and with whatever hosts, a
host like the one it was created for creates another from the image, and restarts it; and then the
two are alike. -/
theorem restart_is_fresh_start {V : Type} {creator : Host (StateM V)} {image : Array UInt8}
    {options : Options} {first machine : Machine} {u u' : V}
    (hcreate : create creator image options u = (.ok first, u')) (hlater : Later first machine)
    (host : Host (StateM W)) (hinfo : ∀ w, (host.info w).1 = first.info) (v w : W) :
    ∃ fresh v' after w', create host image options v = (.ok fresh, v') ∧
      machine.play host restart w = ((.ok (), after), w') ∧ StartedAgain machine fresh after := by
  obtain ⟨memory, draft, codec, draft', seed, t, t', hmemory, hsetUp, hcodec, hplay⟩ :=
    started_of_create hcreate
  rw [play_start_eq] at hplay
  have hsame : entrance (assemble draft.memory codec options (creator.info u).1 seed).memory
      = entrance draft.memory := rfl
  cases hentrance : entrance draft.memory with
  | error fault =>
      rw [hsame, hentrance] at hplay
      exact nomatch hplay
  | ok place =>
      obtain ⟨pc, stack⟩ := place
      rw [hsame, hentrance] at hplay
      cases hplay
      have hhost (w : W) : (host.info w).1 = (creator.info u).1 := hinfo w
      have hfixtures := fixtures_of_later hlater
      obtain ⟨hstory, hobjects, hglobals, hcodec', hoptions⟩ : machine.memory.story = _ ∧
          machine.objects = _ ∧ machine.globals = _ ∧ machine.codec = _ ∧ machine.options = _ := by
        simpa only [fixtures, Prod.mk.injEq] using hfixtures
      have hreset : machine.memory.reset = memory := reset_of_setUp hmemory hsetUp hstory
      obtain ⟨seed', v', hfresh⟩ := create_of_parts host v hmemory
        (by rw [hhost v]; exact hsetUp) hcodec hentrance
      have hsetUp' : (Header.setUp (host.info w).1 machine.options).run machine.memory.reset
          = (.ok (), draft) := by
        rw [hhost w, hreset, hoptions]
        exact hsetUp
      obtain ⟨w', hrestart⟩ := play_restart_of_parts host machine w hsetUp' hentrance
      refine ⟨_, v', _, w', hfresh, hrestart, ?_⟩
      exact { sameOff := sameOff_restoreFlags draft.memory machine.memory
              flags_eq := flags_restoreFlags draft.memory (keptFlags machine.memory)
              stack_eq := rfl
              pc_eq := rfl
              objects_eq := hobjects
              globals_eq := hglobals
              codec_eq := hcodec'
              streams_eq := rfl
              dictionaries_eq := rfl
              resume_eq := rfl
              halted_eq := rfl
              undo_eq := rfl
              random_eq := rfl }

/-- A story that changes a global variable, asks for a fixed pitch, and quits. -/
def spoiling : Array UInt8 :=
  storyOf [0x0d, 0x10, 42, 0xe2, 0x57, 0x00, 0x11, 0x02, 0xba]

def unspoiltStory : Machine :=
  ((create deaf spoiling {} ()).1.toOption).get rfl

def spoiltStory : Machine :=
  (unspoiltStory.execute deaf 3 ()).1.2

/-- A machine that has executed instructions is a later one. -/
theorem later_executed {first machine : Machine} (host : Host (StateM Unit)) (cycles : Nat)
    (h : Later first machine) : Later first (machine.execute host cycles ()).1.2 :=
  .execute h rfl

/-- The variable is zero again, and the pitch is still fixed. -/
theorem restart_is_fresh_start_spoilt :
    spoiltStory.halted = some .quit ∧ spoiltStory.memory.wordAt 64 = 42 ∧
      ∃ after w', spoiltStory.play deaf restart () = ((.ok (), after), w') ∧ after.halted = none ∧
        after.pc = 72 ∧ after.memory.wordAt 64 = 0 ∧ after.memory.headerWord .flags2 = 2 := by
  have hcreate : create deaf spoiling {} () = (.ok unspoiltStory, ()) := rfl
  have hlater : Later unspoiltStory spoiltStory := later_executed deaf 3 .refl
  obtain ⟨fresh, v', after, w', hfresh, hrestart, hagain⟩ :=
    restart_is_fresh_start hcreate hlater deaf (fun _ => (info_of_create hcreate).symm) () ()
  obtain rfl : unspoiltStory = fresh := Except.ok.inj (congrArg Prod.fst (hcreate.symm.trans hfresh))
  refine ⟨by decide +kernel, by decide +kernel, after, w', hrestart, hagain.halted_eq, ?_, ?_, ?_⟩
  · rw [hagain.pc_eq]
    decide +kernel
  · rw [hagain.sameOff.wordAt_eq (by decide) (by decide)]
    decide +kernel
  · rw [hagain.flags_eq]
    decide +kernel

end Machine

end StoryMachine
