import StoryMachine.Proofs.SnapshotLength
import StoryMachine.Proofs.Resuming
import StoryMachine.Proofs.Unwinding

/-!
# How many frames there can be

Calls nest `maxFrames` deep and no deeper, but a snapshot that a machine goes back to
brings its frames with it, and nobody counts them.  A snapshot of a machine's own
holds as many frames as the machine had (`holdsAtMost_capture`), so those that come
from outside decide: the save files of the host, and bytes that are handed in.

`ReachedWithin` is a machine all of whose snapshots from outside hold at most so many
frames.  **The main statement** is that the depth is limited by `maxFrames` if these
are, and not otherwise; and that the word which `catch` delivers leads back to its
frame as long as the depth fits a word, and not otherwise.
-/

namespace StoryMachine

variable {W α β : Type}

namespace Snapshot

/-! ## The frames of a snapshot -/

/-- However the snapshot is accepted, it has no more frames than the given number. -/
def HoldsAtMost (limit : Nat) (bytes : List UInt8) : Prop :=
  ∀ memory restored, parse bytes memory = .ok restored → restored.stack.depth ≤ limit

/-- A snapshot within a limit is within any higher one. -/
theorem HoldsAtMost.mono {limit limit' : Nat} {bytes : List UInt8} (h : HoldsAtMost limit bytes)
    (hle : limit ≤ limit') : HoldsAtMost limit' bytes :=
  fun memory restored hparse => Nat.le_trans (h memory restored hparse) hle

/-- Frames that claim no more words than there are come back one for one. -/
theorem framesFrom_framesBytes_of_le {frames : List Frame} {words : List Word}
    (hlocals : ∀ frame ∈ frames, frame.locals.length ≤ 15)
    (howned : CallStack.owned frames ≤ words.length)
    (hclaimed : CallStack.owned frames ≤ 65535) :
    ∃ shares, framesFrom 0 (framesBytes frames words) = .ok shares ∧
      shares.length = frames.length := by
  induction frames generalizing words with
  | nil => exact ⟨[], rfl, rfl⟩
  | cons frame frames ih =>
      rw [CallStack.owned_cons] at howned hclaimed
      obtain ⟨shares, hread, hlength⟩ := @ih (words.drop frame.size)
        (fun other hother => hlocals other (List.mem_cons_of_mem _ hother))
        (by rw [List.length_drop]; omega) (by omega)
      have htake : (words.take frame.size).length = frame.size := by
        rw [List.length_take]
        omega
      rw [framesBytes, framesFrom_frameBytes_of_le (hlocals frame List.mem_cons_self) htake.symm
        (by omega), hread]
      exact ⟨_, rfl, congrArg Nat.succ hlength⟩

/-- A stack has the frames that it was made of. -/
theorem depth_of_ofParts {frames : List Frame} {words : List Word} {stack : CallStack}
    (h : CallStack.ofParts frames words = .ok stack) : stack.depth = frames.length := by
  unfold CallStack.ofParts at h
  simp only at h
  split at h
  case h_2 => exact nomatch h
  case h_1 current callers hreverse =>
    have hlength := congrArg List.length hreverse
    rw [List.length_reverse, List.length_cons] at hlength
    split at h
    · exact nomatch h
    · split at h
      · exact nomatch h
      · obtain rfl := Except.ok.inj h
        exact hlength.symm

/-- A snapshot that a machine makes holds as many frames as the machine has. -/
theorem holdsAtMost_capture {memory : Memory} {stack : CallStack} (pc : Nat) (compressed : Bool)
    {limit : Nat} (hstack : stack.Covered) (hdepth : stack.depth ≤ limit)
    (hlimit : limit ≤ 0x4000000) : HoldsAtMost limit (capture memory stack pc compressed none) := by
  intro now restored hparse
  have hlength := length_capture_lt memory pc compressed hstack (Nat.le_trans hdepth hlimit)
  obtain ⟨shares, hread, hshares⟩ := @framesFrom_framesBytes_of_le stack.frames stack.words
    hstack.locals_le
    (by rw [CallStack.owned_frames, CallStack.length_words]; exact hstack.owned_le)
    (by rw [CallStack.owned_frames]; exact hstack.claimed_le)
  have hcount : stack.frames.length = stack.depth := by
    simp [CallStack.frames, CallStack.depth]
  rw [parse, chunks_capture stack pc compressed none hlength] at hparse
  obtain ⟨_, hchunks, hparse⟩ := bind_eq_ok.mp hparse
  obtain rfl := Except.ok.inj hchunks
  obtain ⟨_, -, hparse⟩ := bind_eq_ok.mp hparse
  obtain ⟨_, -, hparse⟩ := bind_eq_ok.mp hparse
  obtain ⟨parsed, hframes, hparse⟩ := bind_eq_ok.mp hparse
  obtain rfl := Except.ok.inj hparse
  rw [parseFrames, find?_chunksOf_framesId] at hframes
  have hstored : parseStack (framesBytes stack.frames stack.words) = .ok parsed := hframes
  rw [parseStack, hread] at hstored
  have hparts := depth_of_ofParts hstored
  rw [List.length_map, hshares, hcount] at hparts
  exact Nat.le_trans (Nat.le_of_eq hparts) hdepth

end Snapshot

/-- A host whose save files hold no more frames than the given number. -/
def Host.SavesAtMost (limit : Nat) (host : Host (StateM W)) : Prop :=
  ∀ w file w' bytes, host.openForRead .saveGame w = (some file, w') →
    (host.readAll file w').1 = .ok bytes → Snapshot.HoldsAtMost limit bytes

/-- A host whose save files are within a limit keeps any higher one. -/
theorem Host.SavesAtMost.mono {limit limit' : Nat} {host : Host (StateM W)}
    (h : host.SavesAtMost limit) (hle : limit ≤ limit') : host.SavesAtMost limit' :=
  fun w file w' bytes hfile hbytes => (h w file w' bytes hfile hbytes).mono hle

namespace Play

open Machine

/-! ## What is withstood, and what is gone back to -/

/-- Work that every machine withstands, whether it goes well or not. -/
def Withstood (work : Play (StateM W) α) : Prop :=
  ∀ (host : Host (StateM W)) (machine : Machine) (w : W),
    Withstands machine (machine.play host work w).1.2

/-- **Work done in turn is withstood** if each of its parts is. -/
theorem Withstood.bind {work : Play (StateM W) α} {next : α → Play (StateM W) β}
    (h : Withstood work) (hnext : ∀ a, Withstood (next a)) : Withstood (work >>= next) := by
  intro host machine w
  have hwork := h host machine w
  rcases hplay : machine.play host work w with ⟨⟨fault | a, middle⟩, v⟩ <;> rw [hplay] at hwork
  · rw [play_bind_of_error hplay]
    exact hwork
  · rw [play_bind_of_ok hplay]
    exact hwork.trans (hnext a host middle v)

/-- Work that leads along something that is withstood is withstood. -/
theorem Leads.withstood {R : Machine → Machine → Prop} {work : Play (StateM W) α}
    (h : Leads R work) (hR : ∀ {machine after}, R machine after → Withstands machine after) :
    Withstood work := by
  intro host machine w
  rcases hplay : machine.play host work w with ⟨⟨fault | a, after⟩, v⟩
  · exact (h host machine w).2 fault after v hplay
  · exact hR ((h host machine w).1 a after v hplay)

/-- Quiet work is withstood. -/
theorem withstood_of_quiet {work : Play (StateM W) α} (h : Quiet work) : Withstood work :=
  h.withstood Moves.withstands

/-- The end of an instruction is withstood. -/
theorem withstood_of_ends {work : Play (StateM W) α} (h : Ends work) : Withstood work :=
  h.withstood Finishes.withstands

/-- Completing a restore is withstood. -/
theorem withstood_completeRestore (result : Nat) :
    Withstood (completeRestore result : Play (StateM W) Unit) := by
  have hplace (pc : Nat) : Withstood (setPc pc : Play (StateM W) Unit) :=
    withstood_of_ends (ends_setPc pc)
  refine (withstood_of_quiet (calm_view _).quiet).bind fun version => ?_
  split
  · refine (withstood_of_quiet (calm_look _).quiet).bind fun target => ?_
    exact (hplace _).bind fun _ => withstood_of_quiet (quiet_writeVariable target 2)
  · refine (withstood_of_quiet (calm_look _).quiet).bind fun read => (hplace _).bind fun _ => ?_
    exact withstood_of_ends (.ite (ends_jump _) (quiet_pure ()).ends)

/-- Reading a variable takes a word from the stack at the most. -/
theorem quiet_readVariable (number : UInt8) :
    Quiet (readVariable number : Play (StateM W) Word) :=
  .ite quiet_pop <| .ite (calm_get.bind fun _ => calm_ofExcept _).quiet
    (calm_get.bind fun _ => calm_look _).quiet

/-- Taking the values of operands takes words from the stack at the most. -/
theorem quiet_operandValues (operands : List Operand) :
    Quiet (operandValues operands : Play (StateM W) (List Word)) := by
  induction operands with
  | nil => exact quiet_pure []
  | cons operand operands ih =>
      have hvalue : Quiet (operandValue operand : Play (StateM W) Word) := by
        cases operand with
        | large value => exact quiet_pure value
        | small value => exact quiet_pure _
        | var number => exact quiet_readVariable number
      exact hvalue.bind fun value => ih.bind fun values => quiet_pure _

/-- Fetching is withstood. -/
theorem withstood_fetch : Withstood (fetch : Play (StateM W) (Instruction × List Word)) := by
  have hrest (pc : Nat) : Withstood (do
      let instruction ← MonadExcept.ofExcept (Instruction.decode (← view id) pc)
      ask (·.trace instruction)
      setPc instruction.next
      let operands ← operandValues instruction.operands
      return (instruction, operands) : Play (StateM W) (Instruction × List Word)) := by
    refine (withstood_of_quiet (calm_view _).quiet).bind fun memory => ?_
    refine (withstood_of_quiet (calm_ofExcept _).quiet).bind fun instruction => ?_
    refine (withstood_of_quiet (calm_ask _).quiet).bind fun _ => ?_
    refine (withstood_of_ends (ends_setPc _)).bind fun _ => ?_
    exact withstood_of_quiet ((quiet_operandValues _).bind fun _ => quiet_pure _)
  intro host machine w
  have hmarked : Withstands machine { machine with current := machine.pc } :=
    ⟨⟨rfl, rfl, rfl, rfl, rfl, rfl, rfl⟩, .refl machine.stack⟩
  exact hmarked.trans (hrest machine.pc host { machine with current := machine.pc } w)

/-- The stack comes from the machine or from a snapshot that was accepted, and undo generations
stay. -/
theorem play_applySnapshot_stack (host : Host (StateM W)) (machine : Machine) (w : W)
    (bytes : List UInt8) {outcome : Except Fault Unit} {after : Machine} {w' : W}
    (hplay : machine.play host (applySnapshot bytes) w = ((outcome, after), w')) :
    after.undo = machine.undo ∧ (after.stack = machine.stack ∨
      ∃ restored, Snapshot.parse bytes machine.memory = .ok restored ∧
        restored.stack.Endures after.stack) := by
  cases hparse : Snapshot.parse bytes machine.memory with
  | error fault =>
      obtain ⟨v, hreject⟩ := play_applySnapshot_of_rejected host w hparse
      rw [hreject] at hplay
      cases hplay
      exact ⟨rfl, .inl rfl⟩
  | ok restored =>
      obtain ⟨v, haccept⟩ := play_applySnapshot_of_accepted host w hparse
      rw [haccept] at hplay
      have hmemory : machine.memory.setDynamic restored.dynamic = .ok (machine.memory.withDynamic
          restored.dynamic (Snapshot.accepted_of_parse hparse).length_dynamic) := dif_pos _
      rcases hdraft : (Header.setUp machine.info machine.options).run (machine.memory.withDynamic
          restored.dynamic (Snapshot.accepted_of_parse hparse).length_dynamic)
        with ⟨fault | _, draft⟩
      · obtain ⟨v', hunready⟩ := play_goBack_of_unready host v hmemory hdraft
        rw [hunready] at hplay
        cases hplay
        exact ⟨rfl, .inl rfl⟩
      · obtain ⟨v', hready⟩ := play_goBack_of_ready host v hmemory ⟨draft, hdraft, rfl⟩
        have hwithstands := withstood_completeRestore restored.pc host (machine.reloaded
          (restoreFlags (keptFlags machine.memory) draft.memory) restored.stack) v'
        rw [hready] at hplay
        rw [hplay] at hwithstands
        exact ⟨hwithstands.undo_eq, .inr ⟨restored, rfl, hwithstands.stack_endures⟩⟩

end Play

/-! ## A limit that is kept -/

namespace Machine

/-- A machine whose frames are limited, and so are those of its undo generations. -/
structure Limited (limit : Nat) (machine : Machine) : Prop where
  depth_le : machine.stack.depth ≤ limit
  covered : machine.stack.Covered
  undo_le : ∀ snapshot ∈ machine.undo.generations, Snapshot.HoldsAtMost limit snapshot

variable {limit : Nat} {machine after : Machine}

/-- A machine stays within the limit over a stack that has endured. -/
theorem Limited.of_endures {stack : CallStack} (h : machine.Limited limit)
    (hmax : CallStack.maxFrames ≤ limit) (hdepth : stack.depth ≤ limit) (hcovered : stack.Covered)
    (hstack : stack.Endures after.stack) (hundo : after.undo = machine.undo) :
    after.Limited limit := by
  have hafter := hstack.depth_le
  exact ⟨by omega, hstack.covered hcovered, hundo ▸ h.undo_le⟩

/-- A machine stays within the limit over work that it has withstood. -/
theorem Limited.withstands (h : machine.Limited limit) (hmax : CallStack.maxFrames ≤ limit)
    (hwithstands : Withstands machine after) : after.Limited limit :=
  h.of_endures hmax h.depth_le h.covered hwithstands.stack_endures hwithstands.undo_eq

/-- The newest generation is the first of them. -/
theorem generations_of_pop? {ring rest : UndoRing} {snapshot : List UInt8}
    (h : ring.pop? = some (snapshot, rest)) : ring.generations = snapshot :: rest.generations := by
  rw [← UndoRing.unpop_of_pop? h]
  rfl

/-- The generations after a new one are this one and some of those before. -/
theorem mem_generations_of_push {ring : UndoRing} {snapshot other : List UInt8}
    (h : other ∈ (ring.push snapshot).generations) :
    other = snapshot ∨ other ∈ ring.generations := by
  unfold UndoRing.push at h
  split at h
  · exact (List.mem_cons.mp h).imp_right List.mem_of_mem_take
  · exact .inr h

end Machine

namespace Play

open Machine

/-- Work that keeps the limit, whether it goes well or not. -/
def KeepsLimit (limit : Nat) (host : Host (StateM W)) (work : Play (StateM W) α) : Prop :=
  ∀ (machine : Machine) (w : W), machine.Limited limit →
    (machine.play host work w).1.2.Limited limit

section

variable {limit : Nat} {host : Host (StateM W)}

/-- **Work done in turn keeps the limit** if each of its parts does. -/
theorem KeepsLimit.bind {work : Play (StateM W) α} {next : α → Play (StateM W) β}
    (h : KeepsLimit limit host work) (hnext : ∀ a, KeepsLimit limit host (next a)) :
    KeepsLimit limit host (work >>= next) := by
  intro machine w hmachine
  have hwork := h machine w hmachine
  rcases hplay : machine.play host work w with ⟨⟨fault | a, middle⟩, v⟩ <;> rw [hplay] at hwork
  · rw [play_bind_of_error hplay]
    exact hwork
  · rw [play_bind_of_ok hplay]
    exact hnext a middle v hwork

/-- Work that is tried keeps the limit if its handler does too. -/
theorem KeepsLimit.tryCatch {work : Play (StateM W) α} {handler : Fault → Play (StateM W) α}
    (h : KeepsLimit limit host work) (hhandler : ∀ fault, KeepsLimit limit host (handler fault)) :
    KeepsLimit limit host (tryCatch work handler) := by
  intro machine w hmachine
  have hwork := h machine w hmachine
  rw [play_tryCatch]
  rcases hplay : machine.play host work w with ⟨⟨fault | a, middle⟩, v⟩ <;> rw [hplay] at hwork
  · exact hhandler fault middle v hwork
  · exact hwork

/-- A change keeps the limit if it does so of every machine. -/
theorem keepsLimit_modify {f : Machine → Machine}
    (h : ∀ machine : Machine, machine.Limited limit → (f machine).Limited limit) :
    KeepsLimit limit host (modify f : Play (StateM W) PUnit) :=
  fun machine _ hmachine => h machine hmachine

/-- Work that leaves the machine keeps the limit. -/
theorem Reads.keepsLimit {work : Play (StateM W) α} (h : Reads work) :
    KeepsLimit limit host work := by
  intro machine w hmachine
  rw [h host machine w]
  exact hmachine

/-- What is read from a save file of the host is limited. -/
theorem keepsLimit_file {next : List UInt8 → Play (StateM W) Unit}
    (hsaves : host.SavesAtMost limit)
    (hnext : ∀ bytes, Snapshot.HoldsAtMost limit bytes → KeepsLimit limit host (next bytes)) :
    KeepsLimit limit host (do next (← MonadExcept.ofExcept (← readFile .saveGame))) := by
  intro machine w hmachine
  have hopen := play_ask machine host w (·.openForRead .saveGame)
  rcases hfile : host.openForRead .saveGame w with ⟨_ | file, v⟩
  all_goals
    rw [hfile] at hopen
    unfold readFile
    rw [bind_assoc, play_bind_of_ok hopen]
  · exact hmachine
  · have hread := play_ask machine host v (·.readAll file)
    rcases hbytes : host.readAll file v with ⟨fault | bytes, v'⟩
    all_goals
      rw [hbytes] at hread
      dsimp only
      rw [bind_assoc, play_bind_of_ok hread]
    · exact hmachine
    · refine hnext bytes (hsaves w file v bytes hfile ?_) machine v' hmachine
      rw [hbytes]

variable (hmax : CallStack.maxFrames ≤ limit)

include hmax

/-- Work that is withstood keeps the limit. -/
theorem Withstood.keepsLimit {work : Play (StateM W) α} (h : Withstood work) :
    KeepsLimit limit host work :=
  fun machine w hmachine => hmachine.withstands hmax (h host machine w)

/-- Going back to a snapshot within the limit keeps it. -/
theorem keepsLimit_applySnapshot {bytes : List UInt8} (hbytes : Snapshot.HoldsAtMost limit bytes) :
    KeepsLimit limit host (applySnapshot bytes : Play (StateM W) Unit) := by
  intro machine w hmachine
  rcases hplay : machine.play host (applySnapshot bytes) w with ⟨⟨outcome, after⟩, v⟩
  obtain ⟨hundo, hsame | ⟨restored, hparse, hendures⟩⟩ :=
    play_applySnapshot_stack host machine w bytes hplay
  · exact ⟨hsame ▸ hmachine.depth_le, hsame ▸ hmachine.covered, hundo ▸ hmachine.undo_le⟩
  · exact hmachine.of_endures hmax (hbytes machine.memory restored hparse)
      (Snapshot.accepted_of_parse hparse).storable.covered hendures hundo

/-- Restoring bytes within the limit keeps it. -/
theorem keepsLimit_restoreBytes {bytes : List UInt8} (hbytes : Snapshot.HoldsAtMost limit bytes) :
    KeepsLimit limit host (restoreBytes bytes : Play (StateM W) Unit) :=
  (keepsLimit_applySnapshot hmax hbytes).bind fun _ =>
    keepsLimit_modify fun _ h => ⟨h.depth_le, h.covered, h.undo_le⟩

/-- Undoing keeps the limit: the generations are within it. -/
theorem keepsLimit_undo : KeepsLimit limit host (undo : Play (StateM W) Unit) := by
  intro machine w hmachine
  cases hpop : machine.undo.pop? with
  | none =>
      unfold undo
      rw [play_bind_of_ok (play_get machine host w), hpop]
      exact hmachine
  | some pair =>
      obtain ⟨snapshot, ring⟩ := pair
      have hgenerations := generations_of_pop? hpop
      have hsnapshot : Snapshot.HoldsAtMost limit snapshot :=
        hmachine.undo_le snapshot (hgenerations ▸ List.mem_cons_self)
      have htaken : Limited limit { machine with undo := ring } :=
        ⟨hmachine.depth_le, hmachine.covered, fun other hother =>
          hmachine.undo_le other (hgenerations ▸ List.mem_cons_of_mem _ hother)⟩
      have hput (fault : Fault) : KeepsLimit limit host (do
          modify fun machine => { machine with undo := machine.undo.unpop snapshot }
          throw fault : Play (StateM W) Unit) := by
        refine (keepsLimit_modify fun machine h => ?_).bind fun _ => (reads_throw fault).keepsLimit
        refine ⟨h.depth_le, h.covered, fun other hother => ?_⟩
        rcases List.mem_cons.mp hother with rfl | hother
        · exact hsnapshot
        · exact h.undo_le other hother
      rw [play_undo host w hpop]
      have happly : KeepsLimit limit host (applySnapshot snapshot) :=
        keepsLimit_applySnapshot hmax hsnapshot
      refine (happly.tryCatch hput).bind (fun _ => ?_) { machine with undo := ring } w htaken
      exact keepsLimit_modify fun _ h => ⟨h.depth_le, h.covered, h.undo_le⟩

/-- Starting again keeps the limit. -/
theorem keepsLimit_restart : KeepsLimit limit host (restart : Play (StateM W) Unit) := by
  intro machine w hmachine
  rcases hplay : machine.play host restart w with ⟨⟨outcome, after⟩, v⟩
  obtain ⟨hrun, ⟨-, hstack, -⟩ | ⟨-, -, hstorable, hdepth⟩⟩ := restarted_of_play hplay
  · exact ⟨hstack ▸ hmachine.depth_le, hstack ▸ hmachine.covered, hrun.undo_eq ▸ hmachine.undo_le⟩
  · have htwo : 2 ≤ CallStack.maxFrames := by decide
    exact ⟨Nat.le_trans hdepth (Nat.le_trans htwo hmax), hstorable.covered,
      hrun.undo_eq ▸ hmachine.undo_le⟩

/-- A generation of the machine's own holds as many frames as the machine has. -/
theorem keepsLimit_saveUndo (hlimit : limit ≤ 0x4000000) (instruction : Instruction) :
    KeepsLimit limit host (saveUndo instruction : Play (StateM W) Unit) := by
  intro machine w hmachine
  obtain ⟨v, hstore⟩ := play_saveUndo host machine w instruction
  rw [hstore]
  refine (withstood_of_quiet (quiet_store instruction _)).keepsLimit hmax _ v
    ⟨hmachine.depth_le, hmachine.covered, fun other hother => ?_⟩
  rcases mem_generations_of_push hother with rfl | hother
  · exact Snapshot.holdsAtMost_capture _ _ hmachine.covered hmachine.depth_le hlimit
  · exact hmachine.undo_le other hother

/-- What an instruction tries that is to go back keeps the limit of the host's files. -/
theorem keepsLimit_attempt (hsaves : host.SavesAtMost limit) {work : Play (StateM W) Unit}
    {opcode : Opcode} {operands : List Word} (h : attempt? opcode operands = some work) :
    KeepsLimit limit host work := by
  unfold attempt? at h
  split at h
  · split at h
    · exact nomatch h
    · obtain rfl := Option.some.inj h
      exact keepsLimit_file hsaves fun _ hbytes => keepsLimit_applySnapshot hmax hbytes
  · obtain rfl := Option.some.inj h
    exact keepsLimit_undo hmax
  · exact nomatch h

/-- **Carrying out an instruction keeps the limit**, undo generations included. -/
theorem keepsLimit_carryOut (hlimit : limit ≤ 0x4000000) (hsaves : host.SavesAtMost limit)
    (instruction : Instruction) (operands : List Word) :
    KeepsLimit limit host (carryOut instruction operands : Play (StateM W) Unit) := by
  intro machine w hmachine
  rcases @carryOut_cases W instruction operands with
    hends | hrestart | ⟨-, hkeep⟩ | ⟨work, otherwise, warning, hattempt, hotherwise, hback⟩
  · exact (withstood_of_ends hends).keepsLimit hmax machine w hmachine
  · rw [hrestart]
    exact keepsLimit_restart hmax machine w hmachine
  · rw [hkeep]
    exact keepsLimit_saveUndo hmax hlimit instruction machine w hmachine
  · rw [hback]
    refine KeepsLimit.tryCatch (keepsLimit_attempt hmax hsaves hattempt) (fun fault => ?_)
      machine w hmachine
    split
    · exact (reads_throw fault).keepsLimit
    · exact (reads_note _).keepsLimit.bind fun _ =>
        (withstood_of_ends hotherwise).keepsLimit hmax

/-- **Every step keeps the limit**, if the save files of the host do. -/
theorem keepsLimit_step (hlimit : limit ≤ 0x4000000) (hsaves : host.SavesAtMost limit) :
    KeepsLimit limit host (step : Play (StateM W) Unit) := by
  intro machine w hmachine
  cases hresume : machine.resume with
  | some read =>
      obtain ⟨pending, value⟩ := read
      rw [play_step_of_resume hresume]
      exact (withstood_of_quiet (answers_resumeRead value pending).quiet).keepsLimit hmax _ w
        ⟨hmachine.depth_le, hmachine.covered, hmachine.undo_le⟩
  | none =>
      rw [play_step_of_fetch hresume]
      exact KeepsLimit.bind (withstood_fetch.keepsLimit hmax)
        (fun fetched => keepsLimit_carryOut hmax hlimit hsaves fetched.1 fetched.2) machine w
        hmachine

end

end Play

/-! ## What can be reached -/

namespace Machine

open Play

/-- A call to go back that brings no more frames from outside than the given number. -/
def Recall.BringsAtMost (limit : Nat) (host : Host (StateM W)) : Recall → Prop
  | .file => host.SavesAtMost limit
  | .bytes snapshot => Snapshot.HoldsAtMost limit snapshot
  | .undo => True

/-- The machines that can be reached from an image by calls that go well or fail, where no
snapshot that comes from outside holds more frames than the given number. -/
inductive ReachedWithin (limit : Nat) (image : Array UInt8) : Machine → Prop
  | create {W : Type} {host : Host (StateM W)} {options : Options} {w w' : W} {machine : Machine}
      (h : create host image options w = (.ok machine, w')) : ReachedWithin limit image machine
  | execute {W : Type} {host : Host (StateM W)} {cycles : Nat} {w w' : W} {machine after : Machine}
      {event : Event} (hreach : ReachedWithin limit image machine)
      (hsaves : host.SavesAtMost limit)
      (h : machine.execute host cycles w = ((event, after), w')) : ReachedWithin limit image after
  | restart {W : Type} {host : Host (StateM W)} {w w' : W} {machine after : Machine}
      {outcome : Except Fault Unit} (hreach : ReachedWithin limit image machine)
      (h : machine.play host restart w = ((outcome, after), w')) : ReachedWithin limit image after
  | sendBack {W : Type} {host : Host (StateM W)} {w w' : W} {machine after : Machine}
      {outcome : Except Fault Unit} (how : Recall) (hreach : ReachedWithin limit image machine)
      (hbrings : how.BringsAtMost limit host)
      (h : machine.play host how.work w = ((outcome, after), w')) : ReachedWithin limit image after

variable {limit bound : Nat} {image : Array UInt8} {machine : Machine}

/-- A call to go back keeps the limit if what it brings is within it. -/
theorem keepsLimit_recall {host : Host (StateM W)} {how : Recall}
    (hmax : CallStack.maxFrames ≤ limit) (hle : bound ≤ limit)
    (hbrings : how.BringsAtMost bound host) :
    KeepsLimit limit host (how.work : Play (StateM W) Unit) := by
  cases how with
  | file =>
      exact keepsLimit_file (Host.SavesAtMost.mono hbrings hle) fun _ hbytes =>
        keepsLimit_restoreBytes hmax hbytes
  | bytes snapshot => exact keepsLimit_restoreBytes hmax (Snapshot.HoldsAtMost.mono hbrings hle)
  | undo => exact keepsLimit_undo hmax

/-- A machine that was just created has one frame, in version 6 two. -/
theorem depth_of_create {host : Host (StateM W)} {options : Options} {w w' : W}
    (h : create host image options w = (.ok machine, w')) : machine.stack.depth ≤ 2 := by
  obtain ⟨_, draft, codec, _, seed, v, v', -, -, -, hplay⟩ := started_of_create h
  obtain ⟨outcome, pc, stack, hstart, -, hdepth⟩ :=
    play_start host (assemble draft.memory codec options (host.info w).1 seed) v
  rw [hstart] at hplay
  cases hplay
  exact hdepth

/-- **Calls or snapshots limit the frames**, whichever allow more of them. -/
theorem limited_of_reachedWithin (hbound : bound ≤ 0x4000000)
    (h : ReachedWithin bound image machine) : machine.Limited (max CallStack.maxFrames bound) := by
  have hmax : CallStack.maxFrames ≤ max CallStack.maxFrames bound := Nat.le_max_left _ _
  have hle : bound ≤ max CallStack.maxFrames bound := Nat.le_max_right _ _
  have hlimit : max CallStack.maxFrames bound ≤ 0x4000000 := Nat.max_le.mpr ⟨by decide, hbound⟩
  induction h with
  | create h =>
      have hcreated := created_of_create h
      have htwo : 2 ≤ CallStack.maxFrames := by decide
      refine ⟨Nat.le_trans (depth_of_create h) (Nat.le_trans htwo hmax),
        hcreated.storable.covered, fun snapshot hsnapshot => ?_⟩
      rw [hcreated.undo_eq] at hsnapshot
      exact nomatch hsnapshot
  | execute hreach hsaves h ih =>
      refine execute_induction (fun machine after outcome w w' _ hmachine hplay => ?_) ih h
      have hafter := keepsLimit_step hmax hlimit (hsaves.mono hle) machine w hmachine
      rw [hplay] at hafter
      cases outcome with
      | ok _ => exact hafter
      | error fault => exact ⟨hafter.depth_le, hafter.covered, hafter.undo_le⟩
  | @restart _ host w _ machine _ _ hreach h ih =>
      have hafter := @keepsLimit_restart _ _ host hmax machine w ih
      rwa [h] at hafter
  | @sendBack _ host w _ machine _ _ how hreach hbrings h ih =>
      have hafter := keepsLimit_recall hmax hle hbrings machine w ih
      rwa [h] at hafter

/-! ## As many frames as a snapshot has -/

/-- A story whose first instruction quits.  The byte behind it, as a store variable, is the first
global variable. -/
def crowdStory : Array UInt8 := storyOf [0xba, 16]

/-- The machine of that story. -/
def lonely : Machine := ((create deaf crowdStory {} ()).1.toOption).get rfl

/-- A stack of frames that own nothing, one more than the given number. -/
def crowd (n : Nat) : CallStack where
  callers := List.replicate n {}

/-- A snapshot has room for a crowd. -/
theorem storable_crowd (n : Nat) : (crowd n).Storable := by
  have hplain : ({} : Frame).Storable := ⟨by decide, by decide, by decide⟩
  have howned : CallStack.owned (List.replicate n {}) = 0 := by
    induction n with
    | zero => rfl
    | succ n ih => rw [List.replicate_succ, CallStack.owned_cons, ih]
  refine ⟨?_, Nat.zero_le _, fun frame hframe => ?_⟩
  · rw [CallStack.owned_frames]
    exact (Nat.zero_add _).trans howned
  · rcases CallStack.mem_frames.mp hframe with rfl | hframe
    · exact hplain
    · rw [List.eq_of_mem_replicate hframe]
      exact hplain

/-- A machine with these frames, right behind an ending at an address. -/
def crowded (machine : Machine) (n result : Nat) : Machine :=
  { machine with stack := crowd n, pc := result + 1 }

/-- A crowd has one frame more than its number. -/
theorem depth_crowd (n : Nat) : (crowd n).depth = n + 1 :=
  congrArg Nat.succ List.length_replicate

/-- A snapshot of all these frames. -/
def crowdSnapshot (machine : Machine) (n result : Nat) : List UInt8 :=
  Snapshot.capture machine.memory (crowd n) result false none

section

variable {result n : Nat} {target : UInt8}

/-- Frames are no obstacle to going back where a result goes to a global variable. -/
theorem saving_crowded (hsize : machine.memory.size < 0x1000000)
    (hread : Ending.read machine.memory result = .ok (.store target, 1)) (htarget : 16 ≤ target)
    (hglobal : globalAddress machine target + 1 < machine.memory.dynamicCeiling)
    (hresult : 64 ≤ result) (habsent : machine.memory.extension = .absent)
    (hapart : machine.memory.headerWord .extensionTable = 0) :
    (machine.crowded n result).Saving result (.store target) 1 := by
  have hcan : (machine.crowded n result).CanAssign target := by
    unfold CanAssign
    rw [if_neg (by rintro rfl; exact absurd htarget (by decide)),
      if_neg (UInt8.not_lt.mpr htarget)]
    exact hglobal
  refine ⟨hsize, storable_crowd n, fun frame hframe => ?_, hread, rfl, hcan,
    .inr (.inl hapart), fun i hle _ => ⟨by omega, ?_⟩⟩
  · rcases CallStack.mem_frames.mp hframe with rfl | hframe
    · rfl
    · rw [List.eq_of_mem_replicate hframe]
  · rintro ⟨start, words, htable, -⟩
    exact nomatch habsent.symm.trans htable

/-- A result that goes to a global variable leaves the stack alone. -/
theorem stack_assign (htarget : 16 ≤ target) (value : Word) :
    (machine.assign target value).stack = machine.stack := by
  unfold assign
  rw [if_neg (by rintro rfl; exact absurd htarget (by decide)),
    if_neg (UInt8.not_lt.mpr htarget)]
  split <;> rfl

/-- **A snapshot brings all its frames**, however many they are. -/
theorem play_restoreBytes_crowd (host : Host (StateM W)) (w : W)
    (hsaving : (machine.crowded n result).Saving result (.store target) 1)
    (htarget : 16 ≤ target) (hroom : n + 1 ≤ 0x4000000)
    (hsetUp : ((Header.setUp machine.info machine.options).run machine.memory).1 = .ok ()) :
    ∃ after w', machine.play host (restoreBytes (machine.crowdSnapshot n result)) w
        = ((.ok (), after), w') ∧ after.stack = crowd n := by
  have hlength := Snapshot.length_capture_lt machine.memory result false
    (storable_crowd n).covered (depth_crowd n ▸ hroom)
  obtain ⟨w', happly⟩ := @play_applySnapshot_capture W (machine.crowded n result) machine _ _ _ _
    host w hsaving ⟨rfl, rfl⟩ rfl ⟨_, Prod.ext hsetUp rfl, rfl⟩ false none hlength
  refine ⟨_, w', play_bind_of_ok happly, ?_⟩
  show (resumed machine _ (machine.crowded n result) (.store target)).stack = crowd n
  rw [resumed, conclude, stack_assign htarget]
  rfl

end

/-- The story of `lonely` can be gone back to with any frames. -/
theorem saving_lonely (n : Nat) : (lonely.crowded n 73).Saving 73 (.store 16) 1 :=
  saving_crowded (by decide +kernel) (by decide +kernel) (by decide) (by decide +kernel)
    (by decide) (by decide +kernel) (by decide +kernel)

/-- The header of that story can be set up again. -/
theorem setUp_lonely :
    ((Header.setUp lonely.info lonely.options).run lonely.memory).1 = .ok () := by
  decide +kernel

/-- There is a story with as many frames as its snapshots may bring. -/
theorem exists_reachedWithin {n : Nat} (hn : n + 1 ≤ bound) (hroom : n + 1 ≤ 0x4000000) :
    ∃ machine, ReachedWithin bound crowdStory machine ∧ machine.stack.depth = n + 1 := by
  have hlonely : ReachedWithin bound crowdStory lonely :=
    @ReachedWithin.create bound crowdStory Unit deaf {} () () lonely rfl
  have hholds : Snapshot.HoldsAtMost (n + 1) (lonely.crowdSnapshot n 73) :=
    Snapshot.holdsAtMost_capture 73 false (storable_crowd n).covered
      (Nat.le_of_eq (depth_crowd n)) hroom
  obtain ⟨after, _, hrestore, hstack⟩ :=
    play_restoreBytes_crowd deaf () (saving_lonely n) (by decide) hroom setUp_lonely
  refine ⟨after, hlonely.sendBack (.bytes _) (hholds.mono hn) hrestore, ?_⟩
  rw [hstack, depth_crowd]

end Machine

/-! ## Catching and throwing -/

namespace CallStack

/-- The word that `catch` delivers. -/
def caught (stack : CallStack) : Word := stack.depth.toUInt16

/-- The word leads back to the frame that was current when it was caught: from any stack that
still has this frame, whatever its locals and words are now and whatever is on top of it. -/
def CatchLeadsBack (stack : CallStack) : Prop :=
  ∀ (newer : List Frame) (now later : CallStack), now.callers = stack.callers →
    now.Atop newer later → later.run (unwind stack.caught.toNat) = (.ok (), now)

/-- The word leads back as long as it counts the frames. -/
theorem catchLeadsBack_iff (stack : CallStack) : stack.CatchLeadsBack ↔ stack.depth < 0x10000 := by
  have hcaught : stack.caught.toNat = stack.depth % 0x10000 := by simp [caught]
  constructor
  · intro h
    obtain ⟨-, -, hdepth⟩ := depth_of_run_unwind (h [] stack stack rfl (atop_self stack))
    omega
  · intro hfits newer now later hcallers hatop
    have hsame : now.depth = stack.depth := by simp only [depth, hcallers]
    rw [hcaught, Nat.mod_eq_of_lt hfits, ← hsame]
    exact hatop.unwind

end CallStack

namespace Machine

open Play

/-- The instruction stores the word that is caught. -/
theorem play_perform_catch {instruction : Instruction} (h : instruction.opcode = .catchFrame)
    (host : Host (StateM W)) (machine : Machine) (w : W) (operands : List Word) :
    machine.play host (perform instruction operands) w
      = machine.play host (store instruction machine.stack.caught) w := by
  rw [perform, play_bind_of_ok (play_get machine host w), h]
  exact play_bind_of_ok (play_get machine host w)

/-- The instruction unwinds the stack to the frame and returns from it. -/
theorem play_perform_throw {instruction : Instruction} (h : instruction.opcode = .throwFrame)
    (host : Host (StateM W)) (machine : Machine) (w : W) (value frame : Word) :
    machine.play host (perform instruction [value, frame]) w
      = machine.play host (do
        onStack (CallStack.unwind frame.toNat)
        ret value) w := by
  rw [perform, play_bind_of_ok (play_get machine host w), h]
  rfl

/-- **Only what comes from outside can exceed the limit of frames.**  Take all machines that can
be reached from some image by calls that go well or fail, the host's save files and the bytes
handed in being snapshots of at most so many frames.  They all have at most `maxFrames` frames if
and only if these snapshots have no more.  Nobody counts the frames of a snapshot, and the word
that `catch` delivers holds the depth modulo 2^16: in all these machines it leads a later `throw`
back to its frame if and only if the snapshots have fewer than 2^16 frames. -/
theorem frames_limited_iff (limit : Nat) :
    ((∀ image machine, ReachedWithin limit image machine →
        machine.stack.depth ≤ CallStack.maxFrames) ↔ limit ≤ CallStack.maxFrames) ∧
      ((∀ image machine, ReachedWithin limit image machine → machine.stack.CatchLeadsBack)
        ↔ limit < 0x10000) ∧
      (∀ (instruction : Instruction) (host : Host (StateM W)) (machine : Machine) (w : W),
        (∀ operands, instruction.opcode = .catchFrame →
          machine.play host (perform instruction operands) w
            = machine.play host (store instruction machine.stack.caught) w) ∧
        ∀ value frame, instruction.opcode = .throwFrame →
          machine.play host (perform instruction [value, frame]) w
            = machine.play host (do onStack (CallStack.unwind frame.toNat); ret value) w) := by
  have hmax : CallStack.maxFrames = 1024 := rfl
  have hdepth (hlimit : limit ≤ 0x4000000) {image : Array UInt8} {machine : Machine}
      (h : ReachedWithin limit image machine) : machine.stack.depth ≤ max 1024 limit :=
    (limited_of_reachedWithin hlimit h).depth_le
  refine ⟨⟨fun hall => ?_, fun hle image machine h => ?_⟩,
    ⟨fun hall => ?_, fun hlt image machine h => ?_⟩, fun instruction host machine w =>
      ⟨fun operands h => play_perform_catch h host machine w operands,
        fun value frame h => play_perform_throw h host machine w value frame⟩⟩
  · refine Nat.not_lt.mp fun hmore => ?_
    obtain ⟨machine, hreached, hcount⟩ := @exists_reachedWithin limit 1024 (by omega) (by decide)
    have hfew := hall _ machine hreached
    omega
  · have hfew := hdepth (by omega) h
    omega
  · refine Nat.not_le.mp fun hmore => ?_
    obtain ⟨machine, hreached, hcount⟩ := @exists_reachedWithin limit 0xffff (by omega) (by decide)
    have hfits := machine.stack.catchLeadsBack_iff.mp (hall _ machine hreached)
    omega
  · refine machine.stack.catchLeadsBack_iff.mpr ?_
    have hfew := hdepth (by omega) h
    omega

end Machine

end StoryMachine
