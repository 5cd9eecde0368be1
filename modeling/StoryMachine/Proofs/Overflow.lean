import StoryMachine.Proofs.CheckedDispatch
import StoryMachine.Proofs.SetUpOutcome

/-!
# Arithmetic that could overflow

A step of the machine, done once more by the program that checks its arithmetic
(`CheckedPlay.step`): it decodes the instruction, takes the values of its operands and carries
it out, with every sum, product and difference in its range and every position in its list, or
it has no outcome at all.

What carries the argument is the room that a machine has (`Machine.Roomy`).  A machine is
created with room, every step leaves room and so does going back (`roomy_of_reached`), except
that a stream into memory may get two bytes further in a call that ends in a fault.  So the
number of calls has to be bounded for anything to be said: a stream that was driven two bytes
further 2^62 times would be at the end of its range.

`overflow_only_in_select` says that the one thing left is a negation, of the lowest number for
an output stream: there the program has no outcome, and everywhere else it has the outcome of
the machine.
-/

namespace StoryMachine

open Checked

variable {W : Type}

namespace CheckedPlay

/-- Decodes the next instruction and takes the values of its operands. -/
def fetch : CheckedPlay W (Instruction × List Word) := do
  let machine ← get
  CheckedHosted.whole (set { machine with current := machine.pc })
  let instruction ← CheckedHosted.compute (Instruction.decodeAt machine.memory machine.pc)
  ask (·.trace instruction)
  setPc instruction.next
  let operands ← operandValues instruction.operands
  return (instruction, operands)

/-- Carries out an instruction that was fetched. -/
def carryOut (instruction : Instruction) (operands : List Word) : CheckedPlay W Unit :=
  if instruction.count = .op2 ∧ operands.length < 2 then
    throw { kind := .badOperands,
            detail := s!"{instruction.opcode.title} WITH {operands.length} OPERANDS" }
  else perform instruction operands

/-- Executes one instruction, or goes on with a read whose routine has returned. -/
def step : CheckedPlay W Unit := do
  let machine ← get
  match machine.resume with
  | some (pending, value) =>
    CheckedHosted.whole (set { machine with resume := none })
    resumeRead value pending
  | none =>
    let (instruction, operands) ← fetch
    carryOut instruction operands

section

variable {b cost : Nat}

/-- A machine that is put in the place of another has to be roomy as well. -/
theorem accompanies_set {machine : Machine} (hroomy : machine.Roomy b) :
    Accompanies (Machine.upkeep b cost)
      (CheckedHosted.whole (set machine) : CheckedPlay W PUnit) (set machine) :=
  .whole fun _ _ _ _ => ⟨hroomy, trivial⟩

/-- An instruction that is fetched fits in memory. -/
theorem accompanies_fetch :
    Accompanies (Machine.upkeep b cost) (fetch : CheckedPlay W (Instruction × List Word)) Play.fetch
      fun taken => taken.1.Fits := by
  refine Accompanies.get.bind fun machine hroomy => ?_
  refine .bind (accompanies_set ?_) fun _ _ => ?_
  · exact { hroomy with }
  refine .bind (.compute (P := Instruction.Fits) (Instruction.decodeAt_eq hroomy.memory machine.pc)
    fun instruction hdecode => Instruction.fits_of_decode hroomy.memory hdecode)
      fun instruction hfits => ?_
  refine (accompanies_ask _).bind fun _ _ => (accompanies_setPc _).bind fun _ _ => ?_
  exact (accompanies_operandValues _).bind fun _ _ => .pure hfits

/-- An instruction of the two operand class is carried out with two operands at least. -/
theorem accompanies_carryOut (hlow : 0x10000 ≤ b) (hhigh : b < 2 ^ 63) {instruction : Instruction}
    (hfits : instruction.Fits) {operands : List Word}
    (hlowest : ¬Play.SelectsLowest instruction operands) :
    Accompanies (Machine.upkeep b 2) (carryOut instruction operands : CheckedPlay W Unit)
      (Play.carryOut instruction operands) := by
  refine .ite (fun _ => .throw _) fun hcount => ?_
  refine accompanies_perform hlow hhigh hfits (fun hje => ?_) hlowest
  rintro rfl
  exact hcount ⟨hfits.count hje, by decide⟩

variable {host : Host (StateM W)} {machine : Machine} {w : W}

/-- **The lowest number has no absolute value** in sixteen bits. -/
theorem on_selectOutput_lowest {operands : List Word} (h : Play.operandAt operands 0 = 0x8000) :
    (selectOutput operands).on host machine w = none := by
  rw [selectOutput, CheckedHosted.on_bind, h]
  rfl

/-- Carrying out the selection of the lowest stream has no outcome. -/
theorem on_carryOut_lowest {instruction : Instruction} {operands : List Word}
    (hcount : instruction.count ≠ .op2) (hlowest : Play.SelectsLowest instruction operands) :
    (carryOut instruction operands).on host machine w = none := by
  obtain ⟨hopcode, hoperand⟩ := hlowest
  rw [carryOut, if_neg fun hboth => hcount hboth.1, perform, CheckedHosted.on_bind, hopcode]
  exact on_selectOutput_lowest hoperand

/-- A step goes on with a read that has waited, or else fetches an instruction. -/
theorem on_step (host : Host (StateM W)) (machine : Machine) (w : W) :
    (step : CheckedPlay W Unit).on host machine w
      = CheckedHosted.on (match machine.resume with
          | some (pending, value) => do
            CheckedHosted.whole (set { machine with resume := none })
            resumeRead value pending
          | none => do
            let (instruction, operands) ← fetch
            carryOut instruction operands) host machine w :=
  CheckedHosted.on_bind _ _ host machine w

variable {b : Nat}

/-- Fetching always has the outcome of the machine. -/
theorem on_fetch (host : Host (StateM W)) (w : W) (hroomy : machine.Roomy b) :
    fetch.on host machine w = some (machine.play host Play.fetch w) ∧
      (Machine.upkeep b 2).Leaves (fun taken => taken.1.Fits) (machine.play host Play.fetch w).1 :=
  accompanies_fetch host machine w hroomy

/-- A step that breaks off has no outcome. -/
theorem on_step_of_breaksOff (hroomy : machine.Roomy b) (h : Play.BreaksOff host machine w) :
    step.on host machine w = none := by
  obtain ⟨hresume, instruction, operands, poised, v, hplay, hlowest⟩ := h
  have hcount := Instruction.count_ne_op2 (Play.fetched_of_play hplay).decode_eq
    (.inr (.inr hlowest.1))
  rw [on_step, hresume]
  dsimp only
  rw [CheckedHosted.on_bind, (on_fetch host w hroomy).1, hplay]
  exact on_carryOut_lowest hcount hlowest

/-- **A step of a roomy machine** has an outcome, which is that of the machine, unless it selects
the lowest output stream. -/
theorem on_step_of_not_breaksOff (hlow : 0x10000 ≤ b) (hhigh : b < 2 ^ 63)
    (hroomy : machine.Roomy b) (h : ¬Play.BreaksOff host machine w) :
    step.on host machine w = some (machine.play host Play.step w) ∧
      (Machine.upkeep b 2).Leaves (fun _ => True) (machine.play host Play.step w).1 := by
  rw [on_step]
  cases hresume : machine.resume with
  | some read =>
      obtain ⟨pending, value⟩ := read
      have hready : Machine.Roomy b { machine with resume := none } :=
        { hroomy with resume := fun _ _ h => nomatch h }
      have hread : Accompanies (Machine.upkeep b 2) (resumeRead value pending : CheckedPlay W Unit)
          (Play.resumeRead value pending) :=
        accompanies_resumeRead value (hroomy.resume pending value hresume)
      rw [Play.play_step_of_resume hresume]
      dsimp only
      rw [CheckedHosted.on_bind]
      exact hread host { machine with resume := none } w hready
  | none =>
      obtain ⟨hsame, hleaves⟩ := on_fetch host w hroomy
      rw [Play.play_step_of_fetch hresume, Machine.play_bind]
      dsimp only
      rw [CheckedHosted.on_bind, hsame]
      rcases hplay : machine.play host Play.fetch w with
        ⟨⟨fault | ⟨instruction, operands⟩, poised⟩, v⟩ <;> rw [hplay] at hleaves
      · exact ⟨rfl, hleaves⟩
      · have hlowest : ¬Play.SelectsLowest instruction operands := fun hlowest =>
          h ⟨hresume, instruction, operands, poised, v, hplay, hlowest⟩
        exact accompanies_carryOut hlow hhigh hleaves.2 hlowest host poised v hleaves.1

/-- A step leaves a roomy machine, whatever becomes of it. -/
theorem leaves_step (hlow : 0x10000 ≤ b) (hhigh : b < 2 ^ 63) (hroomy : machine.Roomy b) :
    (Machine.upkeep b 2).Leaves (fun _ => True) (machine.play host Play.step w).1 := by
  by_cases h : Play.BreaksOff host machine w
  · obtain ⟨hresume, instruction, operands, poised, v, hplay, hlowest⟩ := h
    have hleaves := (on_fetch host w hroomy).2
    rw [hplay] at hleaves
    rw [Play.play_step_of_selectsLowest hresume hplay hlowest]
    exact hleaves.1.mono (Nat.le_add_right b 2)
  · exact (on_step_of_not_breaksOff hlow hhigh hroomy h).2

end

end CheckedPlay

namespace Machine

open Play

variable {image : Array UInt8} {machine : Machine} {b n : Nat}

/-! ## Room in every state -/

/-- The machines that can be reached from an image by calls of which so many execute
instructions, with any hosts, whether the calls go well or fail. -/
inductive Reached (image : Array UInt8) : Nat → Machine → Prop
  | create {W : Type} {host : Host (StateM W)} {options : Options} {w w' : W} {machine : Machine}
      (h : create host image options w = (.ok machine, w')) : Reached image 0 machine
  | execute {W : Type} {host : Host (StateM W)} {cycles n : Nat} {w w' : W}
      {machine after : Machine} {event : Event} (hreach : Reached image n machine)
      (h : machine.execute host cycles w = ((event, after), w')) : Reached image (n + 1) after
  | restart {W : Type} {host : Host (StateM W)} {n : Nat} {w w' : W} {machine after : Machine}
      {outcome : Except Fault Unit} (hreach : Reached image n machine)
      (h : machine.play host restart w = ((outcome, after), w')) : Reached image n after
  | sendBack {W : Type} {host : Host (StateM W)} {n : Nat} {w w' : W} {machine after : Machine}
      {outcome : Except Fault Unit} (how : Recall) (hreach : Reached image n machine)
      (h : machine.play host how.work w = ((outcome, after), w')) : Reached image n after

/-- Every machine that can be reached is reached by some number of calls. -/
theorem reached_of_reachable {ruledOut : Fault → Prop} (h : Reachable image ruledOut machine) :
    ∃ n, Reached image n machine := by
  induction h with
  | create h => exact ⟨0, .create h⟩
  | execute _ h ih =>
      obtain ⟨n, hreach⟩ := ih
      exact ⟨n + 1, .execute hreach h⟩
  | restart _ h ih => exact ih.imp fun n hreach => .restart hreach h
  | sendBack how _ h _ ih => exact ih.imp fun n hreach => .sendBack how hreach h

section

variable {W : Type} {host : Host (StateM W)} {w w' : W}

/-- A table of extra characters has at most 97 of them. -/
theorem extras_le_of_load {bytes : Array UInt8} {address : Nat} {table : UnicodeTable}
    (h : UnicodeTable.load bytes address = .ok table) : table.extras.size ≤ 97 := by
  unfold UnicodeTable.load at h
  split at h
  · exact nomatch h
  case h_2 count _ =>
    split at h
    case isTrue => exact nomatch h
    case isFalse hcount =>
      obtain ⟨entries, hentries, h⟩ := bind_eq_ok.mp h
      obtain rfl := Except.ok.inj h
      have hlength := (mapM_eq_ok hentries).1
      rw [List.length_range] at hlength
      have hle : count.toNat ≤ 97 := UInt8.le_iff_toNat_le.mp (UInt8.not_lt.mp hcount)
      show entries.length ≤ 97
      omega

/-- What it takes to read text leaves room. -/
theorem roomy_of_loadCodec {draft draft' : Draft} {codec : Codec}
    (h : Work.on loadCodec draft = (.ok codec, draft')) :
    codec.abbreviations < 0x10000 ∧ codec.unicode.extras.size ≤ 97 := by
  have hfirst : (Work.on loadCodec draft).1 = .ok codec := congrArg Prod.fst h
  rw [loadCodec_eq] at hfirst
  obtain ⟨alphabet, -, hfirst⟩ := bind_eq_ok.mp hfirst
  have hcodec : (unicodeOf draft.memory).map _ = .ok codec := hfirst
  cases hunicode : unicodeOf draft.memory with
  | error fault =>
      rw [hunicode] at hcodec
      exact nomatch hcodec
  | ok unicode =>
      rw [hunicode] at hcodec
      obtain rfl := Except.ok.inj hcodec
      refine ⟨UInt16.toNat_lt _, ?_⟩
      unfold unicodeOf at hunicode
      dsimp only at hunicode
      split at hunicode
      · obtain rfl := Except.ok.inj hunicode
        simp [UnicodeTable.standard]
      · exact extras_le_of_load hunicode

/-- Work that prints nothing leaves a machine as roomy as it was, also if it fails. -/
theorem roomy_of_play {α : Type} {checked : CheckedPlay W α} {work : Play (StateM W) α}
    {outcome : Except Fault α} {after : Machine}
    (h : Accompanies (Machine.upkeep b 0) checked work) (hroomy : machine.Roomy b)
    (hplay : machine.play host work w = ((outcome, after), w')) : after.Roomy b := by
  have hleaves := (h host machine w hroomy).2
  change (Machine.upkeep b 0).Leaves _ (machine.play host work w).1 at hleaves
  rw [hplay] at hleaves
  cases outcome with
  | ok a => exact hleaves.1
  | error fault => exact hleaves

/-- A machine is created with room. -/
theorem roomy_of_create {options : Options} (hroom : image.size + 0x8000 ≤ 2 ^ 63)
    (h : create host image options w = (.ok machine, w')) : machine.Roomy 0x10000 := by
  obtain ⟨memory, draft, codec, draft', seed, v, v', hmemory, hsetUp, hload, hplay⟩ :=
    started_of_create h
  have haddressable : memory.Addressable := by
    unfold Memory.Addressable
    rw [size_ofImage hmemory]
    exact hroom
  have hdraft : draft.memory.Addressable := by
    have hstory := Header.story_setUp (host.info w).1 options memory
    rw [hsetUp] at hstory
    exact haddressable.congr hstory
  obtain ⟨habbreviations, hextras⟩ := roomy_of_loadCodec hload
  have hassembled : (assemble draft.memory codec options (host.info w).1 seed).Roomy 0x10000 :=
    { memory := hdraft
      objects := UInt16.toNat_lt _
      globals := UInt16.toNat_lt _
      abbreviations := habbreviations
      extras := hextras
      stack := CheckedPlay.steady_begin
      resume := fun _ _ h => nomatch h
      tables := fun _ h => nomatch h }
  exact roomy_of_play CheckedPlay.accompanies_start hassembled hplay

/-- A call that executes instructions drives a stream two bytes further at the most. -/
theorem roomy_of_execute (hlow : 0x10000 ≤ b) (hhigh : b < 2 ^ 63) {cycles : Nat} {event : Event}
    {after : Machine} (hroomy : machine.Roomy b)
    (h : machine.execute host cycles w = ((event, after), w')) : after.Roomy (b + 2) := by
  have hbetween := @execute_induction W host machine after w w'
    (fun machine => machine.Roomy (b + 2) ∧ (machine.halted = none → machine.Roomy b)) event cycles
    (fun machine after outcome w w' hgoing hkept hplay => ?_)
    ⟨hroomy.mono (Nat.le_add_right b 2), fun _ => hroomy⟩ h
  · exact hbetween.1
  · have hleaves := @CheckedPlay.leaves_step W host machine w b hlow hhigh (hkept.2 hgoing)
    rw [hplay] at hleaves
    cases outcome with
    | ok _ => exact ⟨hleaves.1.mono (Nat.le_add_right b 2), fun _ => hleaves.1⟩
    | error fault =>
        have hstopped : (stopped (.error fault) after).Roomy (b + 2) :=
          { (show after.Roomy (b + 2) from hleaves) with }
        exact ⟨hstopped, fun h => nomatch h⟩

end

/-- **Every machine that can be reached has room**, as long as there have been fewer than 2^62
calls. -/
theorem roomy_of_reached (hroom : image.size + 0x8000 ≤ 2 ^ 63) (h : Reached image n machine)
    (hcalls : 0x10000 + 2 * n < 2 ^ 63) : machine.Roomy (0x10000 + 2 * n) := by
  induction h with
  | create h => exact roomy_of_create hroom h
  | @execute _ _ _ n _ _ _ _ _ _ h ih =>
      have hcalls' : 0x10000 + 2 * n < 2 ^ 63 := by omega
      have hlow : 0x10000 ≤ 0x10000 + 2 * n := by omega
      exact roomy_of_execute hlow hcalls' (ih hcalls') h
  | restart _ h ih => exact roomy_of_play CheckedPlay.accompanies_restart (ih hcalls) h
  | sendBack how _ h ih =>
      cases how with
      | file => exact roomy_of_play CheckedPlay.accompanies_restore (ih hcalls) h
      | bytes snapshot =>
          exact roomy_of_play (CheckedPlay.accompanies_restoreBytes snapshot) (ih hcalls) h
      | undo => exact roomy_of_play CheckedPlay.accompanies_undo (ih hcalls) h

/-! ## What overflows -/

/-- **What overflows, and what does not.**  A step of a machine that was reached by any calls,
with any operands and any host, lacks an outcome if checked arithmetic is used for all of it
just where it selects the lowest output stream.  Every other step has the outcome of the
machine, and a fault in it is one that is reported. -/
theorem overflow_only_in_select {W : Type} (hroom : image.size + 0x8000 ≤ 2 ^ 63)
    (hreach : Reached image n machine) (hcalls : 0x10000 + 2 * n < 2 ^ 63)
    (host : Host (StateM W)) (w : W) :
    (CheckedPlay.step.on host machine w = none ↔ BreaksOff host machine w) ∧
    (BreaksOff host machine w →
      ∃ poised v, machine.play host step w = ((.error lowestFault, poised), v)) ∧
    (¬BreaksOff host machine w →
      CheckedPlay.step.on host machine w = some (machine.play host step w) ∧
        Reported (machine.play host step w).1.1) := by
  have hroomy := roomy_of_reached hroom hreach hcalls
  have hsame (h : ¬BreaksOff host machine w) :
      CheckedPlay.step.on host machine w = some (machine.play host step w) :=
    (CheckedPlay.on_step_of_not_breaksOff (Nat.le_add_right _ _) hcalls hroomy h).1
  refine ⟨⟨fun hnone => ?_, CheckedPlay.on_step_of_breaksOff hroomy⟩, play_step_of_breaksOff,
    fun h => ⟨hsame h, reported_step h⟩⟩
  by_contra h
  rw [hsame h] at hnone
  exact nomatch hnone

/-- A story that selects the lowest output stream. -/
def breaker : Machine :=
  ((create deaf (storyOf [0xf3, 0x3f, 0x80, 0x00]) {} ()).1.toOption).get rfl

/-- It breaks off. -/
theorem overflow_only_in_select_breaker : CheckedPlay.step.on deaf breaker () = none := by
  have hreach : Reached (storyOf [0xf3, 0x3f, 0x80, 0x00]) 0 breaker :=
    @Reached.create _ Unit deaf {} () () breaker rfl
  have hselects : (breaker.play deaf fetch ()).1.1.toOption.map
      (fun taken => (taken.1.opcode, taken.2)) = some (.outputStream, [0x8000]) := by
    decide +kernel
  obtain ⟨⟨instruction, operands⟩, htaken, hparts⟩ := Option.map_eq_some_iff.mp hselects
  obtain ⟨hopcode, rfl⟩ := Prod.mk.inj hparts
  exact (overflow_only_in_select (by decide +kernel) hreach (by decide) deaf ()).1.mpr
    ⟨by decide +kernel, instruction, _, _, _, play_eq_of_toOption htaken, hopcode, rfl⟩

end Machine

end StoryMachine
