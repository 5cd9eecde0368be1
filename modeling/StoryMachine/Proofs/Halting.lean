import StoryMachine.Proofs.InstructionFaults
import StoryMachine.Proofs.Reachability

/-!
# Halting, and failing without halting

There are two ways in which something can go wrong for a story.  A fatal fault halts
the machine, and from then on executing does nothing but say so again.  A file or an
undo generation that cannot be gone back to is no reason to halt: the instruction that
tried reports zero, and that is all that has become of it.

The first half is an invariant of all reachable machines: none is halted by a fault that
is not fatal (`haltsFatally_of_reachable`).  It holds because every fault of a step is
fatal and nothing but a failed step halts a machine with a fault.  The second half is a
law of one step (`play_step_of_failure`).  `error_severity` puts the two together.
-/

namespace StoryMachine

variable {W : Type}

namespace Machine

open Play

/-- A machine that is not halted by a fault, unless by a fatal one. -/
def HaltsFatally (machine : Machine) : Prop :=
  ∀ fault, machine.halted = some (.error fault) → fault.isFatal = true

/-- No move of an instruction halts the machine. -/
theorem Move.halted_eq {machine after : Machine} (h : machine.Move after) :
    after.halted = machine.halted := by
  cases h <;> rfl

/-- Nor do moves one after another. -/
theorem Moves.halted_eq {machine after : Machine} (h : machine.Moves after) :
    after.halted = machine.halted := by
  induction h with
  | refl => rfl
  | tail _ hmove ih => exact hmove.halted_eq.trans ih

/-- An instruction halts the machine only by quitting. -/
theorem Finishes.haltsFatally {machine after : Machine} (h : machine.Finishes after)
    (hmachine : machine.HaltsFatally) : after.HaltsFatally := by
  obtain ⟨middle, hmoves, hlast⟩ := h
  have hmiddle : middle.HaltsFatally := fun fault hfault =>
    hmachine fault (hmoves.halted_eq.symm.trans hfault)
  cases hlast with
  | quit => exact fun fault hfault => nomatch hfault
  | _ => exact hmiddle

section

variable {host : Host (StateM W)} {machine after : Machine} {w w' : W}
  {outcome : Except Fault Unit}

/-- A restart halts the machine no other way. -/
theorem haltsFatally_of_restarted (h : Restarted machine outcome after)
    (hmachine : machine.HaltsFatally) : after.HaltsFatally := by
  intro fault hfault
  rcases h.started with ⟨-, -, -, -, hhalted⟩ | ⟨-, hhalted, -⟩
  · exact hmachine fault (hhalted.symm.trans hfault)
  · rw [hhalted] at hfault
    exact nomatch hfault

/-- Going back to a snapshot finishes the instruction that saved, and that may quit. -/
theorem haltsFatally_of_applySnapshot {bytes : List UInt8}
    (hplay : machine.play host (applySnapshot bytes) w = ((.ok (), after), w'))
    (hmachine : machine.HaltsFatally) : after.HaltsFatally := by
  cases hparse : Snapshot.parse bytes machine.memory with
  | error fault =>
      obtain ⟨v, hreject⟩ := play_applySnapshot_of_rejected host w hparse
      rw [hreject] at hplay
      exact nomatch hplay
  | ok restored =>
      obtain ⟨v, haccept⟩ := play_applySnapshot_of_accepted host w hparse
      rw [haccept] at hplay
      by_cases hresumable : machine.Resumable restored
      · obtain ⟨memory, ready, hmemory, hready, ending, length, hread, -⟩ := hresumable
        obtain ⟨v', hback⟩ := play_goBack_of_ready host v hmemory hready
        rw [hback, play_completeRestore_of_read host v' hread] at hplay
        have hfinishes := (ends_finish (restored.pc + length) ending host _ v').1 () after w' hplay
        exact hfinishes.haltsFatally hmachine
      · obtain ⟨fault, after', v', hfault, -⟩ := (play_goBack host v hparse).2 hresumable
        rw [hfault] at hplay
        exact nomatch hplay

/-- A machine that goes back as it was told to goes on. -/
theorem halted_of_recall {how : Recall}
    (hplay : machine.play host how.work w = ((.ok (), after), w')) : after.halted = none := by
  have hbytes {machine : Machine} {bytes : List UInt8} {w : W}
      (hplay : machine.play host (restoreBytes bytes) w = ((.ok (), after), w')) :
      after.halted = none := by
    obtain ⟨_, middle, v, -, hend⟩ := play_bind_ok hplay
    rw [play_modify] at hend
    cases hend
    rfl
  cases how with
  | bytes snapshot => exact hbytes hplay
  | file =>
      obtain ⟨_, _, _, -, hplay⟩ := play_bind_ok hplay
      obtain ⟨_, _, _, -, hplay⟩ := play_bind_ok hplay
      exact hbytes hplay
  | undo =>
      cases hpop : machine.undo.pop? with
      | none =>
          have hplay : machine.play host Play.undo w = ((.ok (), after), w') := hplay
          unfold Play.undo at hplay
          rw [play_bind_of_ok (play_get machine host w), hpop] at hplay
          exact nomatch hplay
      | some pair =>
          have hplay : machine.play host Play.undo w = ((.ok (), after), w') := hplay
          rw [play_undo host w hpop] at hplay
          obtain ⟨_, middle, v, -, hend⟩ := play_bind_ok hplay
          rw [play_modify] at hend
          cases hend
          rfl

/-- Going back halts the machine no other way. -/
theorem haltsFatally_of_recall {how : Recall}
    (hplay : machine.play host how.work w = ((outcome, after), w'))
    (hmachine : machine.HaltsFatally) : after.HaltsFatally := by
  cases outcome with
  | ok _ =>
      intro fault hfault
      rw [halted_of_recall hplay] at hfault
      exact nomatch hfault
  | error fault' =>
      obtain ⟨hfailed, -⟩ := reload_recall how hplay
      exact fun fault hfault => hmachine fault (hfailed.halted_eq.symm.trans hfault)

/-- An attempt to go back that goes well, within an instruction. -/
theorem haltsFatally_of_attempt {work : Play (StateM W) Unit} {opcode : Opcode}
    {operands : List Word} (hattempt : attempt? opcode operands = some work)
    (hplay : machine.play host work w = ((.ok (), after), w')) (hmachine : machine.HaltsFatally) :
    after.HaltsFatally := by
  unfold attempt? at hattempt
  split at hattempt
  · split at hattempt
    · cases hattempt
    · obtain rfl := Option.some.inj hattempt
      obtain ⟨read, v, hread, -⟩ := play_readFile host machine w .saveGame
      rw [reloadFile, play_bind_of_ok hread, play_bind, play_ofExcept] at hplay
      cases read with
      | error fault => cases hplay
      | ok bytes => exact haltsFatally_of_applySnapshot hplay hmachine
  · obtain rfl := Option.some.inj hattempt
    exact @haltsFatally_of_recall W host machine after w w' (.ok ()) .undo hplay hmachine
  · cases hattempt

/-- An instruction that goes well halts the machine no other way. -/
theorem haltsFatally_of_carryOut {instruction : Instruction} {operands : List Word}
    (hplay : machine.play host (carryOut instruction operands) w = ((.ok (), after), w'))
    (hmachine : machine.HaltsFatally) : after.HaltsFatally := by
  have hends {machine : Machine} {w : W} {work : Play (StateM W) Unit} (hwork : Ends work)
      (hplay : machine.play host work w = ((.ok (), after), w')) (h : machine.HaltsFatally) :
      after.HaltsFatally :=
    ((hwork host machine w).1 () after w' hplay).haltsFatally h
  rcases @carryOut_cases W instruction operands with
    hplain | hrestart | ⟨-, hkeep⟩ | ⟨work, otherwise, warning, hattempt, hotherwise, hback⟩
  · exact hends hplain hplay hmachine
  · rw [hrestart] at hplay
    exact haltsFatally_of_restarted (restarted_of_play hplay) hmachine
  · rw [hkeep] at hplay
    obtain ⟨v, hstore⟩ := play_saveUndo host machine w instruction
    rw [hstore] at hplay
    exact hends (quiet_store instruction _).ends hplay hmachine
  · rw [hback, reloadOr, play_tryCatch] at hplay
    rcases hwork : machine.play host work w with ⟨⟨fault | _, middle⟩, v⟩ <;>
      rw [hwork] at hplay
    · dsimp only at hplay
      cases hfatal : fault.isFatal with
      | true =>
          rw [hfatal] at hplay
          cases hplay
      | false =>
          obtain rfl := (reload_of_attempt hattempt hwork).2 hfatal
          rw [hfatal] at hplay
          exact hends ((reads_note _).quiet.ends_bind fun _ => hotherwise) hplay hmachine
    · cases hplay
      exact haltsFatally_of_attempt hattempt hwork hmachine

/-- **One step:** a fault that stops it is fatal, and what does not stop it halts the machine only
by quitting. -/
theorem haltsFatally_of_step (hplay : machine.play host step w = ((outcome, after), w'))
    (hmachine : machine.HaltsFatally) : (stopped outcome after).HaltsFatally := by
  cases outcome with
  | error fault =>
      intro other hother
      obtain rfl : fault.atPc after.current = other := Event.error.inj (Option.some.inj hother)
      have hfatal : fault.isFatal = true := isFatal_of_step hplay
      exact hfatal
  | ok _ =>
      cases hresume : machine.resume with
      | some read =>
          obtain ⟨pending, value⟩ := read
          rw [play_step_of_resume hresume] at hplay
          have hends := (@answers_resumeRead W value pending).quiet.ends
          exact ((hends host _ w).1 () after w' hplay).haltsFatally hmachine
      | none =>
          rw [play_step_of_fetch hresume] at hplay
          obtain ⟨⟨instruction, operands⟩, poised, v, hfetch, hplay⟩ := play_bind_ok hplay
          refine haltsFatally_of_carryOut hplay ?_
          rw [(fetched_of_play hfetch).poised_eq]
          exact hmachine

end

variable {image : Array UInt8} {ruledOut : Fault → Prop} {machine : Machine}

/-- **No reachable machine is halted by a fault that is not fatal.** -/
theorem haltsFatally_of_reachable (h : Reachable image ruledOut machine) :
    machine.HaltsFatally := by
  induction h with
  | @create _ _ _ _ _ _ h =>
      intro fault hfault
      rw [halted_of_create h] at hfault
      exact nomatch hfault
  | execute hreach h ih =>
      refine execute_induction (P := HaltsFatally) ?_ ih h
      intro machine after outcome w w' _ hmachine hplay
      exact haltsFatally_of_step hplay hmachine
  | restart hreach h ih => exact haltsFatally_of_restarted (restarted_of_play h) ih
  | sendBack how hreach h hfault ih => exact haltsFatally_of_recall h ih

/-- What executing says of a fault is what the machine is halted by. -/
theorem halted_of_execute {host : Host (StateM W)} {machine after : Machine} {cycles : Nat}
    {w w' : W} {fault : Fault}
    (h : machine.execute host cycles w = ((.error fault, after), w')) :
    after.halted = some (.error fault) := by
  induction cycles generalizing machine w with
  | zero =>
      unfold execute at h
      cases hhalted : machine.halted with
      | none =>
          rw [hhalted] at h
          exact nomatch h
      | some event =>
          rw [hhalted] at h
          cases h
          exact hhalted
  | succ cycles ih =>
      cases hhalted : machine.halted with
      | some event =>
          rw [execute_of_halted (cycles + 1) hhalted] at h
          cases h
          exact hhalted
      | none =>
          rcases hplay : machine.play host step w with ⟨⟨outcome, middle⟩, v⟩
          obtain ⟨v', hrest⟩ := execute_succ_of_play cycles hhalted hplay
          rw [hrest] at h
          exact ih h

end Machine

namespace Play

open Machine

/-! ## Failing without halting -/

/-- Fills a table from the auxiliary file of the host. -/
def loadTable (table length : Word) : Play (StateM W) Unit := do
  let bytes ← MonadExcept.ofExcept (← readFile .auxiliary)
  edit (Edit.writeBytes table.toNat (bytes.take length.toNat))

/-- What an instruction tries that is to get back something that was saved: a table, the game, or
an undo generation. -/
def undertaking? (opcode : Opcode) (operands : List Word) : Option (Play (StateM W) Unit) :=
  match opcode with
  | .restore =>
    some (if 2 ≤ operands.length then loadTable (operandAt operands 0) (operandAt operands 1)
      else reloadFile)
  | .restoreUndo => some undo
  | _ => none

/-- Only restoring and undoing get something back. -/
theorem opcode_of_undertaking {opcode : Opcode} {operands : List Word}
    {work : Play (StateM W) Unit} (h : undertaking? opcode operands = some work) :
    opcode = .restore ∨ opcode = .restoreUndo := by
  unfold undertaking? at h
  split at h
  · exact .inl rfl
  · exact .inr rfl
  · exact nomatch h

section

variable {host : Host (StateM W)} {machine poised middle : Machine} {w v v' : W} {fault : Fault}
  {instruction : Instruction} {operands : List Word} {work : Play (StateM W) Unit}

/-- There is a value for each operand. -/
theorem length_of_operandValues {list : List Operand} {values : List Word}
    (h : machine.play host (operandValues list) w = ((.ok values, middle), v)) :
    values.length = list.length := by
  induction list generalizing machine w values with
  | nil =>
      cases h
      rfl
  | cons operand rest ih =>
      obtain ⟨value, _, _, -, h⟩ := play_bind_ok h
      obtain ⟨others, _, _, hrest, h⟩ := play_bind_ok h
      cases h
      exact congrArg Nat.succ (ih hrest)

/-- Fetching takes as many values as the instruction has operands. -/
theorem length_of_fetch
    (h : machine.play host fetch w = ((.ok (instruction, operands), poised), v)) :
    operands.length = instruction.operands.length := by
  obtain ⟨_, _, _, -, h⟩ := play_bind_ok h
  obtain ⟨_, _, _, -, h⟩ := play_bind_ok h
  obtain ⟨decoded, _, _, -, h⟩ := play_bind_ok h
  obtain ⟨_, _, _, -, h⟩ := play_bind_ok h
  obtain ⟨_, _, _, -, h⟩ := play_bind_ok h
  obtain ⟨values, _, _, hvalues, h⟩ := play_bind_ok h
  cases h
  exact length_of_operandValues hvalues

/-- A table that is not filled for want of a file counts as filled with no bytes.  Whatever goes
wrong in writing the bytes is fatal. -/
theorem play_restoreAuxiliary_of_failure {table length : Word}
    (hfail : machine.play host (loadTable table length) w = ((.error fault, middle), v))
    (hfatal : fault.isFatal = false) :
    ∃ notice, machine.play host (restoreAuxiliary table length) w
      = ((.ok 0, machine), (host.note notice v).2) := by
  obtain ⟨read, v', hread, -⟩ := play_readFile host machine w .auxiliary
  rw [loadTable, play_bind_of_ok hread, play_bind, play_ofExcept] at hfail
  rw [restoreAuxiliary, play_bind_of_ok hread]
  cases read with
  | error fault' =>
      cases hfail
      exact ⟨_, rfl⟩
  | ok bytes =>
      dsimp only at hfail
      have hwrite : fault.kind.isReported = true :=
        reports_edit (Edit.reports_writeBytes table.toNat (bytes.take length.toNat)) host machine v'
          fault (congrArg (·.1.1) hfail)
      have hkind : fault.kind.isFatal = false := hfatal
      rw [FaultKind.isReported, hkind] at hwrite
      cases hwrite

/-- What is left to do after a failure that is not fatal, when the operands have been taken, is to
report it. -/
theorem play_perform_of_failure (hversion : 2 ≤ operands.length → instruction.store.isSome = true)
    (hundo : instruction.opcode = .restoreUndo → instruction.store.isSome = true)
    (hwork : undertaking? instruction.opcode operands = some work)
    (hfail : machine.play host work w = ((.error fault, middle), v))
    (hfatal : fault.isFatal = false) :
    ∃ notice, machine.play host (perform instruction operands) w
      = machine.play host (report instruction 0) (host.note notice v).2 := by
  have hstored (hsome : instruction.store.isSome = true) :
      (report instruction 0 : Play (StateM W) Unit) = store instruction 0 := if_pos hsome
  rw [perform, play_bind_of_ok (play_get machine host w)]
  unfold undertaking? at hwork
  dsimp only
  cases hopcode : instruction.opcode with
  | restore =>
      rw [hopcode] at hwork
      obtain rfl := Option.some.inj hwork
      by_cases htable : 2 ≤ operands.length
      · rw [if_pos htable] at hfail
        obtain ⟨notice, hload⟩ := play_restoreAuxiliary_of_failure hfail hfatal
        refine ⟨notice, ?_⟩
        simp only [if_pos htable]
        rw [play_bind_of_ok hload, hstored (hversion htable)]
      · rw [if_neg htable] at hfail
        have hsame := (reload_reloadFile hfail).2 hfatal
        rw [hsame] at hfail
        simp only [if_neg htable]
        exact ⟨_, play_reloadOr_of_harmless (fun fault => .warning s!"restore failed: {fault.message}")
          hfail hfatal⟩
  | restoreUndo =>
      rw [hopcode] at hwork
      obtain rfl := Option.some.inj hwork
      have hsame := (reload_undo hfail).2 hfatal
      rw [hsame] at hfail
      rw [hstored (hundo hopcode)]
      exact ⟨_, play_reloadOr_of_harmless (fun fault => .warning s!"undo failed: {fault.message}")
        hfail hfatal⟩
  | _ =>
      rw [hopcode] at hwork
      cases hwork

/-- A step from `machine` to `poised`, which is the machine with the operands of an instruction
taken, that ends with the report of a failure: from version 4 on with zero in the store variable,
before that with a test that is false. -/
structure TellsFailure (host : Host (StateM W)) (machine poised : Machine)
    (instruction : Instruction) (w v : W) : Prop where
  fetched : Fetched machine instruction poised
  stores : 4 ≤ machine.memory.version → ∃ target, instruction.store = some target ∧
    machine.play host step w = poised.play host (writeVariable target 0) v
  branches : machine.memory.version ≤ 3 → ∃ data, instruction.branch = some data ∧
    machine.play host step w = poised.play host (
      if data.condition = false then jump (data.target instruction.next) else pure ()) v

/-- **A failure that is not fatal** is reported, and nothing else has become of the instruction. -/
theorem play_step_of_failure (hresume : machine.resume = none)
    (hfetch : machine.play host fetch w = ((.ok (instruction, operands), poised), v))
    (hwork : undertaking? instruction.opcode operands = some work)
    (hfail : poised.play host work v = ((.error fault, middle), v'))
    (hfatal : fault.isFatal = false) :
    ∃ notice, TellsFailure host machine poised instruction w (host.note notice v').2 := by
  have hfetched := fetched_of_play hfetch
  have hdecode := hfetched.decode_eq
  have hopcode := opcode_of_undertaking hwork
  have hstores := Instruction.store_of_decode hdecode
  have hrestore (h : instruction.opcode = .restore) :
      instruction.store.isSome = decide (4 ≤ machine.memory.version) := by
    rw [hstores, h]
    rfl
  have hundo (h : instruction.opcode = .restoreUndo) : instruction.store.isSome = true := by
    rw [hstores, h]
    rfl
  have htable (h : 2 ≤ operands.length) : instruction.store.isSome = true := by
    rcases hopcode with hopcode | hopcode
    · rw [hrestore hopcode, decide_eq_true_iff]
      refine Classical.byContradiction fun hversion => ?_
      have hnone := Instruction.operands_of_restore hdecode hopcode (by omega)
      rw [length_of_fetch hfetch, hnone] at h
      exact absurd h (by decide)
    · exact hundo hopcode
  have hcount : instruction.count ≠ .op2 :=
    Instruction.count_ne_op2 hdecode (hopcode.imp_right .inl)
  obtain ⟨notice, hperform⟩ := play_perform_of_failure htable hundo hwork hfail hfatal
  have hstep : machine.play host step w
      = poised.play host (report instruction 0) (host.note notice v').2 := by
    rw [play_step_of_fetch hresume, play_bind_of_ok hfetch]
    show poised.play host (carryOut instruction operands) v = _
    rw [carryOut, if_neg fun hboth => hcount hboth.1, hperform]
  refine ⟨notice, hfetched, fun hversion => ?_, fun hversion => ?_⟩
  · have hsome : instruction.store.isSome = true := by
      rcases hopcode with hopcode | hopcode
      · rw [hrestore hopcode, decide_eq_true_iff]
        exact hversion
      · exact hundo hopcode
    obtain ⟨target, htarget⟩ := Option.isSome_iff_exists.mp hsome
    refine ⟨target, htarget, hstep.trans ?_⟩
    rw [report, if_pos hsome, store, htarget]
    rfl
  · have hopcode : instruction.opcode = .restore := by
      refine hopcode.resolve_right fun hopcode => ?_
      have hfive := Instruction.version_of_undo hdecode (.inr hopcode)
      omega
    have hnot : instruction.opcode.stores machine.memory.version = false := by
      rw [hopcode]
      exact decide_eq_false (by omega)
    obtain ⟨hnone, data, length, -, hdata, -⟩ := Instruction.branches_of_decode hdecode hnot
      (by rw [hopcode]; exact decide_eq_true hversion) (by rw [hopcode]; rfl)
    refine ⟨data, hdata, hstep.trans ?_⟩
    rw [report, hnone, branch, hdata]
    rfl

end

end Play

namespace Machine

open Play

variable {image : Array UInt8} {ruledOut : Fault → Prop} {machine : Machine}

/-- **Fatal faults halt, others do not.**  Where executing a reachable machine ends in a fault,
that is a fatal one, the machine is halted by it, and executing it any further, with whatever
host, says the same again, asks the host nothing and changes nothing.  Where an instruction that
is to get something back fails with a fault that is not fatal, the step ends exactly like one that
stores zero, or branches on false in version 3, once its operands are taken; the machine with the
operands taken differs from the one before in its place and its stack only. -/
theorem error_severity (hreach : Reachable image ruledOut machine) (host : Host (StateM W))
    (w : W) :
    (∀ cycles fault after w', machine.execute host cycles w = ((.error fault, after), w') →
      fault.isFatal = true ∧ after.halted = some (.error fault) ∧
        ∀ (V : Type) (other : Host (StateM V)) (more : Nat) (v : V),
          after.execute other more v = ((.error fault, after), v)) ∧
      ∀ instruction operands poised v work fault middle v', machine.resume = none →
        machine.play host fetch w = ((.ok (instruction, operands), poised), v) →
        undertaking? instruction.opcode operands = some work →
        poised.play host work v = ((.error fault, middle), v') → fault.isFatal = false →
        ∃ notice, TellsFailure host machine poised instruction w (host.note notice v').2 := by
  constructor
  · intro cycles fault after w' hexecute
    have hhalted := halted_of_execute hexecute
    have hafter : after.HaltsFatally := haltsFatally_of_reachable (.execute hreach hexecute)
    refine ⟨hafter fault hhalted, hhalted, ?_⟩
    intro V other more v
    exact execute_of_halted more hhalted
  · intro instruction operands poised v work fault middle v' hresume hfetch hwork hfail hfatal
    exact play_step_of_failure hresume hfetch hwork hfail hfatal

/-- A story that restores a game to a global variable, and then has no instruction. -/
def lost : Machine :=
  ((create deaf (storyOf [0xbe, 0x01, 0xff, 0x10, 0x00]) {} ()).1.toOption).get rfl

/-- The two failures of that story: there is no file to restore, which the story is told of and no
more; behind that there is no instruction, which halts it for good. -/
theorem error_severity_lost :
    (∃ instruction poised v, TellsFailure deaf lost poised instruction () v) ∧
      ∃ fault after, lost.execute deaf 2 () = ((.error fault, after), ()) ∧
        fault.isFatal = true ∧ after.execute deaf 5 () = ((.error fault, after), ()) := by
  have hreach : Reachable (storyOf [0xbe, 0x01, 0xff, 0x10, 0x00]) (fun _ => False) lost :=
    @Reachable.create _ (fun _ => False) Unit deaf {} () () lost rfl
  obtain ⟨hhalts, htells⟩ := error_severity hreach deaf ()
  constructor
  · have hrestore : (lost.play deaf fetch ()).1.1.toOption.map
        (fun taken => (taken.1.opcode, taken.2)) = some (.restore, []) := by decide +kernel
    obtain ⟨⟨instruction, operands⟩, htaken, hparts⟩ := Option.map_eq_some_iff.mp hrestore
    obtain ⟨hopcode, rfl⟩ := Prod.mk.inj hparts
    have hharmless : (match ((lost.play deaf fetch ()).1.2.play deaf reloadFile ()).1.1 with
        | .error fault => fault.isFatal
        | .ok _ => true) = false := by
      decide +kernel
    rcases hfail : (lost.play deaf fetch ()).1.2.play deaf reloadFile ()
      with ⟨⟨fault | _, middle⟩, v⟩
    · rw [hfail] at hharmless
      obtain ⟨notice, htold⟩ := htells instruction [] _ _ reloadFile fault _ _ (by decide +kernel)
        (play_eq_of_toOption htaken) (by rw [hopcode]; rfl) hfail hharmless
      exact ⟨_, _, _, htold⟩
    · rw [hfail] at hharmless
      exact nomatch hharmless
  · have hfault : (match (lost.execute deaf 2 ()).1.1 with
        | .error _ => true
        | _ => false) = true := by
      decide +kernel
    rcases hexecute : lost.execute deaf 2 () with ⟨⟨event, after⟩, w'⟩
    rw [hexecute] at hfault
    cases event with
    | error fault =>
        obtain ⟨hfatal, -, hagain⟩ := hhalts 2 fault after w' hexecute
        exact ⟨fault, after, rfl, hfatal, hagain Unit deaf 5 ()⟩
    | _ => exact nomatch hfault

end Machine

end StoryMachine
