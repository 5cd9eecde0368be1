import StoryMachine.Proofs.MemoryPatches
import StoryMachine.Proofs.Stepping
import StoryMachine.Proofs.StreamLaws

/-!
# The flag of the transcript

Whether a transcript is being made stands in two places: with the streams, and in the lowest bit of
the second header flags, where the story may change it.  A write to the flags tells the streams
only at the two addresses where stories write them, the word at 16 and the byte at 17, and
selecting the transcript sets the flag in any case.  After that the two agree, whatever came
before.  Bytes that come to the flag in another way go unnoticed: with a word at 17, with the length
of a table that is opened there, or from a table of lines that is closed there.

`Fares` tells the two apart, for each instruction that may write over the flag
(`fares_of_perform`).  What goes unnoticed leaves flag and transcript in agreement only if the bit
happens to be right (`transcript_shown_iff`).
-/

namespace StoryMachine

variable {W : Type}

namespace Word

/-- The lowest bit of a word is that of its low byte. -/
theorem and_one_bne_zero (w : Word) : (w &&& 1 != 0) = (w.low &&& 1 != 0) := by
  have hlow : w.low.toNat = w.toNat % 256 := by simp [low]
  have hword : (w &&& 1).toNat = w.toNat % 2 := by
    rw [UInt16.toNat_and]
    exact Nat.and_one_is_mod w.toNat
  have hbyte : (w.low &&& 1).toNat = w.low.toNat % 2 := by
    rw [UInt8.toNat_and]
    exact Nat.and_one_is_mod w.low.toNat
  have hiff : w &&& 1 = 0 ↔ w.low &&& 1 = 0 := by
    rw [← UInt16.toNat_inj, ← UInt8.toNat_inj, hword, hbyte, hlow]
    show w.toNat % 2 = 0 ↔ w.toNat % 256 % 2 = 0
    omega
  rw [Bool.eq_iff_iff, bne_iff_ne, bne_iff_ne, ne_eq, ne_eq, hiff]

/-- The lowest bit is as it has been set. -/
theorem flag_set (flags : Word) (on : Bool) :
    ((if on then flags ||| 1 else flags &&& 0xfffe) &&& 1 != 0) = on := by
  cases on with
  | true =>
      have hone : (flags ||| 1) &&& 1 = 1 := by
        rw [← UInt16.toNat_inj, UInt16.toNat_and, UInt16.toNat_or, Nat.and_or_distrib_right]
        show flags.toNat &&& 1 ||| 1 = 1
        rw [Nat.and_one_is_mod]
        rcases Nat.mod_two_eq_zero_or_one flags.toNat with heven | hodd
        · rw [heven]
          rfl
        · rw [hodd]
          rfl
      rw [if_pos rfl, hone]
      rfl
  | false =>
      have hzero : flags &&& 0xfffe &&& 1 = 0 := by
        rw [UInt16.and_assoc]
        exact UInt16.and_zero
      rw [if_neg Bool.false_ne_true, hzero]
      rfl

end Word

namespace StreamWork

/-- Work that went well as a whole went well in both its parts. -/
theorem on_bind_ok {α β : Type} {work : StreamWork (StateM W) α}
    {next : α → StreamWork (StateM W) β} {host : Host (StateM W)} {desk after : Desk} {w w' : W}
    {b : β} (h : on (work >>= next) host desk w = ((.ok b, after), w')) :
    ∃ a middle v, on work host desk w = ((.ok a, middle), v) ∧
      on (next a) host middle v = ((.ok b, after), w') := by
  rw [on_bind] at h
  rcases hwork : on work host desk w with ⟨⟨fault | a, middle⟩, v⟩ <;> rw [hwork] at h
  · exact nomatch h
  · exact ⟨a, middle, v, rfl, h⟩

/-- Work on memory that went well, with the memory that it leaves. -/
theorem on_edit_ok {α : Type} {work : Edit α} {host : Host (StateM W)} {desk after : Desk} {w v : W}
    {a : α} (h : on (edit work : StreamWork (StateM W) α) host desk w = ((.ok a, after), v)) :
    ∃ draft, Work.on work { memory := desk.memory } = (.ok a, draft) ∧
      after = { desk with memory := draft.memory } := by
  rw [on_edit, Edit.run_eq_on] at h
  rcases hwork : Work.on work { memory := desk.memory } with ⟨outcome, draft⟩
  rw [hwork] at h
  cases h
  exact ⟨draft, rfl, rfl⟩

end StreamWork

namespace Memory

/-- Whether memory shows that a transcript is being made. -/
def transcriptFlag (memory : Memory) : Bool :=
  memory.headerWord .flags2 &&& 1 != 0

/-- The flag of the transcript is the lowest bit of a byte. -/
theorem transcriptFlag_eq (memory : Memory) :
    memory.transcriptFlag = (memory.byteAt 0x11 &&& 1 != 0) := by
  have hlow : (memory.headerWord .flags2).low = memory.byteAt 0x11 := Word.low_ofBytes _ _
  rw [transcriptFlag, Word.and_one_bne_zero, hlow]

/-- **What is written over the flag** has to have the right bit. -/
theorem Patched.transcriptFlag_eq_iff {patches : List Patch} {memory after : Memory}
    (h : Patched patches memory after) {on : Bool} (hflag : memory.transcriptFlag = on) :
    after.transcriptFlag = on ↔
      ∀ patch ∈ patches, ∀ b ∈ patch.byteAt? 0x11, (b &&& 1 != 0) = on := by
  rw [transcriptFlag_eq] at hflag ⊢
  constructor
  · intro hafter patch hpatch b hb
    rw [h.byteAt_eq hpatch hb] at hafter
    exact hafter
  · intro hpatches
    by_cases hsome : ∃ patch ∈ patches, ∃ b, patch.byteAt? 0x11 = some b
    · obtain ⟨patch, hpatch, b, hb⟩ := hsome
      rw [h.byteAt_eq hpatch hb]
      exact hpatches patch hpatch b hb
    · have hnone : ∀ patch ∈ patches, patch.byteAt? 0x11 = none := fun patch hpatch =>
        Option.eq_none_iff_forall_ne_some.mpr fun b hb => hsome ⟨patch, hpatch, b, hb⟩
      rw [h.byteAt_eq_of_none hnone]
      exact hflag

end Memory

open Memory

namespace Streams

open StreamWork

/-- That a header shows whether the streams make a transcript. -/
def ShownIn (streams : Streams) (memory : Memory) : Prop :=
  memory.transcriptFlag = streams.transcriptOn

/-! ## Selecting a stream -/

/-- What selecting a stream writes, the flag itself apart: the length of a table that is opened, or
what closing the innermost one writes. -/
def selected (streams : Streams) (number : Int) (table : Option Word) : List Patch :=
  match number, table, streams.tables with
  | 3, some table, _ => [⟨table.toNat, Word.toBytes 0⟩]
  | -3, _, stream :: _ => stream.closing
  | _, _, _ => []

variable {host : Host (StateM W)} {desk after : Desk} {w v : W}

/-- Showing the flag shows what the streams do. -/
theorem shownIn_of_showTranscriptFlag
    (h : (showTranscriptFlag).on host desk w = ((.ok (), after), v)) :
    after.streams.ShownIn after.memory := by
  unfold showTranscriptFlag at h
  rw [on_bind_of_ok (on_get host desk w)] at h
  cases h
  unfold ShownIn transcriptFlag Memory.headerWord Memory.setHeaderWord
  rw [wordAt_setWord]
  exact Word.flag_set _ desk.streams.transcriptOn

/-- Selecting the transcript sets the flag, and so does no longer selecting it. -/
theorem shownIn_of_select {number : Int} (hnumber : number.natAbs = 2) {table : Option Word}
    {width : Option Int} {warning : Option String}
    (h : (select number table width).on host desk w = ((.ok warning, after), v)) :
    after.streams.ShownIn after.memory := by
  obtain rfl | rfl : number = 2 ∨ number = -2 := by omega
  · obtain ⟨_, _, _, -, h⟩ := on_bind_ok h
    obtain ⟨_, _, _, -, h⟩ := on_bind_ok h
    obtain ⟨_, _, _, hshow, h⟩ := on_bind_ok h
    cases h
    exact shownIn_of_showTranscriptFlag hshow
  · obtain ⟨_, _, _, -, h⟩ := on_bind_ok h
    obtain ⟨_, _, _, hshow, h⟩ := on_bind_ok h
    cases h
    exact shownIn_of_showTranscriptFlag hshow

/-- Opening a table goes well only where there is an address for it. -/
theorem patched_of_openTable {table : Option Word} {width : Option Int}
    (h : (openTable table width).on host desk w = ((.ok (), after), v)) :
    after.streams.transcriptOn = desk.streams.transcriptOn ∧
      Patched (desk.streams.selected 3 table) desk.memory after.memory := by
  unfold openTable at h
  rw [on_bind_of_ok (on_get host desk w)] at h
  by_cases hfull : maxTables ≤ desk.streams.tables.length
  · rw [if_pos hfull] at h
    exact nomatch h
  · rw [if_neg hfull] at h
    cases table with
    | none => exact nomatch h
    | some table =>
        dsimp only at h
        obtain ⟨_, _, _, hwrite, h⟩ := on_bind_ok h
        cases h
        obtain ⟨draft, hedit, rfl⟩ := on_edit_ok hwrite
        obtain ⟨memory, rfl, hpatched⟩ := Edit.patched_of_writeWord hedit
        exact ⟨rfl, hpatched⟩

/-- The table that is closed is the innermost one, if there is any. -/
theorem patched_of_closeTable {table : Option Word} {found : Bool}
    (h : (closeTable).on host desk w = ((.ok found, after), v)) :
    after.streams.transcriptOn = desk.streams.transcriptOn ∧
      Patched (desk.streams.selected (-3) table) desk.memory after.memory := by
  unfold closeTable at h
  rw [on_bind_of_ok (on_get host desk w)] at h
  cases hopen : desk.streams.tables with
  | nil =>
      rw [hopen] at h
      cases h
      simp only [selected, hopen]
      exact ⟨trivial, .refl desk.memory⟩
  | cons stream outer =>
      rw [hopen] at h
      dsimp only at h
      rw [on_bind_of_ok (on_change host desk w _)] at h
      obtain ⟨⟨outcome, stream'⟩, _, _, hedit, h⟩ := on_bind_ok h
      obtain ⟨draft, hclose, rfl⟩ := on_edit_ok hedit
      cases outcome with
      | error fault => exact nomatch h
      | ok _ =>
          cases h
          simp only [selected, hopen]
          exact ⟨trivial, MemoryStream.patched_of_close hclose⟩

/-- No other selection touches the transcript. -/
theorem patched_of_select {number : Int} (hnumber : number.natAbs ≠ 2) {table : Option Word}
    {width : Option Int} {warning : Option String}
    (h : (select number table width).on host desk w = ((.ok warning, after), v)) :
    after.streams.transcriptOn = desk.streams.transcriptOn ∧
      Patched (desk.streams.selected number table) desk.memory after.memory := by
  unfold select at h
  split at h
  case h_1 | h_2 | h_3 | h_9 =>
    cases h
    exact ⟨rfl, .refl desk.memory⟩
  case h_4 | h_5 => exact absurd rfl hnumber
  case h_6 =>
    obtain ⟨_, _, _, hopen, h⟩ := on_bind_ok h
    cases h
    exact patched_of_openTable hopen
  case h_7 =>
    obtain ⟨found, middle, _, hclose, h⟩ := on_bind_ok h
    obtain rfl : middle = after := by
      cases found <;> cases h <;> rfl
    exact patched_of_closeTable hclose
  case h_8 =>
    obtain ⟨commands, commandsOn, _, hopen⟩ := on_openCommands host desk w
    obtain ⟨_, _, _, hcommands, h⟩ := on_bind_ok h
    rw [hopen] at hcommands
    cases hcommands
    cases h
    exact ⟨rfl, .refl desk.memory⟩
  case h_10 => exact nomatch h
  case h_11 _ _ _ _ _ _ hthree hminus _ _ _ =>
    cases h
    have hnothing : desk.streams.selected number table = [] := by
      unfold selected
      split
      · exact absurd rfl hthree
      · exact absurd rfl hminus
      · rfl
    rw [hnothing]
    exact ⟨rfl, .refl desk.memory⟩

end Streams

namespace Play

open Machine

/-- A warning leaves the machine. -/
theorem reads_warnIf (message : Option String) : Reads (warnIf message : Play (StateM W) Unit) := by
  cases message with
  | none => exact reads_pure ()
  | some message => exact reads_get.bind fun _ => .ite (reads_throw _) (reads_ask _)

/-- A check of an address leaves the machine. -/
theorem reads_checkWrite (address : Nat) : Reads (checkWrite address : Play (StateM W) Unit) :=
  .ite (reads_warnIf (some _)) (reads_pure ())

/-- How the flag of the transcript fares: either the streams take notice, and it is right
afterwards, or they do not, and then memory has some patches. -/
structure Fares (noticed : Prop) (patches : List Patch) (machine after : Machine) : Prop where
  shownIn : noticed → after.streams.ShownIn after.memory
  patched : ¬noticed → after.streams.transcriptOn = machine.streams.transcriptOn ∧
    Patched patches machine.memory after.memory

section

variable {host : Host (StateM W)} {machine after : Machine} {w v : W} {α : Type}

/-- What the streams have done well, with the machine afterwards. -/
theorem onStreams_ok {work : StreamWork (StateM W) α} {a : α}
    (h : machine.play host (onStreams work) w = ((.ok a, after), v)) :
    ∃ desk, work.on host { memory := machine.memory, streams := machine.streams } w
        = ((.ok a, desk), v) ∧
      after = { machine with memory := desk.memory, streams := desk.streams } := by
  rw [play_onStreams] at h
  rcases hwork : work.on host { memory := machine.memory, streams := machine.streams } w
    with ⟨⟨outcome, desk⟩, v'⟩
  rw [hwork] at h
  cases h
  exact ⟨desk, rfl, rfl⟩

/-- What was done well to memory. -/
theorem edit_ok {work : Edit α} {a : α}
    (h : machine.play host (edit work) w = ((.ok a, after), v)) :
    ∃ draft, Work.on work { memory := machine.memory } = (.ok a, draft) ∧
      after = { machine with memory := draft.memory } := by
  rw [play_edit, Edit.run_eq_on] at h
  rcases hwork : Work.on work { memory := machine.memory } with ⟨outcome, draft⟩
  rw [hwork] at h
  cases h
  exact ⟨draft, rfl, rfl⟩

/-- Streams that follow the flag are shown by it. -/
theorem shownIn_of_syncTranscript
    (h : machine.play host syncTranscript w = ((.ok (), after), v)) :
    after.streams.ShownIn after.memory := by
  unfold syncTranscript at h
  rw [play_bind_of_ok (play_view machine host w _), play_bind_of_ok (play_get machine host w)] at h
  split at h
  case isTrue =>
    obtain ⟨warning, middle, v', hselect, h⟩ := play_bind_ok h
    have hmiddle := reads_warnIf warning host middle v'
    rw [h] at hmiddle
    obtain rfl : after = middle := hmiddle
    obtain ⟨desk, hdesk, rfl⟩ := onStreams_ok hselect
    refine Streams.shownIn_of_select ?_ hdesk
    split <;> rfl
  case isFalse heq =>
    cases h
    exact Classical.not_not.mp (mt bne_iff_ne.mpr heq)

/-- A write of the story, which the streams are told of at one address. -/
theorem fares_of_store {work : Edit Unit} {patch : Patch} {address noticed : Nat}
    (hwork : ∀ draft draft', Work.on work draft = (.ok (), draft') →
      ∃ memory, draft' = { draft with memory } ∧ Patched [patch] draft.memory memory)
    (h : machine.play host (do
      checkWrite address
      edit work
      if address = noticed then syncTranscript : Play (StateM W) Unit) w = ((.ok (), after), v)) :
    Fares (address = noticed) [patch] machine after := by
  obtain ⟨_, middle, v', hcheck, hstore⟩ := play_bind_ok h
  have hmiddle := reads_checkWrite address host machine w
  rw [hcheck] at hmiddle
  obtain rfl : middle = machine := hmiddle
  obtain ⟨_, written, _, hwrite, hsync⟩ := play_bind_ok hstore
  obtain ⟨draft, hedit, rfl⟩ := edit_ok hwrite
  obtain ⟨memory, rfl, hpatched⟩ := hwork _ _ hedit
  by_cases hnoticed : address = noticed
  · rw [if_pos hnoticed] at hsync
    exact ⟨fun _ => shownIn_of_syncTranscript hsync, fun hnot => absurd hnoticed hnot⟩
  · rw [if_neg hnoticed] at hsync
    cases hsync
    exact ⟨fun hyes => absurd hyes hnoticed, fun _ => ⟨rfl, hpatched⟩⟩

/-- Selecting a stream takes notice of the flag, or writes a table at the most. -/
theorem fares_of_selectOutput {operands : List Word}
    (h : machine.play host (selectOutput operands) w = ((.ok (), after), v)) :
    Fares ((operandAt operands 0).signed.natAbs = 2)
      (machine.streams.selected (operandAt operands 0).signed operands[1]?) machine after := by
  unfold selectOutput at h
  rw [play_bind_of_ok (play_view machine host w _)] at h
  obtain ⟨warning, middle, v', hselect, h⟩ := play_bind_ok h
  have hmiddle := reads_warnIf warning host middle v'
  rw [h] at hmiddle
  obtain rfl : after = middle := hmiddle
  obtain ⟨desk, hdesk, rfl⟩ := onStreams_ok hselect
  exact ⟨fun htwo => Streams.shownIn_of_select htwo hdesk,
    fun hother => Streams.patched_of_select hother hdesk⟩

end

/-- Whether the streams are told that the flag may have changed. -/
def Noticed (opcode : Opcode) (operands : List Word) : Prop :=
  match opcode with
  | .storew => (operandAt operands 0 + operandAt operands 1 * 2).toNat = 0x10
  | .storeb => (operandAt operands 0 + operandAt operands 1).toNat = 0x11
  | .outputStream => (operandAt operands 0).signed.natAbs = 2
  | _ => False

/-- What an instruction writes into memory, the flag itself apart. -/
def patches (streams : Streams) (opcode : Opcode) (operands : List Word) : List Patch :=
  match opcode with
  | .storew =>
    [⟨(operandAt operands 0 + operandAt operands 1 * 2).toNat, (operandAt operands 2).toBytes⟩]
  | .storeb =>
    [⟨(operandAt operands 0 + operandAt operands 1).toNat, [(operandAt operands 2).toUInt8]⟩]
  | .outputStream => streams.selected (operandAt operands 0).signed operands[1]?
  | _ => []

section

variable {host : Host (StateM W)} {machine after poised : Machine} {w w' v : W}
  {instruction : Instruction} {operands : List Word}

/-- **Carrying out** one of the instructions that may write over the flag. -/
theorem fares_of_perform
    (hopcode : instruction.opcode = .storew ∨ instruction.opcode = .storeb ∨
      instruction.opcode = .outputStream)
    (h : machine.play host (perform instruction operands) w = ((.ok (), after), v)) :
    Fares (Noticed instruction.opcode operands)
      (patches machine.streams instruction.opcode operands) machine after := by
  rw [perform, play_bind_of_ok (play_get machine host w)] at h
  rcases hopcode with hopcode | hopcode | hopcode <;> rw [hopcode] at h ⊢
  · exact fares_of_store (fun _ _ => Edit.patched_of_writeWord) h
  · exact fares_of_store (fun _ _ => Edit.patched_of_writeByte) h
  · exact fares_of_selectOutput h

/-- **The flag and the transcript.**  If they agree, they agree after a word or a byte has been
stored, or a stream selected, exactly if the streams took notice of it, or if no byte was written
over the flag that has the wrong bit. -/
theorem transcript_shown_iff (hresume : machine.resume = none)
    (hfetch : machine.play host fetch w = ((.ok (instruction, operands), poised), v))
    (hopcode : instruction.opcode = .storew ∨ instruction.opcode = .storeb ∨
      instruction.opcode = .outputStream)
    (hstep : machine.play host step w = ((.ok (), after), w'))
    (hshown : machine.streams.ShownIn machine.memory) :
    after.streams.ShownIn after.memory ↔
      Noticed instruction.opcode operands ∨
        ∀ patch ∈ patches machine.streams instruction.opcode operands,
          ∀ b ∈ patch.byteAt? 0x11, (b &&& 1 != 0) = machine.streams.transcriptOn := by
  rw [play_step_of_fetch hresume, play_bind_of_ok hfetch] at hstep
  have hfares := fares_of_perform hopcode (play_perform_of_carryOut hstep)
  rw [(fetched_of_play hfetch).poised_eq] at hfares
  by_cases hnoticed : Noticed instruction.opcode operands
  · exact ⟨fun _ => .inl hnoticed, fun _ => hfares.shownIn hnoticed⟩
  · obtain ⟨hon, hpatched⟩ := hfares.patched hnoticed
    rw [or_iff_right hnoticed, Streams.ShownIn, hon]
    exact hpatched.transcriptFlag_eq_iff hshown

end

/-- A story that stores the word 0x132 at 17, of which the first byte is the one with the flag. -/
def scribbler : Machine :=
  ((create deaf (storyOf [0xe1, 0x53, 0x11, 0, 1, 0x32, 0xba]) {} ()).1.toOption).get rfl

theorem fetches_scribbler : (scribbler.play deaf fetch ()).1.1.toOption.isSome = true := by
  decide +kernel

/-- The instruction and its operands. -/
def scribbling : Instruction × List Word :=
  (scribbler.play deaf fetch ()).1.1.toOption.get fetches_scribbler

/-- No transcript is made, and none is begun, but the flag says so. -/
theorem transcript_shown_iff_straddled :
    scribbler.streams.ShownIn scribbler.memory ∧ ∃ after,
      scribbler.play deaf step () = ((.ok (), after), ()) ∧
      ¬after.streams.ShownIn after.memory := by
  have hshown : scribbler.streams.ShownIn scribbler.memory := by
    unfold Streams.ShownIn
    decide +kernel
  have hfetch := play_unit_of_toOption (Option.some_get fetches_scribbler).symm
  have hstep : (scribbler.play deaf step ()).1.1.toOption = some () := by decide +kernel
  have hopcode : scribbling.1.opcode = .storew := by decide +kernel
  have hoperands : scribbling.2 = [0x11, 0, 0x0132] := by decide +kernel
  have hoff : scribbler.streams.transcriptOn = false := by decide +kernel
  refine ⟨hshown, _, play_unit_of_toOption hstep, fun hafter => ?_⟩
  rcases (transcript_shown_iff (by decide +kernel) hfetch (.inl hopcode)
      (play_unit_of_toOption hstep) hshown).mp hafter with hnoticed | hright
  · change Noticed scribbling.1.opcode scribbling.2 at hnoticed
    rw [hopcode, hoperands] at hnoticed
    have hsixteen : (0x11 + 0 * 2 : Word).toNat = 0x10 := hnoticed
    exact absurd hsixteen (by decide)
  · change ∀ patch ∈ patches _ scribbling.1.opcode scribbling.2, _ at hright
    rw [hopcode, hoperands, hoff] at hright
    exact absurd (hright _ List.mem_cons_self 1 (by decide)) (by decide)

end Play

end StoryMachine
