import StoryMachine.Proofs.AcceptedSnapshot
import StoryMachine.Proofs.CheckedReading
import StoryMachine.Proofs.SnapshotLength

/-!
# How a snapshot is turned down

A snapshot that makes no sense is no reason to halt: the story is told that going
back has failed.  Every check of a snapshot reports a fault of that kind, with one
exception.  The words of the frames are put on a stack, and a stack that runs over
is a fatal fault.

`fatal_iff_overflows` says when that happens: everything else about the snapshot is
in order, and its frames together own more words than fit.  For each story there are
such bytes (`exists_overflows`).
-/

namespace StoryMachine

variable {α β : Type} {P Q : FaultKind → Prop}

/-- Work that can fail in certain ways only. -/
def FailsAs (P : FaultKind → Prop) (outcome : Except Fault α) : Prop :=
  ∀ fault, outcome = .error fault → P fault.kind

/-- An outcome that is no reason to halt. -/
abbrev Recoverable (outcome : Except Fault α) : Prop :=
  FailsAs (fun kind => kind.isFatal = false) outcome

theorem failsAs_ok (a : α) : FailsAs P (.ok a : Except Fault α) := fun _ h => nomatch h

theorem failsAs_error {fault : Fault} (h : P fault.kind) :
    FailsAs P (.error fault : Except Fault α) := by
  intro other hother
  rw [← Except.error.inj hother]
  exact h

/-- Work that fails in certain ways fails in more ways. -/
theorem FailsAs.imp {outcome : Except Fault α} (h : FailsAs P outcome)
    (hPQ : ∀ kind, P kind → Q kind) : FailsAs Q outcome :=
  fun fault hfault => hPQ fault.kind (h fault hfault)

/-- Work done in turn fails in the ways of its parts. -/
theorem FailsAs.bind {outcome : Except Fault α} {next : α → Except Fault β}
    (h : FailsAs P outcome) (hnext : ∀ a, outcome = .ok a → FailsAs P (next a)) :
    FailsAs P (outcome >>= next) := by
  cases outcome with
  | error fault => exact failsAs_error (h fault rfl)
  | ok a => exact hnext a rfl

/-- A changed value does not change how work fails. -/
theorem FailsAs.map {outcome : Except Fault α} (f : α → β) (h : FailsAs P outcome) :
    FailsAs P (outcome.map f) := by
  cases outcome with
  | error fault => exact failsAs_error (h fault rfl)
  | ok a => exact failsAs_ok (f a)

/-! ## Checks that do not halt -/

/-- Chunks that cannot be read are no reason to halt. -/
theorem Container.recoverable_chunksFrom (skip place : Nat) (bytes : List UInt8) :
    Recoverable (chunksFrom skip place bytes) := by
  fun_induction chunksFrom skip place bytes with
  | case1 => exact failsAs_ok _
  | case2 _ _ _ _ ih => exact ih
  | case3 => exact failsAs_error rfl
  | case4 => exact failsAs_error rfl
  | case5 _ _ _ _ _ _ _ ih => exact ih.bind fun _ _ => failsAs_ok _

/-- A container that cannot be read is no reason to halt. -/
theorem Container.recoverable_chunks (kind bytes : List UInt8) :
    Recoverable (chunks kind bytes) := by
  unfold chunks
  split
  · exact failsAs_error rfl
  · split
    · exact failsAs_error rfl
    · exact recoverable_chunksFrom _ _ _

/-- Data that cannot be expanded is no reason to halt. -/
theorem Compression.recoverable_expandOnto (out : Array UInt8) (data : List UInt8) :
    Recoverable (expandOnto out data) := by
  fun_induction expandOnto out data with
  | case1 => exact failsAs_ok _
  | case2 _ _ _ _ ih => exact ih
  | case3 => exact failsAs_error rfl
  | case4 _ _ _ _ _ ih => exact ih

/-- Data that cannot be decompressed is no reason to halt. -/
theorem Compression.recoverable_decompress (data pristine : List UInt8) :
    Recoverable (decompress data pristine) := by
  have hexpand : Recoverable (expand data) := (recoverable_expandOnto #[] data).map Array.toList
  refine hexpand.bind fun bytes _ => ?_
  split
  · exact failsAs_error rfl
  · exact failsAs_ok _

namespace Snapshot

/-- An address that cannot be read is no reason to halt. -/
theorem recoverable_parsePc (memory : Memory) (chunks : List Chunk) :
    Recoverable (parsePc memory chunks) := by
  unfold parsePc
  split
  · exact failsAs_error rfl
  · split
    · exact failsAs_error rfl
    · split
      · exact failsAs_error rfl
      · dsimp only
        split
        · exact failsAs_error rfl
        · exact failsAs_ok _

/-- Memory that cannot be read is no reason to halt. -/
theorem recoverable_parseMemory (memory : Memory) (chunks : List Chunk) :
    Recoverable (parseMemory memory chunks) := by
  unfold parseMemory
  split
  · exact Compression.recoverable_decompress _ _
  · split
    · exact failsAs_error rfl
    · exact failsAs_ok _
  · exact failsAs_error rfl

/-- Frames that cannot be read are a corrupt snapshot. -/
theorem failsAs_framesFrom (skip : Nat) (bytes : List UInt8) :
    FailsAs (· = .corruptSnapshot) (framesFrom skip bytes) := by
  fun_induction framesFrom skip bytes with
  | case1 => exact failsAs_ok _
  | case2 _ _ _ ih => exact ih
  | case3 => exact failsAs_error rfl
  | case4 =>
      rename_i ih
      exact ih.bind fun _ _ => failsAs_ok _
  | case5 => exact failsAs_error rfl

/-! ## The words of the frames -/

/-- Each frame comes with as many words as it counts. -/
theorem length_of_framesFrom {skip : Nat} {bytes : List UInt8} {shares : List (Frame × List Word)}
    (h : framesFrom skip bytes = .ok shares) : ∀ share ∈ shares, share.2.length = share.1.size := by
  fun_induction framesFrom skip bytes generalizing shares with
  | case1 =>
      obtain rfl := Except.ok.inj h
      intro share hshare
      cases hshare
  | case2 _ _ _ ih => exact ih h
  | case3 => cases h
  | case4 _ _ _ _ _ _ _ _ _ _ _ body _ localCount size words hroom =>
      rename_i ih
      obtain ⟨others, hothers, h⟩ := bind_eq_ok.mp h
      obtain rfl := Except.ok.inj h
      intro share hshare
      rcases List.mem_cons.mp hshare with rfl | hshare
      · have hlength : words.length ≤ localCount + size := by
          show (wordsOf (body.take (2 * (localCount + size)))).length ≤ _
          rw [length_wordsOf, List.length_take]
          omega
        show (words.drop localCount).length = size
        rw [List.length_drop]
        omega
      · exact ih hothers share hshare
  | case5 => cases h

/-- Frames own as many words as their shares have. -/
theorem owned_of_shares {shares : List (Frame × List Word)}
    (h : ∀ share ∈ shares, share.2.length = share.1.size) :
    CallStack.owned (shares.map Prod.fst) = (shares.flatMap Prod.snd).length := by
  induction shares with
  | nil => rfl
  | cons share shares ih =>
      rw [List.map_cons, CallStack.owned_cons, List.flatMap_cons, List.length_append,
        h share List.mem_cons_self, ih fun other hother => h other (List.mem_cons_of_mem _ hother)]

/-- Frames with more words than fit the stack. -/
def Overfull (data : List UInt8) : Prop :=
  ∃ shares, framesFrom 0 data = .ok shares ∧
    WordStack.limit < (shares.flatMap Prod.snd).length

/-- Frames and words are put together, or do not belong together, or run over. -/
theorem failsAs_ofParts (frames : List Frame) (words : List Word) :
    FailsAs (fun kind => kind = .corruptSnapshot ∨
        kind = .stackOverflow ∧ WordStack.limit < words.length)
      (CallStack.ofParts frames words) := by
  unfold CallStack.ofParts
  dsimp only
  split
  · split
    · exact failsAs_error (.inl rfl)
    · split
      case isTrue hlimit => exact failsAs_error (.inr ⟨rfl, hlimit⟩)
      case isFalse => exact failsAs_ok _
  · exact failsAs_error (.inl rfl)

/-- A stack with too many words is not made.  Without frames there are no words. -/
theorem ofParts_of_lt {frames : List Frame} {words : List Word}
    (howned : CallStack.owned frames = words.length) (h : WordStack.limit < words.length) :
    CallStack.ofParts frames words = .error (WordStack.overflow CallStack.fullDetail) := by
  have hsum : frames.foldr (fun frame n => frame.size + n) 0 = words.length := howned
  unfold CallStack.ofParts
  dsimp only
  split
  case h_1 => rw [if_neg (not_not_intro hsum), if_pos h]
  case h_2 hnil =>
    rw [List.reverse_eq_nil_iff] at hnil
    rw [hnil, CallStack.owned_nil] at howned
    omega

/-- Frames with too many words overflow the stack. -/
theorem parseStack_of_overfull {data : List UInt8} (h : Overfull data) :
    parseStack data = .error (WordStack.overflow CallStack.fullDetail) := by
  obtain ⟨shares, hshares, hwords⟩ := h
  have howned := owned_of_shares (length_of_framesFrom hshares)
  rw [parseStack, hshares]
  exact ofParts_of_lt howned hwords

/-- A stack that cannot be read is corrupt, or has too many words. -/
theorem failsAs_parseStack (data : List UInt8) :
    FailsAs (fun kind => kind = .corruptSnapshot ∨ kind = .stackOverflow ∧ Overfull data)
      (parseStack data) := by
  have hread : FailsAs (fun kind => kind = .corruptSnapshot ∨ kind = .stackOverflow ∧ Overfull data)
      (framesFrom 0 data) := (failsAs_framesFrom 0 data).imp fun _ => .inl
  refine hread.bind fun shares hshares => ?_
  refine (failsAs_ofParts _ _).imp ?_
  rintro kind (hcorrupt | ⟨hover, hwords⟩)
  · exact .inl hcorrupt
  · exact .inr ⟨hover, shares, hshares, hwords⟩

/-- No check of the frames says that the snapshot is for another story. -/
theorem failsAs_parseFrames (chunks : List Chunk) :
    FailsAs (fun kind => kind = .missingChunk ∨ kind = .corruptSnapshot ∨
        kind = .stackOverflow ∧ ∃ data, Container.find? chunks framesId = some data ∧ Overfull data)
      (parseFrames chunks) := by
  unfold parseFrames
  split
  case h_1 data hdata =>
    refine (failsAs_parseStack data).imp ?_
    rintro kind (hcorrupt | ⟨hover, hfull⟩)
    · exact .inr (.inl hcorrupt)
    · exact .inr (.inr ⟨hover, data, hdata, hfull⟩)
  case h_2 => exact failsAs_error (.inl rfl)

/-! ## Snapshots that halt -/

/-- A snapshot that is in order but for its words, which are more than fit the stack. -/
def Overflows (bytes : List UInt8) (memory : Memory) : Prop :=
  ∃ chunks pc dynamic data, Container.chunks kind bytes = .ok chunks ∧
    parsePc memory chunks = .ok pc ∧ parseMemory memory chunks = .ok dynamic ∧
    Container.find? chunks framesId = some data ∧ Overfull data

variable {bytes : List UInt8} {memory : Memory}

/-- **A snapshot that is in order but for too many words overflows the stack.** -/
theorem parse_of_overflows (h : Overflows bytes memory) :
    parse bytes memory = .error (WordStack.overflow CallStack.fullDetail) := by
  obtain ⟨chunks, pc, dynamic, data, hchunks, hpc, hdynamic, hdata, hfull⟩ := h
  have hframes : parseFrames chunks = .error (WordStack.overflow CallStack.fullDetail) := by
    rw [parseFrames, hdata]
    exact parseStack_of_overfull hfull
  rw [parse, hchunks]
  simp only [bind, Except.bind, hpc, hdynamic, hframes]

/-- All other snapshots are accepted, or turned down without halting. -/
theorem recoverable_parse (h : ¬Overflows bytes memory) : Recoverable (parse bytes memory) := by
  refine (Container.recoverable_chunks kind bytes).bind fun chunks hchunks => ?_
  refine (recoverable_parsePc memory chunks).bind fun pc hpc => ?_
  refine (recoverable_parseMemory memory chunks).bind fun dynamic hdynamic => ?_
  have hframes : Recoverable (parseFrames chunks) := by
    refine (failsAs_parseFrames chunks).imp ?_
    rintro kind (rfl | rfl | ⟨rfl, data, hdata, hfull⟩)
    · rfl
    · rfl
    · exact absurd ⟨chunks, pc, dynamic, data, hchunks, hpc, hdynamic, hdata, hfull⟩ h
  exact hframes.bind fun stack _ => failsAs_ok _

/-- A stack of two frames with the given words. -/
def twoFrames (older own : List Word) : CallStack where
  values := .ofList (older ++ own).reverse
  current := { size := own.length }
  callers := [{ size := older.length }]

/-- A snapshot has room for a frame without locals. -/
theorem storable_plain (size : Nat) : ({ size } : Frame).Storable :=
  ⟨Nat.zero_lt_succ _, Nat.zero_le _, Nat.zero_le _⟩

/-- Each frame may own as many words as fit the stack, so two may own more. -/
theorem overfull_twoFrames {older own : List Word} (holder : older.length ≤ 65535)
    (hown : own.length ≤ 65535) (h : WordStack.limit < older.length + own.length) :
    Overfull (framesBytes (twoFrames older own).frames (twoFrames older own).words) := by
  have hwords : (twoFrames older own).words = older ++ own := List.reverse_reverse _
  have hbytes : framesBytes (twoFrames older own).frames (twoFrames older own).words
      = frameBytes { size := older.length } older
        ++ (frameBytes { size := own.length } own ++ []) := by
    rw [hwords]
    show framesBytes [{ size := older.length }, { size := own.length }] _ = _
    simp only [framesBytes, List.take_left' rfl, List.drop_left' rfl, List.take_length]
  refine ⟨[({ size := older.length }, older), ({ size := own.length }, own)], ?_, ?_⟩
  · rw [hbytes, framesFrom_frameBytes (storable_plain _) rfl holder,
      framesFrom_frameBytes (storable_plain _) rfl hown]
    rfl
  · simpa using h

/-- For each story there are such bytes. -/
theorem exists_overflows (memory : Memory) : ∃ bytes, Overflows bytes memory := by
  obtain ⟨older, holder⟩ : ∃ older : List Word, older.length = 65535 :=
    ⟨List.replicate 65535 0, List.length_replicate⟩
  have hframes : ∀ frame ∈ (twoFrames older [0]).frames, frame.Storable := by
    intro frame hframe
    rcases CallStack.mem_frames.mp hframe with rfl | hframe
    · exact storable_plain _
    · rw [List.mem_singleton.mp hframe]
      exact storable_plain _
  have hlength : (capture memory (twoFrames older [0]) 0 false none).length < 0x100000008 := by
    have hle := @length_capture_le memory (twoFrames older [0]) 0 false
      fun frame hframe => (hframes frame hframe).locals_le
    have hceiling := memory.dynamicCeiling_lt
    have hdepth : (twoFrames older [0]).depth = 2 := rfl
    have hclaimed : (twoFrames older [0]).current.size
        + CallStack.owned (twoFrames older [0]).callers = 65536 := by
      show 1 + (older.length + 0) = 65536
      rw [holder]
    omega
  have hsize : 0 < memory.size :=
    Nat.lt_of_lt_of_le (by decide) (Nat.le_trans memory.header_le_ceiling memory.ceiling_le_size)
  refine ⟨capture memory (twoFrames older [0]) 0 false none, _, 0, memory.dynamic, _,
    chunks_capture _ 0 false none hlength, parsePc_chunksOf _ 0 false none rfl (by decide) hsize,
    parseMemory_chunksOf _ 0 false none rfl, find?_chunksOf_framesId _ 0 false none,
    overfull_twoFrames (Nat.le_of_eq holder) (by decide) ?_⟩
  rw [holder]
  decide

/-- **Which snapshots halt the machine.**  Reading a snapshot never reaches outside of it, whatever
its bytes are.  A snapshot that is turned down is a reason to halt if and only if it is in order
but for its words, which are more than fit the stack; the fault is then that of a stack that runs
over.  Every story can be given such a snapshot. -/
theorem fatal_iff_overflows (memory : Memory) :
    (∀ bytes, parseAt bytes memory = Checked.inRange (parse bytes memory)) ∧
      (∀ bytes, (∃ fault, parse bytes memory = .error fault ∧ fault.isFatal = true) ↔
        Overflows bytes memory) ∧
      (∀ bytes, Overflows bytes memory →
        parse bytes memory = .error (WordStack.overflow CallStack.fullDetail)) ∧
      ∃ bytes, Overflows bytes memory := by
  refine ⟨fun bytes => parseAt_eq bytes memory, fun bytes => ⟨?_, ?_⟩,
    fun bytes => parse_of_overflows, exists_overflows memory⟩
  · rintro ⟨fault, hfault, hfatal⟩
    refine Classical.byContradiction fun hfits => ?_
    have hharmless : fault.isFatal = false := recoverable_parse hfits fault hfault
    rw [hharmless] at hfatal
    exact nomatch hfatal
  · intro h
    exact ⟨_, parse_of_overflows h, rfl⟩

end Snapshot

end StoryMachine
