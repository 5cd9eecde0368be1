import StoryMachine.Proofs.AcceptedSnapshot
import StoryMachine.Proofs.CheckedReading

/-!
# The records of frames

The chunk of frames is a row of records.  A record has a head of eight bytes; the flags in it
count the locals and the size in it counts the words that follow.  `Recorded` says this of bytes
and frames without reading anything.  The reader accepts exactly such bytes, and all of them
(`framesFrom_eq_ok_iff`): it goes on until nothing is left, so no record can be cut short and no
byte can be left over.

With what is checked elsewhere, a snapshot that is accepted, whoever made it, can be applied and
leaves the counters of the frames right (`accepted_well_formed`).
-/

namespace StoryMachine

namespace Snapshot

/-- Bytes that are the records of frames, the oldest first, to the last byte. -/
inductive Recorded : List UInt8 → List (Frame × List Word) → Prop
  | nil : Recorded [] []
  | cons {a b c flags store arguments hi lo : UInt8} {locals words : List Word}
      {data : List UInt8} {shares : List (Frame × List Word)}
      (hlocals : locals.length = (flags &&& 0x0f).toNat)
      (hwords : words.length = (Word.ofBytes hi lo).toNat) (hrest : Recorded data shares) :
      Recorded
        (a :: b :: c :: flags :: store :: arguments :: hi :: lo
          :: ((locals ++ words).flatMap Word.toBytes ++ data))
        (({ returnPc := number3 [a, b, c], store := if flags &&& 0x10 ≠ 0 then none else some store,
            locals, arguments := bitCount arguments, size := words.length }, words) :: shares)

/-- The words of some bytes are written as these bytes. -/
theorem flatMap_take_wordsOf {bytes : List UInt8} {count : Nat} (h : 2 * count ≤ bytes.length) :
    ((wordsOf bytes).take count).flatMap Word.toBytes = bytes.take (2 * count) := by
  induction count generalizing bytes with
  | zero => simp
  | succ count ih =>
      rcases bytes with _ | ⟨hi, _ | ⟨lo, rest⟩⟩
      · simp only [List.length_nil] at h
        omega
      · simp only [List.length_cons, List.length_nil] at h
        omega
      · have hrest : 2 * count ≤ rest.length := by
          simp only [List.length_cons] at h
          omega
        rw [Nat.mul_succ, List.take_succ_cons, List.take_succ_cons, wordsOf, List.take_succ_cons,
          List.flatMap_cons, ih hrest]
        simp [Word.toBytes]

/-- Words in front of other bytes are read first. -/
theorem wordsOf_append (words : List Word) (data : List UInt8) :
    wordsOf (words.flatMap Word.toBytes ++ data) = words ++ wordsOf data := by
  induction words with
  | nil => rfl
  | cons word words ih => simp [Word.toBytes, wordsOf, ih]

section

variable {a b c flags store arguments hi lo : UInt8} {body data : List UInt8}
  {locals words : List Word}

/-- A record with enough behind its head is one of the row. -/
theorem Recorded.cons_recordOf {shares : List (Frame × List Word)}
    (hroom : 2 * ((flags &&& 0x0f).toNat + (Word.ofBytes hi lo).toNat) ≤ body.length)
    (hrest : Recorded (body.drop (2 * ((flags &&& 0x0f).toNat + (Word.ofBytes hi lo).toNat)))
      shares) :
    Recorded (a :: b :: c :: flags :: store :: arguments :: hi :: lo :: body)
      (recordOf a b c flags store arguments hi lo body :: shares) := by
  unfold recordOf
  have hlength := length_wordsOf body
  have hlocals : ((wordsOf body).take (flags &&& 0x0f).toNat).length = (flags &&& 0x0f).toNat := by
    rw [List.length_take]
    omega
  have hwords : (((wordsOf body).drop (flags &&& 0x0f).toNat).take
      (Word.ofBytes hi lo).toNat).length = (Word.ofBytes hi lo).toNat := by
    rw [List.length_take, List.length_drop]
    omega
  have hbytes := flatMap_take_wordsOf hroom
  rw [List.take_add] at hbytes
  have hrecord := @Recorded.cons a b c flags store arguments hi lo _ _ _ _ hlocals hwords hrest
  rw [hbytes, List.take_append_drop, hwords] at hrecord
  exact hrecord

/-- The record of a frame in front of other bytes. -/
theorem recordOf_append (hlocals : locals.length = (flags &&& 0x0f).toNat)
    (hwords : words.length = (Word.ofBytes hi lo).toNat) :
    recordOf a b c flags store arguments hi lo ((locals ++ words).flatMap Word.toBytes ++ data)
      = ({ returnPc := number3 [a, b, c],
           store := if flags &&& 0x10 ≠ 0 then none else some store,
           locals, arguments := bitCount arguments, size := words.length }, words) := by
  unfold recordOf
  rw [wordsOf_append, List.append_assoc, List.take_left' hlocals, List.drop_left' hlocals,
    List.take_left' hwords, ← hwords]

end

/-- **Reading frames.**  The reader accepts exactly the bytes that are records from the first to
the last, and gives their frames. -/
theorem framesFrom_eq_ok_iff {data : List UInt8} {shares : List (Frame × List Word)} :
    framesFrom 0 data = .ok shares ↔ Recorded data shares := by
  constructor
  · intro h
    induction hleft : data.length using Nat.strongRecOn generalizing data shares with
    | ind left ih =>
        by_cases hnil : data = []
        · subst hnil
          obtain rfl : [] = shares := Except.ok.inj h
          exact .nil
        · by_cases hhead : data.length < 8
          · rw [framesFrom_short hnil hhead] at h
            exact nomatch h
          · obtain ⟨a, b, c, flags, store, arguments, hi, lo, body, rfl⟩ :=
              exists_head (Nat.not_lt.mp hhead)
            rw [framesFrom_record] at h
            dsimp only at h
            split at h
            case isTrue => exact nomatch h
            case isFalse hroom =>
              obtain ⟨others, hothers, h⟩ := bind_eq_ok.mp h
              obtain rfl := Except.ok.inj h
              refine .cons_recordOf (Nat.not_lt.mp hroom) (ih _ ?_ hothers rfl)
              simp only [List.length_drop, List.length_cons] at hleft ⊢
              omega
  · intro h
    induction h with
    | nil => rfl
    | @cons a b c flags store arguments hi lo locals words data shares hlocals hwords _ ih =>
        have hlength : ((locals ++ words).flatMap Word.toBytes).length
            = 2 * ((flags &&& 0x0f).toNat + (Word.ofBytes hi lo).toNat) := by
          rw [length_flatMap_toBytes, List.length_append, hlocals, hwords]
        have hroom : ¬((locals ++ words).flatMap Word.toBytes ++ data).length
            < 2 * ((flags &&& 0x0f).toNat + (Word.ofBytes hi lo).toNat) := by
          rw [List.length_append, hlength]
          omega
        rw [framesFrom_record]
        dsimp only
        rw [if_neg hroom, List.drop_left' hlength, ih, recordOf_append hlocals hwords]
        rfl

/-- No read waits in a frame that comes from a record. -/
theorem Recorded.pending_eq {data : List UInt8} {shares : List (Frame × List Word)}
    (h : Recorded data shares) : ∀ share ∈ shares, share.1.pending = none := by
  induction h with
  | nil => exact fun share hshare => nomatch hshare
  | cons _ _ _ ih =>
      intro share hshare
      rcases List.mem_cons.mp hshare with rfl | hshare
      · rfl
      · exact ih share hshare

/-- A stack is put together from frames and words as they are. -/
theorem frames_words_of_ofParts {frames : List Frame} {words : List Word} {stack : CallStack}
    (h : CallStack.ofParts frames words = .ok stack) :
    stack.frames = frames ∧ stack.words = words := by
  unfold CallStack.ofParts at h
  dsimp only at h
  split at h
  case h_2 => exact nomatch h
  case h_1 current callers hreverse =>
    split at h
    case isTrue => exact nomatch h
    case isFalse =>
      split at h
      case isTrue => exact nomatch h
      case isFalse =>
        obtain rfl := Except.ok.inj h
        refine ⟨?_, List.reverse_reverse words⟩
        rw [CallStack.frames, ← hreverse, List.reverse_reverse]

/-- The stack of an accepted snapshot comes from the records in the first chunk of frames. -/
theorem exists_recorded_of_parse {bytes : List UInt8} {memory : Memory} {restored : Restored}
    (h : parse bytes memory = .ok restored) :
    ∃ chunks data shares, Container.chunks kind bytes = .ok chunks ∧
      Container.find? chunks framesId = some data ∧ Recorded data shares ∧
      restored.stack.frames = shares.map Prod.fst ∧
      restored.stack.words = shares.flatMap Prod.snd := by
  obtain ⟨chunks, hchunks, h⟩ := bind_eq_ok.mp h
  obtain ⟨pc, -, h⟩ := bind_eq_ok.mp h
  obtain ⟨dynamic, -, h⟩ := bind_eq_ok.mp h
  obtain ⟨stack, hstack, h⟩ := bind_eq_ok.mp h
  obtain rfl := Except.ok.inj h
  unfold parseFrames at hstack
  split at hstack
  case h_1 data hdata =>
    obtain ⟨shares, hshares, hparts⟩ := bind_eq_ok.mp hstack
    exact ⟨chunks, data, shares, hchunks, hdata, framesFrom_eq_ok_iff.mp hshares,
      frames_words_of_ofParts hparts⟩
  case h_2 => exact nomatch hstack

/-- What a machine may rely on when it applies a snapshot. -/
structure WellFormed (memory : Memory) (restored : Restored) : Prop where
  length_dynamic : restored.dynamic.length = memory.dynamicCeiling
  /-- Dynamic memory can be replaced, and then has these bytes. -/
  applies : ∃ after, memory.setDynamic restored.dynamic = .ok after ∧
    after.dynamic = restored.dynamic
  pc_lt : restored.pc < memory.size
  frames_ne_nil : restored.stack.frames ≠ []
  /-- The counters of the frames account for all words. -/
  owned_eq : CallStack.owned restored.stack.frames = restored.stack.words.length
  words_le : restored.stack.words.length ≤ 65535
  frame_bounds : ∀ frame ∈ restored.stack.frames,
    frame.locals.length ≤ 15 ∧ frame.arguments ≤ 8 ∧ frame.pending = none

/-- Dynamic memory that is replaced is what it is replaced with. -/
theorem dynamic_withDynamic (memory : Memory) (data : List UInt8)
    (h : data.length = memory.dynamicCeiling) : (memory.withDynamic data h).dynamic = data := by
  have hceiling : (memory.withDynamic data h).dynamicCeiling = data.length := h.symm
  rw [Memory.dynamic, hceiling, Memory.withDynamic]
  simp

/-- **Accepted snapshots are well formed.**  Whatever the bytes are, if they are accepted then
their memory can be applied, execution goes on within memory, and the stack is as a machine makes
one itself.  Its frames and words are those of the records that the chunk of frames consists of,
up to its last byte. -/
theorem accepted_well_formed {bytes : List UInt8} {memory : Memory} {restored : Restored}
    (h : parse bytes memory = .ok restored) :
    WellFormed memory restored ∧
    ∃ chunks data shares, Container.chunks kind bytes = .ok chunks ∧
      Container.find? chunks framesId = some data ∧ Recorded data shares ∧
      restored.stack.frames = shares.map Prod.fst ∧
      restored.stack.words = shares.flatMap Prod.snd := by
  have haccepted := accepted_of_parse h
  obtain ⟨chunks, data, shares, hchunks, hdata, hrecorded, hframes, hwords⟩ :=
    exists_recorded_of_parse h
  have hlength := haccepted.length_dynamic
  refine ⟨⟨hlength, ⟨_, dif_pos hlength, dynamic_withDynamic memory _ hlength⟩, haccepted.pc_lt,
    by simp [CallStack.frames], haccepted.storable.owned_eq, haccepted.storable.words_le,
    fun frame hframe => ?_⟩, chunks, data, shares, hchunks, hdata, hrecorded, hframes, hwords⟩
  have hstorable := haccepted.storable.frames_storable frame hframe
  rw [hframes] at hframe
  obtain ⟨share, hshare, rfl⟩ := List.mem_map.mp hframe
  exact ⟨hstorable.locals_le, hstorable.arguments_le, hrecorded.pending_eq share hshare⟩

/-- A chunk of frames that no machine writes: bits of the flags that mean nothing are set, and
the bits of the arguments have gaps. -/
def oddRecord : List UInt8 :=
  [0, 0, 72, 0xf1, 9, 0xa5, 0, 1, 1, 2, 3, 4]

/-- A snapshot with it. -/
def oddSnapshot : List UInt8 :=
  Container.write kind [⟨framesId, oddRecord⟩, ⟨plainId, sampleMemory.dynamic⟩,
    ⟨storyId, identity sampleMemory ++ bytes3 79⟩]

/-- It is accepted all the same, with one local, four arguments and one word. -/
theorem accepted_well_formed_odd :
    ∃ restored, parse oddSnapshot sampleMemory = .ok restored ∧ WellFormed sampleMemory restored ∧
      restored.stack.frames = [{ returnPc := 72, locals := [0x0102], arguments := 4, size := 1 }] ∧
      restored.stack.words = [0x0304] := by
  have hparse : parse oddSnapshot sampleMemory = .ok
      { dynamic := sampleMemory.dynamic, pc := 79,
        stack := { values := .ofList [0x0304], current :=
          { returnPc := 72, locals := [0x0102], arguments := 4, size := 1 } } } :=
    eq_ok_of_toOption (by decide +kernel)
  exact ⟨_, hparse, (accepted_well_formed hparse).1, rfl, rfl⟩

end Snapshot

end StoryMachine
