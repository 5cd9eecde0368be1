import StoryMachine.Proofs.Compression
import StoryMachine.Proofs.Container
import StoryMachine.Snapshot

/-!
# A snapshot gives back what it was made from

A frame takes three bytes for its return address, one that mixes the number of
its locals with the mark of a dropped result, one for the store variable, one with
a bit for each argument, a word for its size, and then its locals and its words.
`framesFrom_frameBytes` reads one such record in front of anything else.  The words
of all frames stand on one stack; `framesBytes` cuts each frame's share off it, and
reading puts the shares together again (`framesFrom_framesBytes`).

What cannot be stored is a read that waits in a frame, so the stack that comes back
is the stack with its frames `settled`.

The main statement is `snapshot_round_trip`, over all memories, all stacks that
are `Storable`, plain and compressed memory, and any remark.
-/

namespace StoryMachine

/-- What the record of a frame has room for. -/
structure Frame.Storable (frame : Frame) : Prop where
  returnPc_lt : frame.returnPc < 0x1000000
  locals_le : frame.locals.length ≤ 15
  arguments_le : frame.arguments ≤ 8

/-- The frame without the read that waits in it. -/
def Frame.settled (frame : Frame) : Frame :=
  { frame with pending := none }

namespace CallStack

/-- How many words frames own together. -/
def owned (frames : List Frame) : Nat :=
  frames.foldr (fun frame n => frame.size + n) 0

@[simp] theorem owned_nil : owned [] = 0 := rfl

/-- Frames own what the first does and what the others do. -/
@[simp] theorem owned_cons (frame : Frame) (frames : List Frame) :
    owned (frame :: frames) = frame.size + owned frames := rfl

/-- The reads that wait in frames own no words. -/
theorem owned_settled (frames : List Frame) : owned (frames.map Frame.settled) = owned frames := by
  induction frames with
  | nil => rfl
  | cons frame frames ih => rw [List.map_cons, owned_cons, owned_cons, ih, Frame.settled]

/-- A stack that a snapshot has room for: the frames own all the words, these are
not too many, and each frame fits its record. -/
structure Storable (stack : CallStack) : Prop where
  owned_eq : owned stack.frames = stack.words.length
  words_le : stack.words.length ≤ 65535
  frames_storable : ∀ frame ∈ stack.frames, frame.Storable

/-- The stack without the reads that wait in its frames. -/
def settled (stack : CallStack) : CallStack :=
  { stack with
    current := stack.current.settled
    callers := stack.callers.map Frame.settled }

/-- The frames of a settled stack are the settled frames. -/
theorem frames_settled (stack : CallStack) :
    stack.settled.frames = stack.frames.map Frame.settled := by
  simp [settled, frames]

theorem words_settled (stack : CallStack) : stack.settled.words = stack.words := rfl

/-- A stack in which no read waits is settled. -/
theorem settled_eq_self {stack : CallStack} (h : ∀ frame ∈ stack.frames, frame.pending = none) :
    stack.settled = stack := by
  have hframe : ∀ frame ∈ stack.frames, frame.settled = frame := by
    intro frame hmem
    have := h frame hmem
    cases frame
    simp_all [Frame.settled]
  have hcurrent : stack.current.settled = stack.current := hframe _ (by simp [frames])
  have hcallers : stack.callers.map Frame.settled = stack.callers := by
    refine (List.map_congr_left fun frame hmem => ?_).trans (List.map_id _)
    exact hframe frame (by simp [frames, hmem])
  rw [settled, hcurrent, hcallers]

/-- A stack is put together again from its frames and words. -/
theorem ofParts_frames_words {stack : CallStack}
    (howned : owned stack.frames = stack.words.length) (hwords : stack.words.length ≤ 65535) :
    ofParts stack.frames stack.words = .ok stack := by
  have hsum : stack.frames.foldr (fun frame n => frame.size + n) 0 = stack.words.length := howned
  have hreverse : stack.frames.reverse = stack.current :: stack.callers := by
    simp [frames]
  have hvalues : WordStack.ofList stack.words.reverse = stack.values := by
    obtain ⟨⟨words, size, hsize⟩, current, callers⟩ := stack
    simp [WordStack.ofList, CallStack.words, hsize]
  unfold ofParts
  simp only [hsum, hreverse, ne_eq, not_true_eq_false, if_false, WordStack.limit,
    if_neg (Nat.not_lt.mpr hwords), hvalues]

end CallStack

namespace Snapshot

/-- An address below 2^24 is read back from three bytes. -/
theorem number3_bytes3 {address : Nat} (h : address < 0x1000000) (rest : List UInt8) :
    number3 (bytes3 address ++ rest) = address := by
  simp [number3, bytes3]
  omega

/-- The arguments of a frame are counted back from their bits. -/
theorem bitCount_arguments {count : Nat} (h : count ≤ 8) :
    bitCount ((1 <<< count) - 1).toUInt8 = count := by
  have hall : ∀ n : Fin 9, bitCount ((1 <<< n.val) - 1).toUInt8 = n.val := by decide
  exact hall ⟨count, by omega⟩

/-- The number of locals and the mark of a dropped result share a byte without
getting in each other's way. -/
theorem flags_locals {count : Nat} (h : count ≤ 15) (drops : Bool) :
    let flags : UInt8 := (if drops then 0x10 else 0) ||| count.toUInt8
    (flags &&& 0x0f).toNat = count ∧ (flags &&& 0x10 ≠ 0 ↔ drops = true) := by
  have hall : ∀ (drops : Bool) (n : Fin 16),
      let flags : UInt8 := (if drops then 0x10 else 0) ||| n.val.toUInt8
      (flags &&& 0x0f).toNat = n.val ∧ (flags &&& 0x10 ≠ 0 ↔ drops = true) := by decide
  exact hall drops ⟨count, by omega⟩

/-- Words are written in two bytes each. -/
theorem length_flatMap_toBytes (words : List Word) :
    (words.flatMap Word.toBytes).length = 2 * words.length := by
  induction words with
  | nil => rfl
  | cons word words ih =>
      simp only [List.flatMap_cons, List.length_append, ih, Word.toBytes, List.length_cons,
        List.length_nil]
      omega

/-- Words are read back from their bytes. -/
theorem wordsOf_flatMap_toBytes (words : List Word) :
    wordsOf (words.flatMap Word.toBytes) = words := by
  induction words with
  | nil => rfl
  | cons word words ih => simp [Word.toBytes, wordsOf, ih]

/-- Passing over bytes is dropping them. -/
theorem framesFrom_skip (skip : Nat) (bytes : List UInt8) :
    framesFrom skip bytes = framesFrom 0 (bytes.drop skip) := by
  induction bytes generalizing skip with
  | nil => simp [framesFrom]
  | cons b bytes ih =>
      cases skip with
      | zero => rfl
      | succ skip => rw [framesFrom, ih, List.drop_succ_cons]

/-- A record of a frame, in front of other bytes: eight fixed bytes, then one row
of words. -/
theorem frameBytes_append (frame : Frame) (words : List Word) (rest : List UInt8) :
    frameBytes frame words ++ rest
      = (frame.returnPc / 0x10000).toUInt8 :: (frame.returnPc / 0x100).toUInt8
        :: frame.returnPc.toUInt8
        :: ((if frame.store.isNone then 0x10 else 0) ||| frame.locals.length.toUInt8)
        :: frame.store.getD 0 :: ((1 <<< frame.arguments) - 1).toUInt8
        :: Word.high frame.size.toUInt16 :: Word.low frame.size.toUInt16
        :: ((frame.locals ++ words).flatMap Word.toBytes ++ rest) := by
  simp [frameBytes, bytes3, Word.toBytes]

/-- The record of a frame and its words, in front of other bytes, is read as a frame with these
words, whether or not its return address and its arguments fit.  Behind the first byte stand seven
more of the record's head, then the words. -/
theorem framesFrom_frameBytes_of_le {frame : Frame} {words : List Word}
    (hlocals : frame.locals.length ≤ 15) (hsize : frame.size = words.length)
    (hwords : words.length ≤ 65535) (rest : List UInt8) :
    framesFrom 0 (frameBytes frame words ++ rest)
      = (framesFrom 0 rest).map (({ frame.settled with
          returnPc := number3 (frameBytes frame words ++ rest)
          arguments := bitCount ((1 <<< frame.arguments) - 1).toUInt8 }, words) :: ·) := by
  obtain ⟨hcount, hdrops⟩ := flags_locals hlocals frame.store.isNone
  have hown : (Word.ofBytes (Word.high frame.size.toUInt16) (Word.low frame.size.toUInt16)).toNat
      = words.length := by
    rw [Word.ofBytes_high_low, hsize]
    simp
    omega
  have hlength : ((frame.locals ++ words).flatMap Word.toBytes).length
      = 2 * (frame.locals.length + words.length) := by
    rw [length_flatMap_toBytes, List.length_append]
  have hstore : (if frame.store.isNone = true then none else some (frame.store.getD 0))
      = frame.store := by
    cases frame.store <;> rfl
  have hskip : 7 + 2 * (frame.locals.length + words.length)
      = 2 * (frame.locals.length + words.length) + 7 := by omega
  rw [frameBytes_append, framesFrom]
  simp only [hcount, hown, List.take_left' hlength, wordsOf_flatMap_toBytes, hdrops,
    List.length_append, Nat.lt_irrefl, if_false, hstore, List.take_left' rfl,
    List.drop_left' rfl]
  rw [framesFrom_skip, hskip]
  simp only [List.drop_succ_cons, List.drop_left' hlength]
  rw [← hsize]
  rfl

/-- **One frame.**  The record of a frame and its words, in front of other bytes,
is read as that frame, settled, and these words. -/
theorem framesFrom_frameBytes {frame : Frame} {words : List Word} (hframe : frame.Storable)
    (hsize : frame.size = words.length) (hwords : words.length ≤ 65535) (rest : List UInt8) :
    framesFrom 0 (frameBytes frame words ++ rest)
      = (framesFrom 0 rest).map ((frame.settled, words) :: ·) := by
  have haddress : number3 (frameBytes frame words ++ rest) = frame.returnPc := by
    simp only [frameBytes, List.append_assoc]
    exact number3_bytes3 hframe.returnPc_lt _
  rw [framesFrom_frameBytes_of_le hframe.locals_le hsize hwords, haddress,
    bitCount_arguments hframe.arguments_le]
  rfl

/-- The frames of a stack, each with its share of the words. -/
theorem framesFrom_framesBytes {frames : List Frame} {words : List Word}
    (hframes : ∀ frame ∈ frames, frame.Storable)
    (howned : CallStack.owned frames = words.length) (hwords : words.length ≤ 65535) :
    ∃ shares, framesFrom 0 (framesBytes frames words) = .ok shares ∧
      shares.map Prod.fst = frames.map Frame.settled ∧ shares.flatMap Prod.snd = words := by
  induction frames generalizing words with
  | nil =>
      have : words = [] := by simpa using howned.symm
      subst this
      exact ⟨[], rfl, rfl, rfl⟩
  | cons frame frames ih =>
      rw [CallStack.owned_cons] at howned
      have hothers : CallStack.owned frames = (words.drop frame.size).length := by
        rw [List.length_drop]
        omega
      obtain ⟨shares, hread, hfst, hsnd⟩ := ih
        (fun other hother => hframes other (List.mem_cons_of_mem _ hother)) hothers
        (by simp; omega)
      have htake : frame.size = (words.take frame.size).length := by
        simp
        omega
      refine ⟨(frame.settled, words.take frame.size) :: shares, ?_, ?_, ?_⟩
      · rw [framesBytes, framesFrom_frameBytes (hframes frame List.mem_cons_self) htake
          (by simp; omega), hread]
        rfl
      · simp [hfst]
      · simp [hsnd]

/-- The call stack comes back settled. -/
theorem parseStack_framesBytes {stack : CallStack} (h : stack.Storable) :
    parseStack (framesBytes stack.frames stack.words) = .ok stack.settled := by
  obtain ⟨shares, hread, hframes, hwords⟩ :=
    framesFrom_framesBytes h.frames_storable h.owned_eq h.words_le
  have howned : CallStack.owned stack.settled.frames = stack.settled.words.length := by
    rw [CallStack.words_settled, ← h.owned_eq, CallStack.frames_settled, CallStack.owned_settled]
  rw [parseStack, hread]
  simp only [bind, Except.bind]
  rw [hframes, hwords, ← CallStack.frames_settled, ← CallStack.words_settled]
  exact CallStack.ofParts_frames_words howned h.words_le

/-- The chunk of dynamic memory. -/
def memoryChunk (memory : Memory) (compressed : Bool) : Chunk :=
  if compressed then ⟨compressedId, Compression.compress memory.dynamic memory.pristineDynamic⟩
  else ⟨plainId, memory.dynamic⟩

/-- The chunk of a remark, if there is one. -/
def remarkChunks (remark : Option String) : List Chunk :=
  (remark.map fun text => ⟨remarkId, Utf8.encode text⟩).toList

/-- The chunks of a snapshot. -/
def chunksOf (memory : Memory) (stack : CallStack) (pc : Nat) (compressed : Bool)
    (remark : Option String) : List Chunk :=
  ⟨storyId, identity memory ++ bytes3 pc⟩ :: memoryChunk memory compressed
    :: ⟨framesId, framesBytes stack.frames stack.words⟩ :: remarkChunks remark

/-- A snapshot is a container of its chunks. -/
theorem capture_eq_write (memory : Memory) (stack : CallStack) (pc : Nat) (compressed : Bool)
    (remark : Option String) :
    capture memory stack pc compressed remark
      = Container.write kind (chunksOf memory stack pc compressed remark) := rfl

/-- A chunk in front is found by its name. -/
theorem find?_cons_self (id data : List UInt8) (rest : List Chunk) :
    Container.find? (⟨id, data⟩ :: rest) id = some data := by
  simp [Container.find?]

/-- A chunk with another name is passed over. -/
theorem find?_cons_of_ne {chunk : Chunk} {id : List UInt8} (h : chunk.id ≠ id)
    (rest : List Chunk) : Container.find? (chunk :: rest) id = Container.find? rest id := by
  simp [Container.find?, h]

/-- A remark is not looked at. -/
theorem find?_remarkChunks {id : List UInt8} (h : remarkId ≠ id) (remark : Option String) :
    Container.find? (remarkChunks remark) id = none := by
  cases remark with
  | none => rfl
  | some text => exact find?_cons_of_ne h []

/-- The chunk of memory is named by its form. -/
theorem memoryChunk_id (memory : Memory) (compressed : Bool) :
    (memoryChunk memory compressed).id = if compressed then compressedId else plainId := by
  unfold memoryChunk
  split <;> rfl

/-- The chunks of a snapshot have names of four bytes. -/
theorem id_length_of_mem_chunksOf {memory : Memory} {stack : CallStack} {pc : Nat}
    {compressed : Bool} {remark : Option String} {chunk : Chunk}
    (h : chunk ∈ chunksOf memory stack pc compressed remark) : chunk.id.length = 4 := by
  simp only [chunksOf, List.mem_cons] at h
  rcases h with rfl | rfl | rfl | h
  · exact (by decide : storyId.length = 4)
  · rw [memoryChunk_id]
    cases compressed <;> decide
  · exact (by decide : framesId.length = 4)
  · cases remark with
    | none => simp [remarkChunks] at h
    | some text =>
        obtain rfl : chunk = ⟨remarkId, Utf8.encode text⟩ := by simpa [remarkChunks] using h
        exact (by decide : remarkId.length = 4)

/-- The identity of a story has ten bytes. -/
theorem length_identity (memory : Memory) : (identity memory).length = 10 := by
  have hsize : 64 ≤ memory.bytes.size :=
    Nat.le_trans memory.header_le_ceiling memory.ceiling_le_size
  simp [identity, Memory.serial, Word.toBytes]
  omega

/-- Dynamic memory is as long as its end says. -/
theorem length_dynamic (memory : Memory) : memory.dynamic.length = memory.dynamicCeiling := by
  have := memory.ceiling_le_size
  rw [Memory.size] at this
  simp [Memory.dynamic, this]

/-- The original dynamic memory is just as long. -/
theorem length_pristineDynamic (memory : Memory) :
    memory.pristineDynamic.length = memory.dynamicCeiling := by
  have := memory.ceiling_le_size
  rw [Memory.size, memory.size_eq] at this
  simp [Memory.pristineDynamic, this]

section

-- `memory` is what the snapshot was made from, `now` is what it is checked against.
variable {memory now : Memory} (stack : CallStack) (pc : Nat) (compressed : Bool)
  (remark : Option String)

/-- The address of a snapshot is read back by the story that it belongs to. -/
theorem parsePc_chunksOf (hidentity : identity now = identity memory) (hpc : pc < 0x1000000)
    (hsize : pc < now.size) :
    parsePc now (chunksOf memory stack pc compressed remark) = .ok pc := by
  have hten := length_identity memory
  have hnumber : number3 (bytes3 pc) = pc := by simpa using number3_bytes3 hpc []
  have hlength : (identity memory ++ bytes3 pc).length = 13 := by
    rw [List.length_append, hten]
    rfl
  rw [parsePc, chunksOf, find?_cons_self]
  simp only [hlength, List.take_left' hten, List.drop_left' hten, hnumber, hidentity, ne_eq,
    not_true_eq_false, if_false, if_neg (Nat.not_le.mpr hsize)]

/-- Dynamic memory comes back, plain or compressed. -/
theorem parseMemory_chunksOf (hstory : now.story = memory.story) :
    parseMemory now (chunksOf memory stack pc compressed remark) = .ok memory.dynamic := by
  have hpristine : now.pristineDynamic = memory.pristineDynamic := by
    simp [Memory.pristineDynamic, Memory.dynamicCeiling, hstory]
  have hceiling : now.dynamicCeiling = memory.dynamicCeiling := by
    simp [Memory.dynamicCeiling, hstory]
  unfold chunksOf parseMemory memoryChunk
  rw [find?_cons_of_ne (by decide : storyId ≠ compressedId)]
  cases compressed with
  | true =>
      rw [if_pos rfl, find?_cons_self, hpristine]
      exact Compression.decompress_compress
        ((length_dynamic memory).trans (length_pristineDynamic memory).symm)
  | false =>
      rw [if_neg (by decide), find?_cons_of_ne (by decide : plainId ≠ compressedId),
        find?_cons_of_ne (by decide : framesId ≠ compressedId),
        find?_remarkChunks (by decide), find?_cons_of_ne (by decide : storyId ≠ plainId),
        find?_cons_self]
      simp [length_dynamic, hceiling]

/-- The frames are found among the chunks. -/
theorem find?_chunksOf_framesId :
    Container.find? (chunksOf memory stack pc compressed remark) framesId
      = some (framesBytes stack.frames stack.words) := by
  have hmemory : (memoryChunk memory compressed).id ≠ framesId := by
    rw [memoryChunk_id]
    cases compressed <;> decide
  rw [chunksOf, find?_cons_of_ne (by decide : storyId ≠ framesId), find?_cons_of_ne hmemory,
    find?_cons_self]

/-- **A stack that fits is read back settled.** -/
theorem parseFrames_chunksOf (h : stack.Storable) :
    parseFrames (chunksOf memory stack pc compressed remark) = .ok stack.settled := by
  rw [parseFrames, find?_chunksOf_framesId]
  exact parseStack_framesBytes h

/-- The chunks of a snapshot are read back. -/
theorem chunks_capture
    (hlength : (capture memory stack pc compressed remark).length < 0x100000008) :
    Container.chunks kind (capture memory stack pc compressed remark)
      = .ok (chunksOf memory stack pc compressed remark) := by
  have hkind : kind.length = 4 := by decide
  have h := Container.chunks_write_append [] hkind
    (fun chunk => id_length_of_mem_chunksOf) hlength
  rwa [List.append_nil] at h

/-- **A snapshot restores what it was made from**, also when it is checked against a
later memory of the same story, as long as that has the same identity. -/
theorem parse_capture (hstory : now.story = memory.story)
    (hidentity : identity now = identity memory) (hstack : stack.Storable)
    (hpc : pc < 0x1000000) (hsize : pc < now.size)
    (hlength : (capture memory stack pc compressed remark).length < 0x100000008) :
    parse (capture memory stack pc compressed remark) now
      = .ok { dynamic := memory.dynamic, stack := stack.settled, pc } := by
  rw [parse, chunks_capture stack pc compressed remark hlength]
  simp only [bind, Except.bind, parsePc_chunksOf stack pc compressed remark hidentity hpc hsize,
    parseMemory_chunksOf stack pc compressed remark hstory,
    parseFrames_chunksOf stack pc compressed remark hstack]
  rfl

end

/-- **Snapshot round trip.**  A snapshot of any memory and any storable stack, plain
or compressed, with or without a remark, is accepted by the story it was made of.
It brings back dynamic memory, the address to resume at, all the words and all the
frames in their order; only reads that waited in frames are gone. -/
theorem snapshot_round_trip (memory : Memory) (stack : CallStack) (pc : Nat)
    (compressed : Bool) (remark : Option String)
    (howned : stack.frames.foldr (fun frame n => frame.size + n) 0 = stack.words.length)
    (hwords : stack.words.length ≤ 65535)
    (hframes : ∀ frame ∈ stack.frames,
      frame.locals.length ≤ 15 ∧ frame.arguments ≤ 8 ∧ frame.returnPc < 0x1000000)
    (hpc : pc < 0x1000000) (hsize : pc < memory.size)
    (hlength : (capture memory stack pc compressed remark).length < 0x100000008) :
    ∃ restored, parse (capture memory stack pc compressed remark) memory = .ok restored ∧
      restored.dynamic = memory.dynamic ∧ restored.pc = pc ∧
      restored.stack.words = stack.words ∧
      restored.stack.frames = stack.frames.map fun frame => { frame with pending := none } := by
  have hstack : stack.Storable :=
    ⟨howned, hwords, fun frame hframe =>
      ⟨(hframes frame hframe).2.2, (hframes frame hframe).1, (hframes frame hframe).2.1⟩⟩
  exact ⟨_, parse_capture stack pc compressed remark rfl rfl hstack hpc hsize hlength,
    rfl, rfl, rfl, stack.frames_settled⟩

/-- A story of 80 bytes, 72 of them dynamic. -/
def sampleStory : Story where
  image := #[5, 0, 0, 7, 0, 0, 0, 72, 0, 0, 0, 0, 0, 64, 0, 72] ++ Array.replicate 64 0
  three_le_version := by decide
  version_le_eight := by decide
  header_le_ceiling := by decide
  ceiling_le_size := by decide

/-- Its memory after one byte was written. -/
def sampleMemory : Memory :=
  (Memory.ofStory sampleStory).set 65 9 (by decide)

/-- Two frames that share three words; a read waits in the newer one, whose result is
stored on the stack. -/
def sampleStack : CallStack where
  values := .ofList [3, 2, 1]
  current :=
    { returnPc := 0xfffffe, store := some 0, locals := [7, 8], arguments := 3, size := 1,
      pending := some (.char { time := 10, routine := 4, store := some 16 }) }
  callers := [{ size := 2 }]

/-- A snapshot of it, compressed and with a remark of odd length. -/
theorem snapshot_round_trip_waiting :
    ∃ restored, parse (capture sampleMemory sampleStack 79 true (some "odd")) sampleMemory
        = .ok restored ∧
      restored.dynamic = sampleMemory.dynamic ∧ restored.pc = 79 ∧
      restored.stack.words = [1, 2, 3] ∧
      restored.stack.frames = [{ size := 2 },
        { returnPc := 0xfffffe, store := some 0, locals := [7, 8], arguments := 3, size := 1 }] :=
  snapshot_round_trip sampleMemory sampleStack 79 true (some "odd") (by decide) (by decide)
    (by decide) (by decide) (by decide) (by decide +kernel)

end Snapshot

end StoryMachine
