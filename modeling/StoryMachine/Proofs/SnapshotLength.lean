import StoryMachine.Proofs.Endurance

/-!
# How long a snapshot can be

The length of a container is written in four bytes.  A snapshot without a remark always
fits, if there are not too many frames: compression at most doubles a memory, and a
frame takes at most 38 bytes besides its words (`length_capture_lt`).
-/

namespace StoryMachine

/-- Dynamic memory ends below 64K, since a word says where. -/
theorem Memory.dynamicCeiling_lt (memory : Memory) : memory.dynamicCeiling < 0x10000 := by
  have hbyte (b : UInt8) : b.toNat < 256 := b.toNat_lt
  have hhigh := hbyte (memory.story.image.getD 0x0e 0)
  have hlow := hbyte (memory.story.image.getD (0x0e + 1) 0)
  simp only [dynamicCeiling, Story.dynamicCeiling, imageWord, imageByte]
  omega

namespace Compression

/-- A run of zeros is written in two bytes for each at the most. -/
theorem length_zeroRun_le (length : Nat) : (zeroRun length).length ≤ 2 * length := by
  have hfull : (List.replicate (length / 256) [(0 : UInt8), 255]).flatten.length
      = 2 * (length / 256) := by simp [Nat.mul_comm]
  unfold zeroRun
  rw [List.length_append, hfull]
  split
  · simp only [List.length_nil]
    omega
  · simp only [List.length_cons, List.length_nil]
    omega

/-- Compressing a byte writes two bytes at the most, at once or later. -/
theorem size_foldl_pushByte_le (written : Array UInt8) (waiting : Nat) (input : List UInt8) :
    (input.foldl pushByte (waiting, written)).2.size
      ≤ written.size + 2 * (waiting + input.length) := by
  induction input generalizing written waiting with
  | nil =>
      simp only [List.foldl_nil]
      omega
  | cons b input ih =>
      rw [List.foldl_cons, List.length_cons]
      by_cases hb : b = 0
      · have h := ih written (waiting + 1)
        simp only [pushByte, hb, if_true]
        omega
      · have h := ih ((written ++ zeroRun waiting).push b) 0
        have hrun := length_zeroRun_le waiting
        have hsize : (written ++ zeroRun waiting).size = written.size + (zeroRun waiting).length := by
          rw [← Array.length_toList, Array.toList_appendList, List.length_append,
            Array.length_toList]
        simp only [pushByte, hb, if_false]
        rw [Array.size_push, hsize] at h
        omega

/-- Compression at most doubles a memory. -/
theorem length_compress_le (current pristine : List UInt8) :
    (compress current pristine).length ≤ 2 * current.length := by
  have h := size_foldl_pushByte_le #[] 0 (List.zipWith (· ^^^ ·) current pristine)
  have hzip : (List.zipWith (· ^^^ ·) current pristine).length ≤ current.length := by
    rw [List.length_zipWith]
    exact Nat.min_le_left _ _
  unfold compress shorten
  rw [Array.length_toList]
  simp only [List.size_toArray, List.length_nil] at h
  omega

end Compression

namespace Snapshot

/-- A frame is written in 38 bytes at the most, and its words in two each. -/
theorem length_framesBytes_le {frames : List Frame} {words : List Word}
    (hframes : ∀ frame ∈ frames, frame.locals.length ≤ 15) :
    (framesBytes frames words).length ≤ 38 * frames.length + 2 * CallStack.owned frames := by
  induction frames generalizing words with
  | nil => simp [framesBytes]
  | cons frame frames ih =>
      have hothers := @ih (words.drop frame.size)
        fun other hother => hframes other (List.mem_cons_of_mem _ hother)
      have hlocals := hframes frame List.mem_cons_self
      have hown := List.length_take_le frame.size words
      have hhead : (frameBytes frame (words.take frame.size)).length
          = 8 + 2 * frame.locals.length + 2 * (words.take frame.size).length := by
        simp only [frameBytes, List.length_append, length_flatMap_toBytes, bytes3, Word.toBytes,
          List.length_cons, List.length_nil]
      rw [framesBytes, List.length_append, hhead, List.length_cons, CallStack.owned_cons]
      omega

/-- Memory is written in two bytes for each of its own at the most. -/
theorem length_memoryChunk_le (memory : Memory) (compressed : Bool) :
    (memoryChunk memory compressed).data.length ≤ 2 * memory.dynamicCeiling := by
  have hdynamic := length_dynamic memory
  unfold memoryChunk
  split
  · rw [← hdynamic]
    exact Compression.length_compress_le _ _
  · simp only
    omega

/-- A snapshot without a remark is not much longer than what it was made from. -/
theorem length_capture_le {memory : Memory} {stack : CallStack} (pc : Nat) (compressed : Bool)
    (hframes : ∀ frame ∈ stack.frames, frame.locals.length ≤ 15) :
    (capture memory stack pc compressed none).length
      ≤ 52 + 2 * memory.dynamicCeiling + 38 * stack.depth
        + 2 * (stack.current.size + CallStack.owned stack.callers) := by
  have hchunk : ∀ {chunk : Chunk}, chunk.id.length = 4 →
      (Container.writeChunk chunk).length ≤ chunk.data.length + 9 := by
    intro chunk hid
    unfold Container.writeChunk
    split
    · simp [hid]
      omega
    · simp [hid]
      omega
  have hstory := @hchunk ⟨storyId, identity memory ++ bytes3 pc⟩
    (by decide : storyId.length = 4)
  have hmemory := @hchunk (memoryChunk memory compressed) (by
    rw [memoryChunk_id]
    cases compressed <;> decide)
  have hstack := @hchunk ⟨framesId, framesBytes stack.frames stack.words⟩
    (by decide : framesId.length = 4)
  have hidentity : (identity memory ++ bytes3 pc).length = 13 := by
    rw [List.length_append, length_identity]
    rfl
  have hdynamic := length_memoryChunk_le memory compressed
  have hrecords := @length_framesBytes_le stack.frames stack.words hframes
  have hcount : stack.frames.length = stack.depth := by
    simp [CallStack.frames, CallStack.depth]
  rw [CallStack.owned_frames] at hrecords
  have hkind : kind.length = 4 := by decide
  rw [capture_eq_write, Container.length_write, hkind]
  simp only [chunksOf, remarkChunks, Option.map_none, Option.toList_none, List.flatMap_cons,
    List.flatMap_nil, List.length_append, List.append_nil]
  simp only at hstory hstack
  omega

/-- **A snapshot without a remark fits its container.** -/
theorem length_capture_lt (memory : Memory) {stack : CallStack} (pc : Nat) (compressed : Bool)
    (hstack : stack.Covered) (hdepth : stack.depth ≤ 0x4000000) :
    (capture memory stack pc compressed none).length < 0x100000008 := by
  have hlength := @length_capture_le memory stack pc compressed hstack.locals_le
  have hceiling := memory.dynamicCeiling_lt
  have hclaimed := hstack.claimed_le
  omega

end Snapshot

end StoryMachine
