import StoryMachine.Proofs.Running
import StoryMachine.Proofs.SnapshotRoundTrip

/-!
# What an accepted snapshot is like

Any bytes may be offered as a snapshot.  Those that are accepted bring exactly as
much dynamic memory as the story has, an address within memory, and a call stack
that could be stored again (`accepted_of_parse`).
-/

namespace StoryMachine.Snapshot

/-- Three bytes give a number below 2^24. -/
theorem number3_lt (bytes : List UInt8) : number3 bytes < 0x1000000 := by
  have hbyte : ∀ b : UInt8, b.toNat < 256 := fun b => b.toNat_lt
  rcases bytes with _ | ⟨a, _ | ⟨b, _ | ⟨c, rest⟩⟩⟩
  · decide
  · have := hbyte a
    simp [number3]
    omega
  · have := hbyte a
    have := hbyte b
    simp [number3]
    omega
  · have := hbyte a
    have := hbyte b
    have := hbyte c
    simp [number3]
    omega

/-- A byte has eight bits. -/
theorem bitCount_le (b : UInt8) : bitCount b ≤ 8 :=
  Nat.le_trans List.countP_le_length (Nat.le_of_eq List.length_range)

/-- The four low bits of the flags count the locals. -/
theorem localCount_le (flags : UInt8) : (flags &&& 0x0f).toNat ≤ 15 := by
  rw [UInt8.toNat_and]
  exact Nat.and_le_right

/-- Whatever bytes are read as frames, each frame could be stored again. -/
theorem storable_of_framesFrom {skip : Nat} {bytes : List UInt8}
    {shares : List (Frame × List Word)} (h : framesFrom skip bytes = .ok shares) :
    ∀ share ∈ shares, share.1.Storable := by
  fun_induction framesFrom skip bytes generalizing shares with
  | case1 =>
      obtain rfl := Except.ok.inj h
      exact fun share hshare => nomatch hshare
  | case2 _ _ _ ih => exact ih h
  | case3 => exact nomatch h
  | case4 _ _ here _ _ _ flags _ arguments _ _ _ _ localCount _ words =>
      rename_i ih
      obtain ⟨others, hothers, h⟩ := bind_eq_ok.mp h
      obtain rfl := Except.ok.inj h
      have hlocals : (words.take localCount).length ≤ 15 :=
        Nat.le_trans (List.length_take_le localCount words) (localCount_le flags)
      intro share hshare
      rcases List.mem_cons.mp hshare with rfl | hshare
      · exact ⟨number3_lt here, hlocals, bitCount_le arguments⟩
      · exact ih hothers share hshare
  | case5 => exact nomatch h

/-- A stack that is put together owns all its words. -/
theorem storable_of_ofParts {frames : List Frame} {words : List Word} {stack : CallStack}
    (h : CallStack.ofParts frames words = .ok stack) (hframes : ∀ frame ∈ frames, frame.Storable) :
    stack.Storable := by
  unfold CallStack.ofParts at h
  simp only at h
  split at h
  case h_2 => exact nomatch h
  case h_1 current callers hreverse =>
    split at h
    case isTrue => exact nomatch h
    case isFalse howned =>
      split at h
      case isTrue => exact nomatch h
      case isFalse hlimit =>
        obtain rfl := Except.ok.inj h
        have heq : (current :: callers).reverse = frames := by
          rw [← hreverse, List.reverse_reverse]
        have hlength : words.reverse.reverse.length = words.length := by simp
        refine ⟨?_, ?_, ?_⟩
        · show CallStack.owned (current :: callers).reverse = words.reverse.reverse.length
          rw [hlength, heq, CallStack.owned, Classical.not_not.mp howned]
        · show words.reverse.reverse.length ≤ 65535
          rw [hlength]
          exact Nat.not_lt.mp hlimit
        · intro frame hframe
          exact hframes frame (heq ▸ hframe)

/-- A stack that was read from a snapshot fits in one. -/
theorem storable_of_parseStack {data : List UInt8} {stack : CallStack}
    (h : parseStack data = .ok stack) : stack.Storable := by
  obtain ⟨shares, hshares, h⟩ := bind_eq_ok.mp h
  refine storable_of_ofParts h fun frame hframe => ?_
  obtain ⟨share, hshare, rfl⟩ := List.mem_map.mp hframe
  exact storable_of_framesFrom hshares share hshare

/-- Decompressed memory is as long as the original. -/
theorem length_of_decompress {data pristine bytes : List UInt8}
    (h : Compression.decompress data pristine = .ok bytes) : bytes.length = pristine.length := by
  obtain ⟨expanded, -, h⟩ := bind_eq_ok.mp h
  split at h
  · exact nomatch h
  · obtain rfl := Except.ok.inj h
    simp
    omega

/-- The memory of a snapshot is as long as dynamic memory. -/
theorem length_of_parseMemory {memory : Memory} {chunks : List Chunk} {dynamic : List UInt8}
    (h : parseMemory memory chunks = .ok dynamic) : dynamic.length = memory.dynamicCeiling := by
  unfold parseMemory at h
  split at h
  · exact (length_of_decompress h).trans (length_pristineDynamic memory)
  · split at h
    case isTrue => exact nomatch h
    case isFalse hlength =>
        obtain rfl := Except.ok.inj h
        exact Classical.not_not.mp hlength
  · exact nomatch h

/-- The address of a snapshot lies in memory. -/
theorem lt_of_parsePc {memory : Memory} {chunks : List Chunk} {pc : Nat}
    (h : parsePc memory chunks = .ok pc) : pc < memory.size := by
  unfold parsePc at h
  split at h
  · exact nomatch h
  · split at h
    case isTrue => exact nomatch h
    case isFalse =>
      split at h
      case isTrue => exact nomatch h
      case isFalse =>
        simp only at h
        split at h
        case isTrue => exact nomatch h
        case isFalse hsize =>
            obtain rfl := Except.ok.inj h
            exact Nat.not_le.mp hsize

/-- What can be said of an accepted snapshot. -/
structure Accepted (memory : Memory) (restored : Restored) : Prop where
  length_dynamic : restored.dynamic.length = memory.dynamicCeiling
  pc_lt : restored.pc < memory.size
  storable : restored.stack.Storable

/-- **Accepted snapshots make sense**, whoever made them. -/
theorem accepted_of_parse {bytes : List UInt8} {memory : Memory} {restored : Restored}
    (h : parse bytes memory = .ok restored) : Accepted memory restored := by
  obtain ⟨chunks, -, h⟩ := bind_eq_ok.mp h
  obtain ⟨pc, hpc, h⟩ := bind_eq_ok.mp h
  obtain ⟨dynamic, hdynamic, h⟩ := bind_eq_ok.mp h
  obtain ⟨stack, hstack, h⟩ := bind_eq_ok.mp h
  obtain rfl := Except.ok.inj h
  unfold parseFrames at hstack
  split at hstack
  case h_1 data _ =>
      exact ⟨length_of_parseMemory hdynamic, lt_of_parsePc hpc, storable_of_parseStack hstack⟩
  case h_2 => exact nomatch hstack

end StoryMachine.Snapshot
