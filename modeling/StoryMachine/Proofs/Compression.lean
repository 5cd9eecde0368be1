import StoryMachine.Snapshot.Compression

/-!
# Compressed memory gives back the memory

Expanding works from left to right onto what is already there, so a piece of
compressed data can be described by what it appends: `Appends data bytes` says
that reading `data` puts exactly `bytes` behind whatever came before and goes on
with the rest of the input.  The run of zeros that is still waiting when
compression ends is never written; it is made up by the padding of `decompress`.

The main statement is `decompress_compress`: for memory as long as what it
started as, decompressing the compressed memory gives it back.
-/

namespace StoryMachine.Compression

/-- Reading `data` puts exactly `bytes` behind what came before. -/
def Appends (data : List UInt8) (bytes : Array UInt8) : Prop :=
  ∀ (out : Array UInt8) (rest : List UInt8),
    expandOnto out (data ++ rest) = expandOnto (out ++ bytes) rest

/-- No data puts nothing behind what came before. -/
theorem Appends.nil : Appends [] #[] := by
  intro out rest
  simp

/-- Data that is read in two parts puts the bytes of both. -/
theorem Appends.append {data more : List UInt8} {bytes others : Array UInt8}
    (h : Appends data bytes) (h' : Appends more others) :
    Appends (data ++ more) (bytes ++ others) := by
  intro out rest
  rw [List.append_assoc, h, h', Array.append_assoc]

/-- A byte other than zero stands for itself. -/
theorem appends_byte {b : UInt8} (hb : b ≠ 0) : Appends [b] #[b] := by
  intro out rest
  rw [List.singleton_append, expandOnto.eq_def]
  simp only [if_pos hb, Array.push_eq_append]

/-- A zero and a count stand for one zero more than the count. -/
theorem appends_run (n : UInt8) : Appends [0, n] (Array.replicate (n.toNat + 1) 0) := by
  intro out rest
  simp only [List.cons_append, List.nil_append]
  rw [expandOnto, if_neg (by simp)]

/-- The full pieces of a run of zeros. -/
theorem appends_fullRuns (count : Nat) :
    Appends (List.replicate count [0, 255]).flatten (Array.replicate (256 * count) 0) := by
  induction count with
  | zero => exact Appends.nil
  | succ count ih =>
      have h := (appends_run 255).append ih
      rw [Array.replicate_append_replicate] at h
      have hlen : (255 : UInt8).toNat + 1 + 256 * count = 256 * (count + 1) := by
        have : (255 : UInt8).toNat = 255 := rfl
        omega
      rw [hlen] at h
      simpa [List.replicate_succ] using h

/-- A run of zeros of any length, however many pieces it takes, is written out as
that many zeros. -/
theorem appends_zeroRun (length : Nat) :
    Appends (zeroRun length) (Array.replicate length 0) := by
  have hfull := appends_fullRuns (length / 256)
  unfold zeroRun
  split
  · have : 256 * (length / 256) = length := by omega
    rw [this] at hfull
    simpa using hfull
  · have h := hfull.append (appends_run (length % 256 - 1).toUInt8)
    rw [Array.replicate_append_replicate] at h
    have hlast : ((length % 256 - 1).toUInt8).toNat = length % 256 - 1 := by
      simp
      omega
    have hlen : 256 * (length / 256) + ((length % 256 - 1).toUInt8.toNat + 1) = length := by
      omega
    rwa [hlen] at h

/-- **Invariant of compression.**  What has been written expands to some bytes,
and these with the zeros that wait are the bytes taken so far. -/
theorem foldl_pushByte {written : Array UInt8} {bytes : Array UInt8}
    (h : Appends written.toList bytes) (waiting : Nat) (input : List UInt8) :
    ∃ bytes' : Array UInt8,
      Appends (input.foldl pushByte (waiting, written)).2.toList bytes' ∧
      bytes' ++ Array.replicate (input.foldl pushByte (waiting, written)).1 0
        = bytes ++ Array.replicate waiting 0 ++ input.toArray := by
  induction input generalizing written bytes waiting with
  | nil => exact ⟨bytes, h, by simp⟩
  | cons b input ih =>
      by_cases hb : b = 0
      · obtain ⟨bytes', hwritten, hbytes⟩ := ih h (waiting + 1)
        refine ⟨bytes', by simpa [pushByte, hb] using hwritten, ?_⟩
        simp only [List.foldl_cons, pushByte, hb, if_true]
        rw [hbytes, Array.replicate_succ]
        simp
      · have hnext : Appends ((written ++ zeroRun waiting).push b).toList
            (bytes ++ Array.replicate waiting 0 ++ #[b]) := by
          simpa using (h.append (appends_zeroRun waiting)).append (appends_byte hb)
        obtain ⟨bytes', hwritten, hbytes⟩ := ih hnext 0
        refine ⟨bytes', by simpa [pushByte, hb] using hwritten, ?_⟩
        simp only [List.foldl_cons, pushByte, hb, if_false]
        rw [hbytes]
        simp

/-- Shortened bytes expand to the bytes without some zeros at their end. -/
theorem expand_shorten (bytes : List UInt8) :
    ∃ short trailing,
      expand (shorten bytes) = .ok short ∧ short ++ List.replicate trailing 0 = bytes := by
  have hempty : Appends (#[] : Array UInt8).toList #[] := Appends.nil
  obtain ⟨short, hwritten, hbytes⟩ := foldl_pushByte hempty 0 bytes
  refine ⟨short.toList, (bytes.foldl pushByte (0, #[])).1, ?_, ?_⟩
  · have h := hwritten #[] []
    simp only [List.append_nil, Array.empty_append, expandOnto] at h
    simp [expand, shorten, h, Except.map]
  · have h := congrArg Array.toList hbytes
    simpa using h

/-- Exclusive or with the same bytes twice changes nothing. -/
theorem zipWith_xor_xor {current pristine : List UInt8}
    (h : current.length = pristine.length) :
    List.zipWith (· ^^^ ·) (List.zipWith (· ^^^ ·) current pristine) pristine = current := by
  induction current generalizing pristine with
  | nil => simp
  | cons b current ih =>
      cases pristine with
      | nil => simp at h
      | cons p pristine =>
          simp only [List.zipWith_cons_cons, ih (by simpa using h)]
          rw [UInt8.xor_assoc, UInt8.xor_self, UInt8.xor_zero]

/-- **Compression loses nothing.**  Memory that is as long as what it started as
comes back from its compressed form. -/
theorem decompress_compress {current pristine : List UInt8}
    (h : current.length = pristine.length) :
    decompress (compress current pristine) pristine = .ok current := by
  obtain ⟨short, trailing, hexpand, hshort⟩ :=
    expand_shorten (List.zipWith (· ^^^ ·) current pristine)
  have hlength : short.length + trailing = pristine.length := by
    have := congrArg List.length hshort
    simp only [List.length_append, List.length_replicate, List.length_zipWith, h,
      Nat.min_self] at this
    exact this
  have hfits : ¬ pristine.length < short.length := by omega
  have hpad : pristine.length - short.length = trailing := by omega
  simp only [decompress, compress, hexpand, bind, Except.bind, if_neg hfits, hpad, hshort]
  rw [zipWith_xor_xor h]
  rfl

end StoryMachine.Compression
