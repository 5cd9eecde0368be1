import StoryMachine.Proofs.Compression

/-!
# Which compressed data has a memory

Read from left to right, compressed data is a sequence of bytes that stand for
themselves and of runs, a zero and a count each.  `Expands` says what such data
stands for.  The only data that is no such sequence is `BreaksOff`: it ends right
after a zero, whose count is missing.

Every list of bytes is one or the other (`expands_or_breaksOff`) and reading tells
which (`expand_of_expands`, `expand_of_breaksOff`), so `decompress` turns down
exactly the data that breaks off and the data that stands for more bytes than the
memory has.
-/

namespace StoryMachine.Compression

/-- What compressed data stands for, read from left to right. -/
inductive Expands : List UInt8 → List UInt8 → Prop
  | nil : Expands [] []
  | byte {b : UInt8} {data bytes : List UInt8} :
      b ≠ 0 → Expands data bytes → Expands (b :: data) (b :: bytes)
  | run {n : UInt8} {data bytes : List UInt8} :
      Expands data bytes → Expands (0 :: n :: data) (List.replicate (n.toNat + 1) 0 ++ bytes)

/-- The data ends right after a zero that starts a run. -/
def BreaksOff (data : List UInt8) : Prop :=
  ∃ front bytes, Expands front bytes ∧ data = front ++ [0]

/-- The data stands for more than `size` bytes. -/
def Overfills (data : List UInt8) (size : Nat) : Prop :=
  ∃ bytes, Expands data bytes ∧ size < bytes.length

/-- Data that ends in a zero run breaks off behind any byte. -/
theorem BreaksOff.byte {b : UInt8} {data : List UInt8} (hb : b ≠ 0) :
    BreaksOff data → BreaksOff (b :: data) := by
  rintro ⟨front, bytes, hfront, rfl⟩
  exact ⟨b :: front, b :: bytes, hfront.byte hb, rfl⟩

/-- Data that ends in a zero run breaks off behind any run. -/
theorem BreaksOff.run {n : UInt8} {data : List UInt8} :
    BreaksOff data → BreaksOff (0 :: n :: data) := by
  rintro ⟨front, bytes, hfront, rfl⟩
  exact ⟨0 :: n :: front, _, hfront.run, rfl⟩

/-- Data is a sequence of bytes and runs, or it breaks off.  Only how the reader takes the data
apart matters here, not what it has put together. -/
theorem expands_or_breaksOff (data : List UInt8) :
    (∃ bytes, Expands data bytes) ∨ BreaksOff data := by
  induction (#[] : Array UInt8), data using expandOnto.induct with
  | case1 => exact .inl ⟨[], .nil⟩
  | case2 _ b data hb ih =>
      rcases ih with ⟨bytes, h⟩ | h
      · exact .inl ⟨b :: bytes, h.byte hb⟩
      · exact .inr (h.byte hb)
  | case3 _ b hb =>
      obtain rfl : b = 0 := by simpa using hb
      exact .inr ⟨[], [], .nil, rfl⟩
  | case4 _ b hb n data ih =>
      obtain rfl : b = 0 := by simpa using hb
      rcases ih with ⟨bytes, h⟩ | h
      · exact .inl ⟨_, h.run⟩
      · exact .inr h.run

/-! ## What the reader makes of it -/

/-- What data stands for is what reading it appends. -/
theorem Expands.appends {data bytes : List UInt8} (h : Expands data bytes) :
    Appends data bytes.toArray := by
  induction h with
  | nil => exact Appends.nil
  | byte hb _ ih => simpa using (appends_byte hb).append ih
  | @run n data bytes _ ih =>
      have h := (appends_run n).append ih
      rw [← List.toArray_replicate, List.append_toArray] at h
      exact h

/-- Data that stands for bytes is expanded to them. -/
theorem expand_of_expands {data bytes : List UInt8} (h : Expands data bytes) :
    expand data = .ok bytes := by
  have hread := h.appends #[] []
  simp only [List.append_nil, Array.empty_append, expandOnto] at hread
  simp [expand, hread, Except.map]

/-- Data that breaks off is not expanded. -/
theorem expand_of_breaksOff {data : List UInt8} (h : BreaksOff data) :
    expand data = .error (corrupt "CMEM ENDS IN A ZERO RUN") := by
  obtain ⟨front, bytes, hfront, rfl⟩ := h
  have hread := hfront.appends #[] [0]
  rw [expandOnto.eq_def _ [0]] at hread
  simp only [ne_eq, not_true_eq_false, if_false] at hread
  simp [expand, hread, Except.map]

/-- Data stands for one list of bytes only. -/
theorem Expands.unique {data bytes others : List UInt8} (h : Expands data bytes)
    (h' : Expands data others) : bytes = others := by
  simpa [expand_of_expands h'] using (expand_of_expands h).symm

/-- A list of bytes that is filled up with zeros to `size`. -/
def fillUp (bytes : List UInt8) (size : Nat) : List UInt8 :=
  bytes ++ List.replicate (size - bytes.length) 0

/-- Bytes that are filled up have the length they are filled up to. -/
theorem length_fillUp {bytes : List UInt8} {size : Nat} (h : bytes.length ≤ size) :
    (fillUp bytes size).length = size := by
  simp only [fillUp, List.length_append, List.length_replicate]
  omega

/-- Data that breaks off is rejected, and said to. -/
theorem decompress_of_breaksOff {data : List UInt8} (h : BreaksOff data)
    (original : List UInt8) :
    decompress data original = .error (corrupt "CMEM ENDS IN A ZERO RUN") := by
  simp [decompress, expand_of_breaksOff h, bind, Except.bind]

/-- Data that stands for too many bytes is rejected, and their number told. -/
theorem decompress_of_overfills {data original : List UInt8}
    (h : Overfills data original.length) :
    ∃ bytes, Expands data bytes ∧
      decompress data original
        = .error (corrupt s!"CMEM EXPANDS TO {bytes.length} BYTES") := by
  obtain ⟨bytes, hbytes, hmore⟩ := h
  exact ⟨bytes, hbytes, by
    simp [decompress, expand_of_expands hbytes, bind, Except.bind, hmore, throw,
      throwThe, MonadExceptOf.throw]⟩

/-- Data that stands for few enough bytes gives them, filled up, as differences from the original.
-/
theorem decompress_of_expands {data bytes original : List UInt8} (h : Expands data bytes)
    (hfits : bytes.length ≤ original.length) :
    decompress data original
      = .ok (List.zipWith (· ^^^ ·) (fillUp bytes original.length) original) := by
  simp only [decompress, expand_of_expands h, bind, Except.bind,
    if_neg (Nat.not_lt.mpr hfits), fillUp]
  rfl

/-- **Compressed memory.**  Memory as long as what it started as comes back from
its compressed form.  Of all data, decompression turns down exactly what breaks off
after a zero and what stands for more bytes than the memory has; from any other data
it makes a memory as long as the original, the exclusive or of the original and of
what the data stands for. -/
theorem compression_round_trip (current data original : List UInt8) :
    (current.length = original.length →
      decompress (compress current original) original = .ok current) ∧
    ((∃ fault, decompress data original = .error fault) ↔
      BreaksOff data ∨ Overfills data original.length) ∧
    (¬ (BreaksOff data ∨ Overfills data original.length) →
      ∃ bytes memory, Expands data bytes ∧
        decompress data original = .ok memory ∧
        memory = List.zipWith (· ^^^ ·) (fillUp bytes original.length) original ∧
        memory.length = original.length) := by
  have hmade (h : ¬ (BreaksOff data ∨ Overfills data original.length)) :
      ∃ bytes, Expands data bytes ∧ bytes.length ≤ original.length ∧
        decompress data original
          = .ok (List.zipWith (· ^^^ ·) (fillUp bytes original.length) original) := by
    rw [not_or] at h
    obtain ⟨bytes, hbytes⟩ := (expands_or_breaksOff data).resolve_right h.1
    have hfits : bytes.length ≤ original.length :=
      Nat.not_lt.mp fun hmore => h.2 ⟨bytes, hbytes, hmore⟩
    exact ⟨bytes, hbytes, hfits, decompress_of_expands hbytes hfits⟩
  refine ⟨decompress_compress, ⟨?_, ?_⟩, ?_⟩
  · rintro ⟨fault, hfault⟩
    refine Classical.byContradiction fun hneither => ?_
    obtain ⟨bytes, -, -, hok⟩ := hmade hneither
    rw [hok] at hfault
    cases hfault
  · rintro (hbreaks | hmore)
    · exact ⟨_, decompress_of_breaksOff hbreaks original⟩
    · obtain ⟨bytes, -, hfault⟩ := decompress_of_overfills hmore
      exact ⟨_, hfault⟩
  · intro h
    obtain ⟨bytes, hbytes, hfits, hok⟩ := hmade h
    refine ⟨bytes, _, hbytes, hok, rfl, ?_⟩
    rw [List.length_zipWith, length_fillUp hfits, Nat.min_self]

/-- Memory that differs from an image of sevens in two places, behind runs of 513
and of 256 bytes that are the same, with one more such byte at the end. -/
def pieces : List UInt8 :=
  List.replicate 513 7 ++ [6] ++ List.replicate 256 7 ++ [248, 7]

/-- The runs take three counts and one, the byte at the end takes none, and all of
it comes back.  Without its last count the same data is turned down, and so it is
where it stands for a byte more than the memory has. -/
theorem compression_round_trip_pieces :
    compress pieces (List.replicate 772 7) = [0, 255, 0, 255, 0, 0, 1, 0, 255, 255] ∧
    decompress (compress pieces (List.replicate 772 7)) (List.replicate 772 7) = .ok pieces ∧
    (∃ fault, decompress [0, 255, 1, 0] (List.replicate 772 7) = .error fault) ∧
    (∃ fault, decompress [0, 1, 9] [7, 7] = .error fault) := by
  refine ⟨by decide +kernel, ?_, ?_, ?_⟩
  · exact (compression_round_trip pieces [] (List.replicate 772 7)).1 (by decide +kernel)
  · have hbreaks : BreaksOff [0, 255, 1, 0] :=
      ⟨[0, 255, 1], _, .run (.byte (by decide) .nil), rfl⟩
    exact (compression_round_trip [] _ _).2.1.mpr (.inl hbreaks)
  · have hmore : Overfills [0, 1, 9] [7, 7].length :=
      ⟨_, .run (.byte (by decide) .nil), by decide⟩
    exact (compression_round_trip [] _ _).2.1.mpr (.inr hmore)

end StoryMachine.Compression
