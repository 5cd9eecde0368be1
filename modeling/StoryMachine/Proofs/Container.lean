import StoryMachine.Snapshot.Container

/-!
# Containers give back their chunks

The reader of a container walks over its bytes with a count of bytes to pass
over; `chunksFrom_skip` turns that count into a plain `drop`.  One chunk in front
of anything else is read as that chunk and the reader then stands right behind it
(`chunksFrom_writeChunk`), whatever the parity of its length.  The rest follows by
induction over the chunks.

The main statement is `chunks_write_append`: a container is read as exactly the
chunks it was written from, and bytes after its end change nothing.
-/

namespace StoryMachine.Container

/-- A chunk that a container can hold: a four byte name and a length that fits
into four bytes. -/
structure Writable (chunk : Chunk) : Prop where
  id_length : chunk.id.length = 4
  data_length : chunk.data.length < 0x100000000

@[simp] theorem length_bytes4 (n : Nat) : (bytes4 n).length = 4 := rfl

/-- A number that fits in four bytes is read back from them. -/
theorem number4_bytes4 {n : Nat} (h : n < 0x100000000) (rest : List UInt8) :
    number4 (bytes4 n ++ rest) = n := by
  simp [number4, bytes4]
  omega

/-- Passing over bytes is dropping them. -/
theorem chunksFrom_skip (skip place : Nat) (bytes : List UInt8) :
    chunksFrom skip place bytes = chunksFrom 0 (place + skip) (bytes.drop skip) := by
  induction bytes generalizing skip place with
  | nil => simp [chunksFrom]
  | cons b bytes ih =>
      cases skip with
      | zero => rfl
      | succ skip =>
          rw [chunksFrom, ih, List.drop_succ_cons]
          congr 1
          omega

/-- A chunk takes a head of eight bytes, its data, and a zero after data of odd length. -/
theorem length_writeChunk {chunk : Chunk} (h : Writable chunk) :
    (writeChunk chunk).length = 8 + chunk.data.length + chunk.data.length % 2 := by
  unfold writeChunk
  have := h.id_length
  split
  · simp
    omega
  · simp
    omega

/-- A chunk as its four fields, in front of more bytes. -/
theorem writeChunk_append (chunk : Chunk) (rest : List UInt8) :
    writeChunk chunk ++ rest
      = chunk.id ++ (bytes4 chunk.data.length ++ (chunk.data
          ++ ((if chunk.data.length % 2 = 1 then [0] else []) ++ rest))) := by
  simp [writeChunk]

/-- **One chunk.**  A chunk in front of other bytes is read as that chunk, and
reading goes on right behind it. -/
theorem chunksFrom_writeChunk {chunk : Chunk} (h : Writable chunk) (place : Nat)
    (rest : List UInt8) :
    chunksFrom 0 place (writeChunk chunk ++ rest)
      = (chunksFrom 0 (place + (writeChunk chunk).length) rest).map (chunk :: ·) := by
  obtain ⟨id, data⟩ := chunk
  obtain ⟨hid, hdata⟩ := h
  obtain ⟨b, tail, hbytes⟩ : ∃ b tail, writeChunk ⟨id, data⟩ ++ rest = b :: tail := by
    cases id with
    | nil => simp at hid
    | cons b id => exact ⟨b, _, by simp [writeChunk]; rfl⟩
  have hwritten : (writeChunk ⟨id, data⟩).length = 8 + data.length + data.length % 2 :=
    length_writeChunk ⟨hid, hdata⟩
  have hlength : (b :: tail).length = 8 + data.length + data.length % 2 + rest.length := by
    rw [← hbytes, List.length_append, hwritten]
  have hnumber : number4 ((b :: tail).drop 4) = data.length := by
    rw [← hbytes, writeChunk_append, List.drop_left' hid]
    exact number4_bytes4 hdata _
  have hname : (b :: tail).take 4 = id := by
    rw [← hbytes, writeChunk_append, List.take_left' hid]
  have hbody : ((b :: tail).drop 8).take data.length = data := by
    rw [← hbytes, writeChunk_append, ← List.append_assoc,
      List.drop_left' (by simp [hid]), List.take_left' rfl]
  have hrest : tail.drop (7 + data.length + data.length % 2) = rest := by
    have : tail.drop (7 + data.length + data.length % 2)
        = (b :: tail).drop (8 + data.length + data.length % 2) := by
      rw [show 8 + data.length + data.length % 2 = 7 + data.length + data.length % 2 + 1 by omega,
        List.drop_succ_cons]
    rw [this, ← hbytes, List.drop_left' hwritten]
  rw [hbytes, chunksFrom, hnumber, if_neg (by omega), if_neg (by omega), hname, hbody,
    chunksFrom_skip, hrest, hwritten]
  rw [show place + 1 + (7 + data.length + data.length % 2)
    = place + (8 + data.length + data.length % 2) by omega]
  rfl

/-- Chunks one after another are read as these chunks. -/
theorem chunksFrom_flatMap {chunks : List Chunk} (h : ∀ chunk ∈ chunks, Writable chunk)
    (place : Nat) : chunksFrom 0 place (chunks.flatMap writeChunk) = .ok chunks := by
  induction chunks generalizing place with
  | nil => rfl
  | cons chunk chunks ih =>
      rw [List.flatMap_cons, chunksFrom_writeChunk (h chunk List.mem_cons_self),
        ih fun other hother => h other (List.mem_cons_of_mem _ hother)]
      rfl

/-- A container takes a head of eight bytes, its kind and its chunks. -/
theorem length_write (kind : List UInt8) (chunks : List Chunk) :
    (write kind chunks).length = 8 + (kind.length + (chunks.flatMap writeChunk).length) := by
  have : (name "FORM").length = 4 := by decide
  simp [write, this]
  omega

/-- Data inside a container is shorter than the container. -/
theorem data_length_lt_write (kind : List UInt8) {chunks : List Chunk} {chunk : Chunk}
    (h : chunk ∈ chunks) : chunk.data.length + 8 ≤ (write kind chunks).length := by
  have hle : (writeChunk chunk).length ≤ (chunks.flatMap writeChunk).length := by
    rw [List.flatMap_def]
    exact (List.sublist_flatten_of_mem (List.mem_map_of_mem h)).length_le
  have hdata : chunk.data.length ≤ (writeChunk chunk).length := by
    simp [writeChunk]
    omega
  rw [length_write]
  omega

/-- **Containers round trip.**  A container of chunks with four byte names is read
as exactly these chunks, whatever bytes follow its end, as long as its length fits
into four bytes. -/
theorem chunks_write_append {kind : List UInt8} {chunks : List Chunk} (extra : List UInt8)
    (hkind : kind.length = 4) (hids : ∀ chunk ∈ chunks, chunk.id.length = 4)
    (hlength : (write kind chunks).length < 0x100000008) :
    Container.chunks kind (write kind chunks ++ extra) = .ok chunks := by
  have hform : (name "FORM").length = 4 := by decide
  have hwritable : ∀ chunk ∈ chunks, Writable chunk := by
    intro chunk hchunk
    refine ⟨hids chunk hchunk, ?_⟩
    have := data_length_lt_write kind hchunk
    omega
  have hparts : write kind chunks ++ extra
      = name "FORM" ++ (bytes4 (kind ++ chunks.flatMap writeChunk).length
          ++ (kind ++ (chunks.flatMap writeChunk ++ extra))) := by
    simp [write]
  have hlen := length_write kind chunks
  have hend : declaredEnd (write kind chunks ++ extra) = (write kind chunks).length := by
    have hbody : (kind ++ chunks.flatMap writeChunk).length < 0x100000000 := by
      rw [List.length_append]
      omega
    rw [declaredEnd, hparts, List.drop_left' hform, number4_bytes4 hbody, hlen,
      List.length_append]
  have hkinds : isOfKind kind (write kind chunks ++ extra) = true := by
    have htake : (write kind chunks ++ extra).take 4 = name "FORM" := by
      rw [hparts, List.take_left' hform]
    have hdrop : ((write kind chunks ++ extra).drop 8).take 4 = kind := by
      rw [hparts, ← List.append_assoc, List.drop_left' (by simp [hform]), List.take_left' hkind]
    simp only [isOfKind, htake, hdrop, beq_self_eq_true, Bool.and_true, decide_eq_true_eq,
      List.length_append]
    omega
  have hbody : (write kind chunks).drop 12 = chunks.flatMap writeChunk := by
    rw [show write kind chunks = (name "FORM" ++ bytes4 (kind ++ chunks.flatMap writeChunk).length
      ++ kind) ++ chunks.flatMap writeChunk by simp [write]]
    exact List.drop_left' (by simp [hform, hkind])
  rw [Container.chunks, hkinds, hend, if_neg (by simp), if_neg (by simp), List.take_left' rfl,
    hbody]
  exact chunksFrom_flatMap hwritable 12

end StoryMachine.Container
