import StoryMachine.Proofs.SnapshotRoundTrip

/-!
# Foreign chunks

A save file of another program may have its chunks in any order, chunks between them that mean
nothing here, and bytes behind its end.  The container gives back every chunk that it was written
from, so a snapshot is read from these chunks alone, and of them only from the first with each of
four names (`restoredFrom_congr`).  Neither the order of the chunks (`parse_of_perm`) nor a chunk
with another name (`sameReading_filter`) matters then.
-/

namespace StoryMachine

namespace Container

/-- How many bytes chunks take up: for each a head of eight bytes, its data, and a zero after data
of odd length. -/
def space : List Chunk → Nat
  | [] => 0
  | chunk :: rest => 8 + chunk.data.length + chunk.data.length % 2 + space rest

/-- Chunks that a container can hold: their names have four bytes, and what they take up, with
the kind of the container, is counted in four bytes. -/
structure Framed (chunks : List Chunk) : Prop where
  id_length : ∀ chunk ∈ chunks, chunk.id.length = 4
  total_lt : 4 + space chunks < 0x100000000

variable {chunks others : List Chunk}

/-- Fewer chunks take up less space. -/
theorem space_filter_le (chunks : List Chunk) (keep : Chunk → Bool) :
    space (chunks.filter keep) ≤ space chunks := by
  induction chunks with
  | nil => exact Nat.le_refl _
  | cons chunk rest ih =>
      rw [List.filter_cons, space]
      split
      · exact Nat.add_le_add_left ih _
      · exact Nat.le_trans ih (Nat.le_add_left _ _)

/-- Chunks in another order take up the same space. -/
theorem space_of_perm (h : chunks.Perm others) : space chunks = space others := by
  induction h with
  | nil => rfl
  | cons chunk _ ih => rw [space, space, ih]
  | swap first second rest =>
      simp only [space]
      omega
  | trans _ _ ih ih' => exact ih.trans ih'

/-- No chunk takes up more than all of them. -/
theorem data_length_lt_space {chunk : Chunk} (h : chunk ∈ chunks) :
    chunk.data.length < space chunks := by
  induction h with
  | head rest =>
      rw [space]
      omega
  | tail other _ ih =>
      rw [space]
      omega

/-- Some of the chunks of a container fit in one. -/
theorem Framed.filter (h : Framed chunks) (keep : Chunk → Bool) : Framed (chunks.filter keep) where
  id_length := fun chunk hchunk => h.id_length chunk (List.mem_filter.mp hchunk).1
  total_lt := by
    have hle := space_filter_le chunks keep
    have htotal := h.total_lt
    omega

/-- The chunks of a container fit in one in any order. -/
theorem Framed.of_perm (h : Framed chunks) (hperm : chunks.Perm others) : Framed others where
  id_length := fun chunk hchunk => h.id_length chunk (hperm.mem_iff.mpr hchunk)
  total_lt := by
    rw [← space_of_perm hperm]
    exact h.total_lt

/-- Chunks that a container can hold can be written. -/
theorem Framed.writable (h : Framed chunks) : ∀ chunk ∈ chunks, Writable chunk := by
  intro chunk hchunk
  have hdata := data_length_lt_space hchunk
  have htotal := h.total_lt
  exact ⟨h.id_length chunk hchunk, by omega⟩

/-- Written chunks take up their space. -/
theorem length_flatMap_writeChunk (h : ∀ chunk ∈ chunks, Writable chunk) :
    (chunks.flatMap writeChunk).length = space chunks := by
  induction chunks with
  | nil => rfl
  | cons chunk rest ih =>
      rw [List.flatMap_cons, List.length_append, length_writeChunk (h chunk List.mem_cons_self),
        ih fun other hother => h other (List.mem_cons_of_mem _ hother), space]

/-- A container is as long as its kind and the space of its chunks. -/
theorem Framed.length_write (h : Framed chunks) {kind : List UInt8} (hkind : kind.length = 4) :
    (write kind chunks).length = 12 + space chunks := by
  rw [Container.length_write, hkind, length_flatMap_writeChunk h.writable]
  omega

/-- **A container gives back its chunks.** -/
theorem Framed.chunks_write (h : Framed chunks) {kind : List UInt8} (hkind : kind.length = 4)
    (extra : List UInt8) : Container.chunks kind (write kind chunks ++ extra) = .ok chunks := by
  have htotal := h.total_lt
  refine chunks_write_append extra hkind h.id_length ?_
  rw [h.length_write hkind]
  omega

/-- Of chunks in another order, the only one with a name is the same. -/
theorem find?_of_perm (hperm : chunks.Perm others) {id : List UInt8}
    (honce : (chunks.filter (·.id == id)).length ≤ 1) : find? chunks id = find? others id := by
  have hfilter := hperm.filter (·.id == id)
  have hsame : chunks.filter (·.id == id) = others.filter (·.id == id) := by
    generalize chunks.filter (·.id == id) = named at hfilter honce ⊢
    rcases named with _ | ⟨chunk, _ | ⟨second, rest⟩⟩
    · exact hfilter.nil_eq
    · exact List.singleton_perm.mp hfilter
    · rw [List.length_cons, List.length_cons] at honce
      omega
  rw [find?, find?, ← List.head?_filter, ← List.head?_filter, hsame]

/-- Chunks with other names may be left out. -/
theorem find?_filter {names : List (List UInt8)} {id : List UInt8} (h : id ∈ names) :
    find? (chunks.filter (names.contains ·.id)) id = find? chunks id := by
  rw [find?, find?, List.find?_filter]
  congr 2
  funext chunk
  by_cases hid : chunk.id = id
  · simp [hid, h]
  · simp [hid]

end Container

namespace Snapshot

open Container

/-- The names of the chunks from which a snapshot is read. -/
def namesRead : List (List UInt8) :=
  [storyId, compressedId, plainId, framesId]

/-- Chunks that agree on the first one with each of these names. -/
def SameReading (chunks others : List Chunk) : Prop :=
  ∀ id ∈ namesRead, find? chunks id = find? others id

instance (chunks others : List Chunk) : Decidable (SameReading chunks others) :=
  inferInstanceAs (Decidable (∀ id ∈ namesRead, find? chunks id = find? others id))

variable {chunks others : List Chunk} {memory : Memory}

/-- Order is nothing to a snapshot with one chunk of each name. -/
theorem sameReading_of_perm (hperm : chunks.Perm others)
    (honce : ∀ id ∈ namesRead, (chunks.filter (·.id == id)).length ≤ 1) :
    SameReading chunks others :=
  fun id hid => find?_of_perm hperm (honce id hid)

/-- Chunks with other names are nothing to it either. -/
theorem sameReading_filter (chunks : List Chunk) :
    SameReading chunks (chunks.filter (namesRead.contains ·.id)) :=
  fun _ hid => (find?_filter hid).symm

/-- What chunks restore. -/
def restoredFrom (memory : Memory) (chunks : List Chunk) : Except Fault Restored := do
  let pc ← parsePc memory chunks
  let dynamic ← parseMemory memory chunks
  let stack ← parseFrames chunks
  return { dynamic, stack, pc }

/-- A snapshot is read from the first chunk of each name. -/
theorem restoredFrom_congr (h : SameReading chunks others) :
    restoredFrom memory chunks = restoredFrom memory others := by
  have hpc : parsePc memory chunks = parsePc memory others := by
    simp only [parsePc, h storyId (by decide)]
  have hmemory : parseMemory memory chunks = parseMemory memory others := by
    simp only [parseMemory, h compressedId (by decide), h plainId (by decide)]
  have hframes : parseFrames chunks = parseFrames others := by
    simp only [parseFrames, h framesId (by decide)]
  rw [restoredFrom, restoredFrom, hpc, hmemory, hframes]

/-- What stands in a container is read from its chunks alone. -/
theorem parse_write (h : Framed chunks) (extra : List UInt8) (memory : Memory) :
    parse (write kind chunks ++ extra) memory = restoredFrom memory chunks := by
  have hchunks := h.chunks_write (show kind.length = 4 by decide) extra
  rw [parse, hchunks]
  rfl

/-- Two containers of the same chunks, of which no two that matter share a name, are read alike. -/
theorem parse_of_perm (h : Framed chunks) (hperm : chunks.Perm others)
    (honce : ∀ id ∈ namesRead, (chunks.filter (·.id == id)).length ≤ 1) (memory : Memory) :
    parse (write kind chunks) memory = parse (write kind others) memory := by
  have hhere := parse_write h [] memory
  have hthere := parse_write (h.of_perm hperm) [] memory
  rw [List.append_nil] at hhere hthere
  rw [hhere, hthere, restoredFrom_congr (sameReading_of_perm hperm honce)]

/-- **Foreign chunks are passed over.**  A container is read as exactly the chunks it was written
from, whatever follows its end.  So two containers that agree on the first chunk of each name that
a snapshot is read from give the same snapshot or the same fault, and all chunks with other names
may be left out. -/
theorem foreign_chunks_skipped (hchunks : Framed chunks) (hothers : Framed others)
    (extra more : List UInt8) :
    Container.chunks kind (write kind chunks ++ extra) = .ok chunks ∧
    (SameReading chunks others → ∀ memory,
      parse (write kind chunks ++ extra) memory = parse (write kind others ++ more) memory) ∧
    ∀ memory, parse (write kind chunks ++ extra) memory
      = parse (write kind (chunks.filter (namesRead.contains ·.id))) memory := by
  refine ⟨hchunks.chunks_write (by decide) extra, fun hsame memory => ?_, fun memory => ?_⟩
  · rw [parse_write hchunks, parse_write hothers, restoredFrom_congr hsame]
  · have hknown := parse_write (hchunks.filter (namesRead.contains ·.id)) [] memory
    rw [List.append_nil] at hknown
    rw [parse_write hchunks, hknown, restoredFrom_congr (sameReading_filter chunks)]

/-- The chunks of a plain snapshot. -/
def plainChunks : List Chunk :=
  [⟨storyId, identity sampleMemory ++ bytes3 79⟩, ⟨plainId, sampleMemory.dynamic⟩,
    ⟨framesId, framesBytes sampleStack.frames sampleStack.words⟩]

/-- The same chunks as another program might write them: frames first, a name and an author in
between, and a second copy of the frames that is spoilt. -/
def foreignChunks : List Chunk :=
  [⟨name "AUTH", [65, 110, 110]⟩, ⟨framesId, framesBytes sampleStack.frames sampleStack.words⟩,
    ⟨name "IntD", []⟩, ⟨plainId, sampleMemory.dynamic⟩, ⟨framesId, [1]⟩,
    ⟨storyId, identity sampleMemory ++ bytes3 79⟩]

/-- They restore the same, also with two bytes behind the end. -/
theorem foreign_chunks_skipped_reordered :
    Framed plainChunks ∧ Framed foreignChunks ∧ SameReading plainChunks foreignChunks ∧
    (parse (write kind plainChunks ++ []) sampleMemory).toOption.isSome = true ∧
    parse (write kind plainChunks ++ []) sampleMemory
      = parse (write kind foreignChunks ++ [7, 7]) sampleMemory :=
  have hplain : Framed plainChunks := ⟨by decide, by decide⟩
  have hforeign : Framed foreignChunks := ⟨by decide, by decide⟩
  have hsame : SameReading plainChunks foreignChunks := by decide +kernel
  ⟨hplain, hforeign, hsame, by decide +kernel,
    (foreign_chunks_skipped hplain hforeign [] [7, 7]).2.1 hsame sampleMemory⟩

end Snapshot

end StoryMachine
