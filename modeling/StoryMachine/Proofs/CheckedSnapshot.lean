import StoryMachine.Proofs.CheckedStack
import StoryMachine.Proofs.FrameRecords
import StoryMachine.Snapshot

/-!
# Snapshots with checked positions

A snapshot is read by position (`Snapshot.parseAt`), and here the positions are also sums in
64 bits.  No sum leaves that range, however long the bytes are: the lengths in them have 32
bits each, and the walks end where the container or its chunk does.  Written, a snapshot
counts the zeros of a run, which are no more than dynamic memory has, and shifts one bit by
the number of arguments of a frame, which is at most 8.
-/

namespace StoryMachine

open Checked

/-! ## Compressed memory -/

namespace CheckedCompression

open Compression

/-- A run of zeros, in pieces of at most 256. -/
def zeroRun (length : Nat) : Checked (List UInt8) :=
  if length = 0 then pure []
  else do
    let piece := min length 256
    let last ← difference piece 1
    let _ ← difference length piece
    let others ← zeroRun (length - piece)
    return 0 :: last.toUInt8 :: others
  termination_by length

/-- Takes one byte: the zeros that wait to be written, and what is written. -/
def pushByte (state : Nat × Array UInt8) (b : UInt8) : Checked (Nat × Array UInt8) :=
  if b = 0 then do
    let waiting ← sum state.1 1
    return (waiting, state.2)
  else do
    let zeros ← zeroRun state.1
    return (0, (state.2 ++ zeros).push b)

/-- Memory, compressed against what it started as. -/
def compress (current pristine : List UInt8) : Checked (List UInt8) := do
  let state ← (List.zipWith (· ^^^ ·) current pristine).foldlM pushByte (0, #[])
  return state.2.toList

/-- Bytes with their runs of zeros written out, behind what came before. -/
def expandOnto (out : Array UInt8) : List UInt8 → Checked (Array UInt8)
  | [] => pure out
  | b :: rest =>
    if b ≠ 0 then expandOnto (out.push b) rest
    else match rest with
      | [] => throw (corrupt "CMEM ENDS IN A ZERO RUN")
      | n :: rest => do
        let longer ← sum out.size n.toNat
        let length ← sum longer 1
        expandOnto (out ++ Array.replicate (length - out.size) 0) rest

/-- The memory that was compressed against `pristine`. -/
def decompress (data pristine : List UInt8) : Checked (List UInt8) := do
  let out ← expandOnto #[] data
  let bytes := out.toList
  if pristine.length < bytes.length then
    throw (corrupt s!"CMEM EXPANDS TO {bytes.length} BYTES")
  else
    let filled := bytes ++ List.replicate (pristine.length - bytes.length) 0
    return List.zipWith (· ^^^ ·) filled pristine

/-- A run of 256 zeros or more begins with a full piece. -/
theorem zeroRun_of_le {length : Nat} (h : 256 ≤ length) :
    Compression.zeroRun length = 0 :: 255 :: Compression.zeroRun (length - 256) := by
  have hpieces : length / 256 = (length - 256) / 256 + 1 := by omega
  have hrest : length % 256 = (length - 256) % 256 := by omega
  rw [Compression.zeroRun, Compression.zeroRun, hpieces, hrest, List.replicate_succ,
    List.flatten_cons]
  rfl

/-- A shorter run is one piece. -/
theorem zeroRun_of_lt {length : Nat} (hpos : 0 < length) (h : length < 256) :
    Compression.zeroRun length = [0, (length - 1).toUInt8] := by
  rw [Compression.zeroRun, Nat.div_eq_of_lt h, Nat.mod_eq_of_lt h, if_neg (Nat.ne_of_gt hpos)]
  rfl

/-- The pieces of a run are never taken from less than they are. -/
theorem zeroRun_eq (length : Nat) : zeroRun length = pure (Compression.zeroRun length) := by
  induction length using Nat.strongRecOn with
  | ind length ih =>
      rw [zeroRun]
      by_cases hzero : length = 0
      · rw [if_pos hzero, hzero]
        rfl
      rw [if_neg hzero]
      dsimp only
      by_cases h : 256 ≤ length
      · rw [Nat.min_eq_right h, difference_of_le (by decide), pure_bind, difference_of_le h,
          pure_bind, ih _ (by omega), zeroRun_of_le h]
        rfl
      · rw [Nat.min_eq_left (by omega), difference_of_le (by omega), pure_bind,
          difference_of_le (Nat.le_refl _), pure_bind, Nat.sub_self, ih 0 (by omega),
          @zeroRun_of_lt length (by omega) (by omega)]
        rfl

/-- The zeros that wait are no more than the bytes that were taken. -/
theorem foldlM_pushByte (bytes : List UInt8) {state : Nat × Array UInt8}
    (h : state.1 + bytes.length < 2 ^ 64) :
    bytes.foldlM pushByte state = pure (bytes.foldl Compression.pushByte state) := by
  induction bytes generalizing state with
  | nil => rfl
  | cons b bytes ih =>
      rw [List.length_cons] at h
      have hpush : pushByte state b = pure (Compression.pushByte state b) := by
        unfold pushByte Compression.pushByte
        split
        · rw [sum_of_lt (by omega), pure_bind]
        · rw [zeroRun_eq, pure_bind]
      rw [List.foldlM_cons, hpush, pure_bind, List.foldl_cons]
      refine ih ?_
      unfold Compression.pushByte
      split
      · simp only
        omega
      · simp only
        omega

/-- Memory is compressed in range. -/
theorem compress_eq {current pristine : List UInt8} (h : current.length < 2 ^ 32) :
    compress current pristine = pure (Compression.compress current pristine) := by
  have hlength : (List.zipWith (· ^^^ ·) current pristine).length ≤ current.length := by
    rw [List.length_zipWith]
    exact Nat.min_le_left _ _
  rw [compress, foldlM_pushByte _ (by simp only; omega), pure_bind]
  rfl

/-- Each byte is written out as at most 256. -/
theorem expandOnto_eq {out : Array UInt8} {data : List UInt8}
    (h : out.size + 256 * data.length < 2 ^ 63) :
    expandOnto out data = inRange (Compression.expandOnto out data) := by
  fun_induction Compression.expandOnto out data with
  | case1 out => rfl
  | case2 out b rest hb ih =>
      rw [List.length_cons] at h
      rw [expandOnto.eq_def]
      simp only [if_pos hb]
      refine ih ?_
      rw [Array.size_push]
      omega
  | case3 out b hb => 
      rw [expandOnto.eq_def]
      simp only [if_neg hb]
      rfl
  | case4 out b hb n rest ih =>
      have hn := n.toNat_lt
      rw [List.length_cons, List.length_cons] at h
      rw [expandOnto.eq_def]
      simp only [if_neg hb]
      rw [sum_of_lt (by omega), pure_bind, sum_of_lt (by omega), pure_bind,
        show out.size + n.toNat + 1 - out.size = n.toNat + 1 by omega]
      refine ih ?_
      rw [Array.size_append, Array.size_replicate]
      omega

/-- Memory is decompressed in range. -/
theorem decompress_eq {data pristine : List UInt8} (h : data.length < 2 ^ 32) :
    decompress data pristine = inRange (Compression.decompress data pristine) := by
  rw [decompress, expandOnto_eq (by simp only [List.size_toArray, List.length_nil]; omega),
    Compression.decompress, expand]
  rcases Compression.expandOnto #[] data with fault | out
  · rfl
  · simp only [inRange_ok, pure_bind]
    show _ = inRange (if pristine.length < out.toList.length then _ else _)
    split <;> rfl

end CheckedCompression

/-! ## The chunks of a container -/

namespace CheckedContainer

open Container

/-- The chunks of a container that ends at `stop`, from a position on. -/
def chunksAt (bytes : List UInt8) (stop place : Nat) : Checked (List Chunk) :=
  if place < stop then do
    let _ ← sum place 8
    if stop < place + 8 then throw (truncated s!"CHUNK HEADER AT {place}")
    else do
      let id ← slice bytes place (place + 4)
      let length ← number4At bytes (place + 4)
      let _ ← sum (place + 8) length
      if stop < place + 8 + length then
        throw (truncated s!"CHUNK {Utf8.lossy id} NEEDS {length} BYTES")
      else do
        let data ← slice bytes (place + 8) (place + 8 + length)
        let _ ← sum (place + 8 + length) (length % 2)
        let others ← chunksAt bytes stop (place + 8 + length + length % 2)
        return ⟨id, data⟩ :: others
  else return []
  termination_by stop - place

/-- The chunks of a container of a kind. -/
def readChunks (kind bytes : List UInt8) : Checked (List Chunk) :=
  if bytes.length < 12 then throw { kind := .notQuetzal }
  else do
    if (← slice bytes 0 4) ≠ name "FORM" then throw { kind := .notQuetzal }
    else if (← slice bytes 8 12) ≠ kind then throw { kind := .notQuetzal }
    else do
      let length ← number4At bytes 4
      let stop ← sum 8 length
      if bytes.length < stop then
        throw (truncated s!"FORM NEEDS {stop} BYTES, HAS {bytes.length}")
      else
        let _ ← difference bytes.length stop
        chunksAt bytes stop 12

/-- A number in four bytes has 32 bits. -/
theorem number4_lt (bytes : List UInt8) : number4 bytes < 2 ^ 32 := by
  have hbyte : ∀ b : UInt8, b.toNat < 256 := fun b => b.toNat_lt
  rcases bytes with _ | ⟨a, _ | ⟨b, _ | ⟨c, _ | ⟨d, rest⟩⟩⟩⟩
  · decide
  all_goals simp [number4]
  · have := hbyte a
    omega
  · have := hbyte a
    have := hbyte b
    omega
  · have := hbyte a
    have := hbyte b
    have := hbyte c
    omega
  · have := hbyte a
    have := hbyte b
    have := hbyte c
    have := hbyte d
    omega

/-- No position in the walk is more than a 32 bit length behind the end of the container. -/
theorem chunksAt_eq {bytes : List UInt8} {stop : Nat} (hstop : stop < 2 ^ 62)
    (hbytes : stop ≤ bytes.length) (place : Nat) :
    chunksAt bytes stop place = Container.chunksAt bytes stop place := by
  induction hleft : stop - place using Nat.strongRecOn generalizing place with
  | ind left ih =>
      rw [chunksAt, Container.chunksAt]
      by_cases hplace : place < stop
      · rw [if_pos hplace, if_pos hplace, sum_of_lt (by omega), pure_bind]
        by_cases hhead : stop < place + 8
        · rw [if_pos hhead, if_pos hhead]
        · have hlength := number4_lt (bytes.drop (place + 4))
          rw [if_neg hhead, if_neg hhead, slice_of_le (by omega), pure_bind, pure_bind,
            number4At_of_le (by omega), pure_bind, pure_bind, sum_of_lt (by omega), pure_bind]
          by_cases hdata : stop < place + 8 + number4 (bytes.drop (place + 4))
          · rw [if_pos hdata, if_pos hdata]
          · rw [if_neg hdata, if_neg hdata, sum_of_lt (by omega)]
            simp only [pure_bind]
            rw [ih _ (by omega) _ rfl]
      · rw [if_neg hplace, if_neg hplace]

/-- **The chunks of a container are read in range**, however long the bytes are. -/
theorem readChunks_eq (kind bytes : List UInt8) :
    readChunks kind bytes = inRange (Container.chunks kind bytes) := by
  rw [← Container.readChunks_eq, readChunks, Container.readChunks]
  by_cases hshort : bytes.length < 12
  · rw [if_pos hshort, if_pos hshort]
  · have hlength := number4_lt (bytes.drop 4)
    rw [if_neg hshort, if_neg hshort, number4At_of_le (by omega)]
    simp only [pure_bind]
    rw [sum_of_lt (by omega), pure_bind]
    by_cases hend : bytes.length < 8 + number4 (bytes.drop 4)
    · simp only [if_pos hend]
    · rw [difference_of_le (Nat.not_lt.mp hend), pure_bind,
        chunksAt_eq (by omega) (Nat.not_lt.mp hend)]

/-- The data of a chunk is no longer than 32 bits can say. -/
theorem length_lt_of_chunksFrom {skip place : Nat} {bytes : List UInt8} {chunks : List Chunk}
    (h : chunksFrom skip place bytes = .ok chunks) :
    ∀ chunk ∈ chunks, chunk.data.length < 2 ^ 32 := by
  fun_induction chunksFrom skip place bytes generalizing chunks with
  | case1 =>
      obtain rfl := Except.ok.inj h
      exact fun chunk hchunk => nomatch hchunk
  | case2 _ _ _ _ ih => exact ih h
  | case3 => exact nomatch h
  | case4 => exact nomatch h
  | case5 place b rest here length =>
      rename_i ih
      obtain ⟨others, hothers, h⟩ := bind_eq_ok.mp h
      obtain rfl := Except.ok.inj h
      intro chunk hchunk
      rcases List.mem_cons.mp hchunk with rfl | hchunk
      · exact Nat.lt_of_le_of_lt (List.length_take_le _ _) (number4_lt _)
      · exact ih hothers chunk hchunk

/-- The data that is found is that of a chunk. -/
theorem length_lt_of_find? {kind bytes : List UInt8} {chunks : List Chunk} {id data : List UInt8}
    (h : Container.chunks kind bytes = .ok chunks) (hdata : Container.find? chunks id = some data) :
    data.length < 2 ^ 32 := by
  have hchunks : ∀ chunk ∈ chunks, chunk.data.length < 2 ^ 32 := by
    unfold Container.chunks at h
    split at h
    · exact nomatch h
    split at h
    · exact nomatch h
    · exact length_lt_of_chunksFrom h
  obtain ⟨chunk, hfound, rfl⟩ := Option.map_eq_some_iff.mp hdata
  exact hchunks chunk (List.mem_of_find?_eq_some hfound)

end CheckedContainer

/-! ## Frames -/

namespace CheckedSnapshot

open Snapshot

/-- Some bytes of the chunk of frames, which is turned down if it is too short. -/
def window (data : List UInt8) (place count : Nat) : Checked (List UInt8) := do
  let stop ← sum place count
  if stop ≤ data.length then slice data place stop
  else throw (corrupt "STKS")

/-- The word at a position. -/
def frameWord (data : List UInt8) (place : Nat) : Checked Word := do
  let two ← window data place 2
  return Word.ofBytes (← byte two 0) (← byte two 1)

/-- Some words from a position on, and the position after them. -/
def frameWords (data : List UInt8) : (count place : Nat) → Checked (List Word × Nat)
  | 0, place => return ([], place)
  | count + 1, place => do
    let word ← frameWord data place
    let next ← sum place 2
    let (others, stop) ← frameWords data count next
    return (word :: others, stop)

/-- The frame at a position, with its words. -/
def recordAt (data : List UInt8) (place : Nat) : Checked (Frame × List Word) := do
  let head ← window data place 8
  let returnPc ← number head 0 3
  let flags ← byte head 3
  let store ← storeIn head flags
  let arguments ← byte head 5
  let sizePlace ← sum place 6
  let size ← frameWord data sizePlace
  let first ← sum place 8
  let (locals, rest) ← frameWords data (flags &&& 0x0f).toNat first
  let (words, _) ← frameWords data size.toNat rest
  return ({ returnPc, store, locals, arguments := bitCount arguments, size := size.toNat }, words)

/-- The frames from a position on, the oldest first, each with its words. -/
def framesAt (data : List UInt8) (place : Nat) : Checked (List (Frame × List Word)) :=
  if place < data.length then do
    let share ← recordAt data place
    let others ← framesAt data (place + (8 + 2 * (share.1.locals.length + share.2.length)))
    return share :: others
  else return []
  termination_by data.length - place

/-- How many words some frames have, added up to a number. -/
def totalFrom (frames : List Frame) (total : Nat) : Checked Nat :=
  frames.foldlM (fun total frame => sum total frame.size) total

/-- The call stack in the data of a chunk. -/
def readStack (data : List UInt8) : Checked CallStack := do
  let shares ← framesAt data 0
  let frames := shares.map Prod.fst
  let _ ← totalFrom frames 0
  inRange (CallStack.ofParts frames (shares.flatMap Prod.snd))

/-- Dynamic memory, compressed or else plain. -/
def readMemory (memory : Memory) (chunks : List Chunk) : Checked (List UInt8) :=
  match Container.find? chunks compressedId, Container.find? chunks plainId with
  | some data, _ => do
    let pristine ← memory.pristineDynamicAt
    CheckedCompression.decompress data pristine
  | none, some data =>
    if data.length ≠ memory.dynamicCeiling then throw (corrupt s!"UMEM IS {data.length} BYTES")
    else return data
  | none, none => throw (missing "CMEM OR UMEM")

/-- The call stack. -/
def readFrames (chunks : List Chunk) : Checked CallStack :=
  match Container.find? chunks framesId with
  | some data => readStack data
  | none => throw (missing "STKS")

/-- Checks a snapshot against the running story. -/
def parse (bytes : List UInt8) (memory : Memory) : Checked Restored := do
  let chunks ← CheckedContainer.readChunks kind bytes
  let pc ← readPc memory chunks
  let dynamic ← readMemory memory chunks
  let stack ← readFrames chunks
  return { dynamic, stack, pc }

section

variable {data : List UInt8} {place : Nat}

/-- A fault ends the reading. -/
theorem throw_bind {α β : Type} (fault : Fault) (next : α → Checked β) :
    (throw fault >>= next : Checked β) = throw fault := rfl

/-- A window that ends in its range is the window. -/
theorem window_eq {count : Nat} (h : place + count < 2 ^ 64) :
    window data place count = Snapshot.window data place count := by
  rw [window, sum_of_lt h, pure_bind, Snapshot.window]

/-- A word of a frame at a place in its range is this word. -/
theorem frameWord_eq (h : place + 2 < 2 ^ 64) :
    frameWord data place = Snapshot.frameWord data place := by
  rw [frameWord, window_eq h, Snapshot.frameWord]

/-- Words are read in range, and so is the position after them. -/
theorem frameWords_eq (hdata : data.length < 2 ^ 62) (count : Nat) (hplace : place ≤ data.length) :
    frameWords data count place = do
      let words ← Snapshot.frameWords data count place
      return (words, place + 2 * count) := by
  induction count generalizing place with
  | zero => rfl
  | succ count ih =>
      rw [frameWords, Snapshot.frameWords, frameWord_eq (by omega)]
      by_cases hroom : place + 2 ≤ data.length
      · have hnext : place + 2 + 2 * count = place + 2 * (count + 1) := by omega
        simp only [sum_of_lt (show place + 2 < 2 ^ 64 by omega), ih hroom, hnext, bind_assoc,
          pure_bind]
      · rw [frameWord_of_lt (Nat.not_le.mp hroom)]
        rfl

/-- No record of a frame reaches out of range. -/
theorem recordAt_eq (hdata : data.length < 2 ^ 62) (hplace : place < data.length) :
    recordAt data place = Snapshot.recordAt data place := by
  have hsize : (sum place 6 : Checked Nat) = pure (place + 6) := sum_of_lt (by omega)
  have hfirst : (sum place 8 : Checked Nat) = pure (place + 8) := sum_of_lt (by omega)
  have hword : frameWord data (place + 6) = Snapshot.frameWord data (place + 6) :=
    frameWord_eq (by omega)
  rw [recordAt, Snapshot.recordAt, window_eq (by omega)]
  by_cases hhead : place + 8 ≤ data.length
  · refine bind_congr fun head => bind_congr fun returnPc => bind_congr fun flags =>
      bind_congr fun store => bind_congr fun arguments => ?_
    rw [hsize, pure_bind, hword]
    refine bind_congr fun size => ?_
    rw [hfirst, pure_bind, frameWords_eq hdata _ hhead, Snapshot.frameWords_eq _ hhead]
    by_cases hlocals : place + 8 + 2 * (flags &&& 0x0f).toNat ≤ data.length
    · rw [if_pos hlocals]
      simp only [pure_bind]
      rw [frameWords_eq hdata _ hlocals]
      simp only [bind_assoc, pure_bind]
    · rw [if_neg hlocals]
      rfl
  · rw [Snapshot.window, if_neg hhead, throw_bind, throw_bind]

/-- The walk over the frames stays in range. -/
theorem framesAt_eq (hdata : data.length < 2 ^ 62) (place : Nat) :
    framesAt data place = inRange (framesFrom 0 (data.drop place)) := by
  rw [← Snapshot.framesAt_eq]
  induction hleft : data.length - place using Nat.strongRecOn generalizing place with
  | ind left ih =>
      rw [framesAt, Snapshot.framesAt]
      by_cases hplace : place < data.length
      · rw [if_pos hplace, if_pos hplace, recordAt_eq hdata hplace]
        refine congrArg _ (funext fun share => ?_)
        rw [ih _ (by omega) _ rfl]
      · rw [if_neg hplace, if_neg hplace]

/-- The frames in a chunk have fewer words than it has bytes. -/
theorem owned_le_of_recorded {shares : List (Frame × List Word)} (h : Recorded data shares) :
    CallStack.owned (shares.map Prod.fst) ≤ data.length := by
  induction h with
  | nil => exact Nat.le_refl _
  | cons _ _ _ ih =>
      rw [List.map_cons, CallStack.owned_cons]
      simp only [List.length_cons, List.length_append, length_flatMap_toBytes]
      omega

/-- The words of some frames are added up in range, if there are so many. -/
theorem totalFrom_eq (frames : List Frame) {total : Nat}
    (h : total + CallStack.owned frames < 2 ^ 64) :
    totalFrom frames total = pure (total + CallStack.owned frames) := by
  induction frames generalizing total with
  | nil => rfl
  | cons frame frames ih =>
      rw [CallStack.owned_cons] at h ⊢
      rw [totalFrom, List.foldlM_cons, sum_of_lt (by omega), pure_bind, ← Nat.add_assoc]
      exact ih (by omega)

/-- A stack is read with every number in its range. -/
theorem readStack_eq (hdata : data.length < 2 ^ 32) :
    readStack data = inRange (parseStack data) := by
  rw [readStack, framesAt_eq (by omega), List.drop_zero, parseStack]
  refine bind_congr_inRange fun shares hshares => ?_
  have howned := owned_le_of_recorded (framesFrom_eq_ok_iff.mp hshares)
  dsimp only
  rw [totalFrom_eq _ (by omega), pure_bind]

end

section

variable {memory : Memory} {bytes : List UInt8}

/-- **A snapshot is read in range**: no position, no sum of lengths and no number of words leaves
64 bits, whatever the bytes say and however many there are. -/
theorem parse_eq : parse bytes memory = inRange (Snapshot.parse bytes memory) := by
  rw [parse, CheckedContainer.readChunks_eq, Snapshot.parse]
  refine bind_congr_inRange fun chunks hchunks => ?_
  have hlength {id data : List UInt8} (h : Container.find? chunks id = some data) :
      data.length < 2 ^ 32 := CheckedContainer.length_lt_of_find? hchunks h
  rw [readPc_eq]
  refine bind_congr_inRange fun pc _ => ?_
  have hmemory : readMemory memory chunks = inRange (parseMemory memory chunks) := by
    unfold readMemory parseMemory
    rcases hcompressed : Container.find? chunks compressedId with _ | data
    · rcases Container.find? chunks plainId with _ | data
      · rfl
      · dsimp only
        split <;> rfl
    · dsimp only
      rw [Memory.pristineDynamicAt_eq, pure_bind]
      exact CheckedCompression.decompress_eq (hlength hcompressed)
  rw [hmemory]
  refine bind_congr_inRange fun dynamic _ => ?_
  have hframes : readFrames chunks = inRange (parseFrames chunks) := by
    unfold readFrames parseFrames
    rcases hfound : Container.find? chunks framesId with _ | data
    · rfl
    · exact readStack_eq (hlength hfound)
  rw [hframes]
  exact bind_congr_inRange fun stack _ => rfl

/-- The stack of an accepted snapshot is steady. -/
theorem steady_of_parse {restored : Restored} (h : Snapshot.parse bytes memory = .ok restored) :
    restored.stack.Steady := by
  have hstorable := (accepted_of_parse h).storable
  obtain ⟨chunks, data, shares, -, -, hrecorded, hframes, -⟩ := exists_recorded_of_parse h
  refine ⟨hstorable.covered, fun frame hframe =>
    ⟨(hstorable.frames_storable frame hframe).arguments_le, fun read hread => ?_⟩⟩
  rw [hframes] at hframe
  obtain ⟨share, hshare, rfl⟩ := List.mem_map.mp hframe
  rw [hrecorded.pending_eq share hshare] at hread
  exact nomatch hread

end

/-! ## Writing -/

/-- A frame and its words, the oldest first, as bytes. -/
def frameBytes (frame : Frame) (words : List Word) : Checked (List UInt8) := do
  let drops : UInt8 := if frame.store.isNone then 0x10 else 0
  let mark ← fitting 16 (1 <<< frame.arguments)
  let mask ← difference mark 1
  return bytes3 frame.returnPc
    ++ [drops ||| frame.locals.length.toUInt8, frame.store.getD 0, mask.toUInt8]
    ++ Word.toBytes frame.size.toUInt16
    ++ frame.locals.flatMap Word.toBytes
    ++ words.flatMap Word.toBytes

/-- Frames, the oldest first, and the words they share, as bytes. -/
def framesBytes : List Frame → List Word → Checked (List UInt8)
  | [], _ => pure []
  | frame :: frames, words => do
    let own ← cut words 0 (min frame.size words.length)
    let rest ← cut words (min frame.size words.length) words.length
    let first ← frameBytes frame own
    let others ← framesBytes frames rest
    return first ++ others

/-- Makes a snapshot that resumes at `pc`. -/
def capture (memory : Memory) (stack : CallStack) (pc : Nat) (compressed : Bool)
    (remark : Option String) : Checked (List UInt8) := do
  let dynamic ← memory.dynamicAt
  let memoryChunk : Chunk ←
    if compressed then do
      let pristine ← memory.pristineDynamicAt
      let data ← CheckedCompression.compress dynamic pristine
      pure ⟨compressedId, data⟩
    else pure ⟨plainId, dynamic⟩
  let frames ← framesBytes stack.frames stack.words
  let remarkChunk : List Chunk := (remark.map fun text => ⟨remarkId, Utf8.encode text⟩).toList
  return Container.write kind
    (⟨storyId, identity memory ++ bytes3 pc⟩ :: memoryChunk :: ⟨framesId, frames⟩ :: remarkChunk)

/-- At most eight arguments are marked in sixteen bits. -/
theorem frameBytes_eq {frame : Frame} (h : frame.arguments ≤ 8) (words : List Word) :
    frameBytes frame words = pure (Snapshot.frameBytes frame words) := by
  have hmark : 1 <<< frame.arguments = 2 ^ frame.arguments := Nat.one_shiftLeft _
  have hle : 2 ^ frame.arguments ≤ 2 ^ 8 := Nat.pow_le_pow_right (by decide) h
  have hpos : 0 < 2 ^ frame.arguments := Nat.two_pow_pos _
  dsimp only [frameBytes]
  rw [fitting_of_lt (by omega), pure_bind, difference_of_le (by omega), pure_bind]
  rfl

/-- Frames are written with every number in its range. -/
theorem framesBytes_eq {frames : List Frame} (h : ∀ frame ∈ frames, frame.arguments ≤ 8)
    (words : List Word) :
    framesBytes frames words = pure (Snapshot.framesBytes frames words) := by
  induction frames generalizing words with
  | nil => rfl
  | cons frame frames ih =>
      have hown : (words.drop 0).take (min frame.size words.length - 0)
          = words.take frame.size := by
        rw [List.drop_zero, Nat.sub_zero, ← List.take_eq_take_min]
      have hrest : (words.drop (min frame.size words.length)).take
          (words.length - min frame.size words.length) = words.drop frame.size := by
        rw [List.take_of_length_le (Nat.le_of_eq List.length_drop), ← List.drop_eq_drop_min]
      rw [framesBytes, cut_of_le (Nat.zero_le _) (Nat.min_le_right _ _), pure_bind,
        cut_of_le (Nat.min_le_right _ _) (Nat.le_refl _), pure_bind,
        frameBytes_eq (h frame List.mem_cons_self), pure_bind,
        ih fun other hother => h other (List.mem_cons_of_mem _ hother), pure_bind, hown, hrest]
      rfl

/-- **A snapshot is written in range.** -/
theorem capture_eq (memory : Memory) {stack : CallStack} (hsteady : stack.Steady) (pc : Nat)
    (compressed : Bool) (remark : Option String) :
    capture memory stack pc compressed remark
      = pure (Snapshot.capture memory stack pc compressed remark) := by
  have hceiling := memory.dynamicCeiling_lt
  have hlength : memory.dynamic.length < 2 ^ 32 := by
    rw [Memory.dynamic, Array.length_toList, Array.size_extract]
    omega
  have hframes := framesBytes_eq (fun frame hframe => (hsteady.frames frame hframe).arguments_le)
    stack.words
  rw [capture, memory.dynamicAt_eq, pure_bind, memory.pristineDynamicAt_eq, hframes]
  cases compressed with
  | true =>
      simp only [if_true, CheckedCompression.compress_eq hlength, pure_bind]
      rfl
  | false => rfl

end CheckedSnapshot

end StoryMachine
