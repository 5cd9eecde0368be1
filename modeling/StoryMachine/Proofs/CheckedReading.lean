import StoryMachine.Proofs.SnapshotRoundTrip

/-!
# Reading a snapshot by position

The reader of snapshots walks down lists, so it cannot reach outside of what it
reads.  A reader that counts positions and cuts slices out of the bytes can: lengths
in the bytes may lie, chunks may be cut short, and a frame may claim any number of
words.  Such a reader is `parseAt`.  Each of its accesses is checked, and one that
is out of range leaves it without any answer, which is not the same as turning the
snapshot down.

`parseAt_eq` says that this never happens: for all bytes and memories it gives the
answer of `parse`.  The places that matter are the two walks, over the chunks
(`chunksAt_eq`) and over the frames (`framesAt_eq`).  Compressed memory is read from
its front to its end by either reader, with no position at all.
-/

namespace StoryMachine

/-- Reading with checked accesses.  No outcome means that one was out of range. -/
abbrev Checked := ExceptT Fault Option

namespace Checked

variable {α β : Type}

/-- Reading that has stayed in range, with its outcome. -/
def inRange (outcome : Except Fault α) : Checked α :=
  ExceptT.mk (some outcome)

/-- The byte at a position. -/
def byte (bytes : List UInt8) (place : Nat) : Checked UInt8 :=
  ExceptT.lift bytes[place]?

/-- The bytes from one position up to another. -/
def slice (bytes : List UInt8) (start stop : Nat) : Checked (List UInt8) :=
  if start ≤ stop ∧ stop ≤ bytes.length then pure ((bytes.drop start).take (stop - start))
  else ExceptT.mk none

/-- The number in some bytes from a position on, the highest first. -/
def number (bytes : List UInt8) (start count : Nat) : Checked Nat :=
  (List.range' start count).foldlM
    (fun n place => do
      let b ← byte bytes place
      return 256 * n + b.toNat) 0

/-! ## Accesses in range -/

@[simp] theorem inRange_error (fault : Fault) :
    (inRange (.error fault) : Checked α) = throw fault := rfl

/-- What is in its range one after the other is in its range together. -/
theorem inRange_bind (outcome : Except Fault α) (next : α → Except Fault β) :
    inRange (outcome >>= next) = inRange outcome >>= fun a => inRange (next a) := by
  cases outcome <;> rfl

variable {bytes : List UInt8} {start stop count : Nat}

/-- A byte that is there can be indexed. -/
theorem byte_of_eq {place : Nat} {b : UInt8} (h : bytes[place]? = some b) :
    byte bytes place = pure b := by
  rw [byte, h]
  rfl

/-- A slice that ends in the bytes can be taken. -/
theorem slice_of_le (h : start + count ≤ bytes.length) :
    slice bytes start (start + count) = pure ((bytes.drop start).take count) := by
  rw [slice, if_pos ⟨Nat.le_add_right start count, h⟩, Nat.add_sub_cancel_left]

/-- A number in range is that of the bytes one after another. -/
theorem number_of_le (h : start + count ≤ bytes.length) :
    number bytes start count
      = pure (((bytes.drop start).take count).foldl (fun n b => 256 * n + b.toNat) 0) := by
  unfold number
  generalize 0 = n
  induction count generalizing start n with
  | zero => simp
  | succ count ih =>
      have hplace : start < bytes.length := by omega
      have hbyte : byte bytes start = pure bytes[start] :=
        byte_of_eq (List.getElem?_eq_getElem hplace)
      rw [List.range'_succ, List.foldlM_cons, hbyte, pure_bind, pure_bind, ih (by omega),
        List.drop_eq_getElem_cons hplace, List.take_succ_cons, List.foldl_cons]

end Checked

open Checked

/-! ## Chunks -/

namespace Container

/-- The number in the four bytes at a position. -/
def number4At (bytes : List UInt8) (start : Nat) : Checked Nat := do
  let four ← slice bytes start (start + 4)
  number four 0 4

/-- The chunks of a container that ends at `stop`, from a position on. -/
def chunksAt (bytes : List UInt8) (stop place : Nat) : Checked (List Chunk) :=
  if place < stop then
    if stop < place + 8 then throw (truncated s!"CHUNK HEADER AT {place}")
    else do
      let id ← slice bytes place (place + 4)
      let length ← number4At bytes (place + 4)
      if stop < place + 8 + length then
        throw (truncated s!"CHUNK {Utf8.lossy id} NEEDS {length} BYTES")
      else do
        let data ← slice bytes (place + 8) (place + 8 + length)
        let others ← chunksAt bytes stop (place + 8 + length + length % 2)
        return ⟨id, data⟩ :: others
  else return []
  termination_by stop - place

/-- The chunks of a container of a kind. -/
def readChunks (kind bytes : List UInt8) : Checked (List Chunk) :=
  if bytes.length < 12 then throw { kind := .notQuetzal }
  else do
    if (← slice bytes 0 4) ≠ name "FORM" then throw { kind := .notQuetzal }
    else if (← slice bytes 8 12) ≠ kind then throw { kind := .notQuetzal }
    else do
      let stop := 8 + (← number4At bytes 4)
      if bytes.length < stop then
        throw (truncated s!"FORM NEEDS {stop} BYTES, HAS {bytes.length}")
      else chunksAt bytes stop 12

/-- A number of four bytes that are there is read. -/
theorem number4At_of_le {bytes : List UInt8} {start : Nat} (h : start + 4 ≤ bytes.length) :
    number4At bytes start = pure (number4 (bytes.drop start)) := by
  have hfour : 0 + 4 ≤ ((bytes.drop start).take 4).length := by
    rw [List.length_take, List.length_drop]
    omega
  rw [number4At, slice_of_le h, pure_bind, number_of_le hfour, List.drop_zero, List.take_take]
  rfl

/-- What the reader does where a chunk begins. -/
theorem chunksFrom_zero {here : List UInt8} (h : here ≠ []) (place : Nat) :
    chunksFrom 0 place here =
      let length := number4 (here.drop 4)
      if here.length < 8 then .error (truncated s!"CHUNK HEADER AT {place}")
      else if here.length < 8 + length then
        .error (truncated s!"CHUNK {Utf8.lossy (here.take 4)} NEEDS {length} BYTES")
      else do
        let others ← chunksFrom 0 (place + (8 + length + length % 2))
          (here.drop (8 + length + length % 2))
        return ⟨here.take 4, (here.drop 8).take length⟩ :: others := by
  obtain ⟨b, rest, rfl⟩ := List.exists_cons_of_ne_nil h
  rw [chunksFrom, chunksFrom_skip]
  have hplace (length : Nat) : place + 1 + (7 + length + length % 2)
      = place + (8 + length + length % 2) := by omega
  have hdrop (length : Nat) : rest.drop (7 + length + length % 2)
      = (b :: rest).drop (8 + length + length % 2) := by
    rw [show 8 + length + length % 2 = 7 + length + length % 2 + 1 by omega, List.drop_succ_cons]
  simp only [hplace, hdrop]

/-- The walk over the chunks stays in range.  Slices that end before `stop` are the same with and
without the bytes behind it. -/
theorem chunksAt_eq {bytes : List UInt8} {stop : Nat} (hstop : stop ≤ bytes.length) (place : Nat) :
    chunksAt bytes stop place = inRange (chunksFrom 0 place ((bytes.take stop).drop place)) := by
  induction hleft : stop - place using Nat.strongRecOn generalizing place with
  | ind left ih =>
      have hlength : ((bytes.take stop).drop place).length = stop - place := by
        rw [List.length_drop, List.length_take, Nat.min_eq_left hstop]
      have hwindow {i n : Nat} (h : place + i + n ≤ stop) :
          (((bytes.take stop).drop place).drop i).take n = (bytes.drop (place + i)).take n := by
        rw [List.drop_drop, List.drop_take, List.take_take, Nat.min_eq_left (by omega)]
      rw [chunksAt]
      by_cases hplace : place < stop
      · have hne : (bytes.take stop).drop place ≠ [] := by
          intro hnil
          rw [hnil, List.length_nil] at hlength
          omega
        rw [if_pos hplace, chunksFrom_zero hne, hlength]
        by_cases hhead : stop < place + 8
        · rw [if_pos hhead, if_pos (by omega), inRange_error]
        · have hid : ((bytes.take stop).drop place).take 4 = (bytes.drop place).take 4 :=
            @hwindow 0 4 (by omega)
          have hnumber : number4 (((bytes.take stop).drop place).drop 4)
              = number4 (bytes.drop (place + 4)) := by
            rw [number4, number4, @hwindow 4 4 (by omega)]
          rw [if_neg hhead, if_neg (by omega), slice_of_le (by omega), pure_bind,
            number4At_of_le (by omega), pure_bind, hid, hnumber]
          generalize number4 (bytes.drop (place + 4)) = length
          by_cases hdata : stop < place + 8 + length
          · rw [if_pos hdata, if_pos (by omega), inRange_error]
          · rw [if_neg hdata, if_neg (by omega), slice_of_le (by omega), pure_bind,
              @hwindow 8 length (by omega), List.drop_drop, inRange_bind,
              ← ih (stop - (place + (8 + length + length % 2))) (by omega) _ rfl]
            simp only [Nat.add_assoc]
            rfl
      · have hnil : (bytes.take stop).drop place = [] :=
          List.eq_nil_of_length_eq_zero (by omega)
        rw [if_neg hplace, hnil]
        rfl

/-- **Chunks are read with every slice in its range.** -/
theorem readChunks_eq (kind bytes : List UInt8) :
    readChunks kind bytes = inRange (chunks kind bytes) := by
  unfold readChunks chunks isOfKind
  by_cases hshort : bytes.length < 12
  · rw [if_pos hshort, decide_eq_false (Nat.not_le.mpr hshort)]
    rfl
  · have hform : slice bytes 0 4 = pure (bytes.take 4) := @slice_of_le bytes 0 4 (by omega)
    have hkind : slice bytes 8 12 = pure ((bytes.drop 8).take 4) :=
      @slice_of_le bytes 8 4 (by omega)
    rw [if_neg hshort, hform, pure_bind, hkind, pure_bind, number4At_of_le (by omega), pure_bind,
      decide_eq_true (Nat.not_lt.mp hshort)]
    by_cases hname : bytes.take 4 = name "FORM"
    · by_cases hsame : (bytes.drop 8).take 4 = kind
      · rw [if_neg (not_not_intro hname), if_neg (not_not_intro hsame), hname, hsame]
        simp only [beq_self_eq_true, Bool.and_true, Bool.not_true, Bool.false_eq_true, if_false]
        by_cases hend : bytes.length < declaredEnd bytes
        · rw [if_pos hend]
          exact if_pos hend
        · rw [if_neg hend, ← chunksAt_eq (Nat.not_lt.mp hend)]
          exact if_neg hend
      · rw [if_neg (not_not_intro hname), if_pos hsame, beq_eq_false_iff_ne.mpr hsame]
        simp
    · rw [if_pos hname, beq_eq_false_iff_ne.mpr hname]
      simp

end Container

/-! ## Frames -/

namespace Snapshot

/-- Some bytes of the chunk of frames, which is turned down if it is too short. -/
def window (data : List UInt8) (place count : Nat) : Checked (List UInt8) :=
  if place + count ≤ data.length then slice data place (place + count)
  else throw (corrupt "STKS")

/-- The word at a position. -/
def frameWord (data : List UInt8) (place : Nat) : Checked Word := do
  let two ← window data place 2
  return Word.ofBytes (← byte two 0) (← byte two 1)

/-- Some words from a position on. -/
def frameWords (data : List UInt8) : (count place : Nat) → Checked (List Word)
  | 0, _ => return []
  | count + 1, place => do
    let word ← frameWord data place
    let others ← frameWords data count (place + 2)
    return word :: others

/-- The store variable in the head of a record, which is looked at only if there is one. -/
def storeIn (head : List UInt8) (flags : UInt8) : Checked (Option UInt8) :=
  if flags &&& 0x10 ≠ 0 then pure none else some <$> byte head 4

/-- The frame at a position, with its words. -/
def recordAt (data : List UInt8) (place : Nat) : Checked (Frame × List Word) := do
  let head ← window data place 8
  let returnPc ← number head 0 3
  let flags ← byte head 3
  let store ← storeIn head flags
  let arguments ← byte head 5
  let size ← frameWord data (place + 6)
  let locals ← frameWords data (flags &&& 0x0f).toNat (place + 8)
  let words ← frameWords data size.toNat (place + 8 + 2 * (flags &&& 0x0f).toNat)
  return ({ returnPc, store, locals, arguments := bitCount arguments, size := size.toNat }, words)

/-- The frames from a position on, the oldest first, each with its words. -/
def framesAt (data : List UInt8) (place : Nat) : Checked (List (Frame × List Word)) :=
  if place < data.length then do
    let share ← recordAt data place
    let others ← framesAt data (place + (8 + 2 * (share.1.locals.length + share.2.length)))
    return share :: others
  else return []
  termination_by data.length - place

/-- There are half as many words as bytes. -/
theorem length_wordsOf (bytes : List UInt8) : (wordsOf bytes).length = bytes.length / 2 := by
  fun_induction wordsOf bytes with
  | case1 hi lo rest ih =>
      simp only [List.length_cons, ih]
      omega
  | case2 bytes hshort =>
      rcases bytes with _ | ⟨hi, _ | ⟨lo, rest⟩⟩
      · rfl
      · simp
      · exact absurd rfl (hshort hi lo rest)

/-- The first words are those of the first bytes. -/
theorem wordsOf_take (bytes : List UInt8) (count : Nat) :
    wordsOf (bytes.take (2 * count)) = (wordsOf bytes).take count := by
  induction count generalizing bytes with
  | zero => simp [wordsOf]
  | succ count ih =>
      rcases bytes with _ | ⟨hi, _ | ⟨lo, rest⟩⟩
      · rfl
      · rfl
      · rw [Nat.mul_succ, List.take_succ_cons, List.take_succ_cons, wordsOf, wordsOf, ih,
          List.take_succ_cons]

/-- The later words are those of the later bytes. -/
theorem wordsOf_drop (bytes : List UInt8) (count : Nat) :
    wordsOf (bytes.drop (2 * count)) = (wordsOf bytes).drop count := by
  induction count generalizing bytes with
  | zero => rfl
  | succ count ih =>
      rcases bytes with _ | ⟨hi, _ | ⟨lo, rest⟩⟩
      · rfl
      · rfl
      · rw [Nat.mul_succ, List.drop_succ_cons, List.drop_succ_cons, wordsOf, ih,
          List.drop_succ_cons]

section

variable {data : List UInt8} {place : Nat}

/-- A word of a frame is read where its bytes are. -/
theorem frameWord_of_drop_eq {hi lo : UInt8} {rest : List UInt8}
    (h : data.drop place = hi :: lo :: rest) :
    frameWord data place = pure (Word.ofBytes hi lo) := by
  have hroom : place + 2 ≤ data.length := by
    have hlength := congrArg List.length h
    simp only [List.length_drop, List.length_cons] at hlength
    omega
  rw [frameWord, window, if_pos hroom, slice_of_le hroom, h]
  rfl

/-- A word of a frame that is cut off is a corrupt snapshot. -/
theorem frameWord_of_lt (h : data.length < place + 2) :
    frameWord data place = throw (corrupt "STKS") := by
  rw [frameWord, window, if_neg (Nat.not_le.mpr h)]
  rfl

/-- Words are read if they are all there. -/
theorem frameWords_eq (count : Nat) (hplace : place ≤ data.length) :
    frameWords data count place
      = if place + 2 * count ≤ data.length then pure ((wordsOf (data.drop place)).take count)
        else throw (corrupt "STKS") := by
  induction count generalizing place with
  | zero =>
      rw [if_pos (by omega)]
      rfl
  | succ count ih =>
      rw [frameWords]
      by_cases hroom : place + 2 ≤ data.length
      · have hdrop : data.drop place = data[place] :: data[place + 1] :: data.drop (place + 2) := by
          rw [List.drop_eq_getElem_cons (by omega), List.drop_eq_getElem_cons (by omega)]
        have hcount : place + 2 * (count + 1) = place + 2 + 2 * count := by omega
        rw [frameWord_of_drop_eq hdrop, pure_bind, ih hroom, hdrop, wordsOf, List.take_succ_cons,
          hcount]
        split <;> rfl
      · rw [frameWord_of_lt (Nat.not_le.mp hroom), if_neg (by omega)]
        rfl

/-- A record of a frame begins with eight bytes. -/
theorem exists_head {here : List UInt8} (h : 8 ≤ here.length) :
    ∃ a b c flags store arguments hi lo body,
      here = a :: b :: c :: flags :: store :: arguments :: hi :: lo :: body := by
  rcases here with _ | ⟨a, _ | ⟨b, _ | ⟨c, _ | ⟨flags, _ | ⟨store, _ | ⟨arguments, _ | ⟨hi, _ | ⟨lo,
    body⟩⟩⟩⟩⟩⟩⟩⟩
  case cons.cons.cons.cons.cons.cons.cons.cons =>
      exact ⟨a, b, c, flags, store, arguments, hi, lo, body, rfl⟩
  all_goals
    simp only [List.length_cons, List.length_nil] at h
    omega

/-- The frame in a record of eight bytes and a body. -/
def recordOf (a b c flags store arguments hi lo : UInt8) (body : List UInt8) :
    Frame × List Word :=
  ({ returnPc := number3 [a, b, c], store := if flags &&& 0x10 ≠ 0 then none else some store,
     locals := (wordsOf body).take (flags &&& 0x0f).toNat, arguments := bitCount arguments,
     size := (Word.ofBytes hi lo).toNat },
    ((wordsOf body).drop (flags &&& 0x0f).toNat).take (Word.ofBytes hi lo).toNat)

variable {a b c flags store arguments hi lo : UInt8} {body : List UInt8}

/-- A record has the locals and words that its head claims. -/
theorem length_recordOf
    (h : 2 * ((flags &&& 0x0f).toNat + (Word.ofBytes hi lo).toNat) ≤ body.length) :
    (recordOf a b c flags store arguments hi lo body).1.locals.length
        + (recordOf a b c flags store arguments hi lo body).2.length
      = (flags &&& 0x0f).toNat + (Word.ofBytes hi lo).toNat := by
  have hlength := length_wordsOf body
  simp only [recordOf, List.length_take, List.length_drop]
  omega

/-- What the reader does with the record of a frame. -/
theorem framesFrom_record :
    framesFrom 0 (a :: b :: c :: flags :: store :: arguments :: hi :: lo :: body) =
      let room := 2 * ((flags &&& 0x0f).toNat + (Word.ofBytes hi lo).toNat)
      if body.length < room then .error (corrupt "STKS")
      else do
        let others ← framesFrom 0 (body.drop room)
        return recordOf a b c flags store arguments hi lo body :: others := by
  rw [framesFrom]
  unfold recordOf
  dsimp only
  generalize (flags &&& 0x0f).toNat = localCount
  generalize (Word.ofBytes hi lo).toNat = size
  have hlength : (wordsOf (body.take (2 * (localCount + size)))).length < localCount + size
      ↔ body.length < 2 * (localCount + size) := by
    rw [length_wordsOf, List.length_take]
    omega
  have hlocals : (wordsOf (body.take (2 * (localCount + size)))).take localCount
      = (wordsOf body).take localCount := by
    rw [wordsOf_take, List.take_take, Nat.min_eq_left (Nat.le_add_right _ _)]
  have hwords : (wordsOf (body.take (2 * (localCount + size)))).drop localCount
      = ((wordsOf body).drop localCount).take size := by
    rw [wordsOf_take, List.drop_take, Nat.add_sub_cancel_left]
  have hrest : (b :: c :: flags :: store :: arguments :: hi :: lo :: body).drop
      (7 + 2 * (localCount + size)) = body.drop (2 * (localCount + size)) := by
    rw [← List.drop_drop]
    rfl
  rw [framesFrom_skip, hrest, hlocals, hwords]
  simp only [hlength]
  rfl

/-- A record that is cut off in its head is a corrupt snapshot. -/
theorem framesFrom_short {here : List UInt8} (hne : here ≠ []) (h : here.length < 8) :
    framesFrom 0 here = .error (corrupt "STKS") := by
  rcases here with _ | ⟨a, _ | ⟨b, _ | ⟨c, _ | ⟨flags, _ | ⟨store, _ | ⟨arguments, _ | ⟨hi, _ | ⟨lo,
    body⟩⟩⟩⟩⟩⟩⟩⟩
  case nil => exact absurd rfl hne
  case cons.cons.cons.cons.cons.cons.cons.cons =>
      simp only [List.length_cons] at h
      omega
  all_goals rfl

/-- A record is not read where its head is cut off. -/
theorem recordAt_of_lt (h : data.length < place + 8) :
    recordAt data place = throw (corrupt "STKS") := by
  rw [recordAt, window, if_neg (Nat.not_le.mpr h)]
  rfl

/-- A record is read where its head is, unless its body is cut off. -/
theorem recordAt_of_drop_eq
    (h : data.drop place = a :: b :: c :: flags :: store :: arguments :: hi :: lo :: body) :
    recordAt data place
      = if body.length < 2 * ((flags &&& 0x0f).toNat + (Word.ofBytes hi lo).toNat) then
          throw (corrupt "STKS")
        else pure (recordOf a b c flags store arguments hi lo body) := by
  have hhead : place + 8 ≤ data.length := by
    have hlength := congrArg List.length h
    simp only [List.length_drop, List.length_cons] at hlength
    omega
  have hsize : data.drop (place + 6) = hi :: lo :: body := by
    rw [← List.drop_drop, h]
    rfl
  have hbody : data.drop (place + 8) = body := by
    rw [← List.drop_drop, h]
    rfl
  have hlength : body.length = data.length - (place + 8) := by
    rw [← hbody, List.length_drop]
  have hreturn : number [a, b, c, flags, store, arguments, hi, lo] 0 3
      = pure (number3 [a, b, c]) := rfl
  have hflags : byte [a, b, c, flags, store, arguments, hi, lo] 3 = pure flags := rfl
  have hstore : storeIn [a, b, c, flags, store, arguments, hi, lo] flags
      = pure (if flags &&& 0x10 ≠ 0 then none else some store) := by
    unfold storeIn
    split <;> rfl
  have harguments : byte [a, b, c, flags, store, arguments, hi, lo] 5 = pure arguments := rfl
  rw [recordAt, window, if_pos hhead, slice_of_le hhead, h, pure_bind]
  simp only [List.take_succ_cons, List.take_zero]
  rw [hreturn, pure_bind, hflags, pure_bind, hstore, pure_bind, harguments, pure_bind,
    frameWord_of_drop_eq hsize, pure_bind, frameWords_eq _ hhead, hbody]
  unfold recordOf
  generalize (flags &&& 0x0f).toNat = localCount
  generalize (Word.ofBytes hi lo).toNat = size
  by_cases hlocals : place + 8 + 2 * localCount ≤ data.length
  · have hrest : wordsOf (data.drop (place + 8 + 2 * localCount))
        = (wordsOf body).drop localCount := by
      rw [← wordsOf_drop, ← hbody, List.drop_drop]
    rw [if_pos hlocals, pure_bind, frameWords_eq _ hlocals, hrest]
    by_cases hroom : body.length < 2 * (localCount + size)
    · rw [if_pos hroom, if_neg (by omega)]
      rfl
    · rw [if_neg hroom, if_pos (by omega), pure_bind]
  · have hroom : body.length < 2 * (localCount + size) := by omega
    rw [if_neg hlocals, if_pos hroom]
    rfl

/-- The walk over the frames stays in range. -/
theorem framesAt_eq (data : List UInt8) (place : Nat) :
    framesAt data place = inRange (framesFrom 0 (data.drop place)) := by
  induction hleft : data.length - place using Nat.strongRecOn generalizing place with
  | ind left ih =>
      rw [framesAt]
      by_cases hplace : place < data.length
      · rw [if_pos hplace]
        by_cases hhead : place + 8 ≤ data.length
        · obtain ⟨a, b, c, flags, store, arguments, hi, lo, body, hdrop⟩ :=
            @exists_head (data.drop place) (by rw [List.length_drop]; omega)
          rw [recordAt_of_drop_eq hdrop, hdrop, framesFrom_record]
          by_cases hroom : body.length
              < 2 * ((flags &&& 0x0f).toNat + (Word.ofBytes hi lo).toNat)
          · rw [if_pos hroom, if_pos hroom]
            rfl
          · have hbody : body = data.drop (place + 8) := by
              rw [← List.drop_drop, hdrop]
              rfl
            rw [if_neg hroom, if_neg hroom, pure_bind, length_recordOf (Nat.not_lt.mp hroom),
              inRange_bind, ih _ (by omega) _ rfl, hbody, List.drop_drop, Nat.add_assoc]
            rfl
        · have hne : data.drop place ≠ [] := by
            rw [Ne, List.drop_eq_nil_iff]
            exact Nat.not_le.mpr hplace
          rw [recordAt_of_lt (Nat.not_le.mp hhead), framesFrom_short hne]
          · rfl
          · rw [List.length_drop]
            omega
      · rw [if_neg hplace, List.drop_eq_nil_of_le (Nat.not_lt.mp hplace)]
        rfl

end

/-! ## Snapshots -/

/-- The call stack in the data of a chunk. -/
def readStack (data : List UInt8) : Checked CallStack := do
  let frames ← framesAt data 0
  inRange (CallStack.ofParts (frames.map Prod.fst) (frames.flatMap Prod.snd))

/-- The address to resume at, from the chunk that identifies the story. -/
def readPc (memory : Memory) (chunks : List Chunk) : Checked Nat :=
  match Container.find? chunks storyId with
  | none => throw (missing "IFHD")
  | some data =>
    if data.length ≠ 13 then throw (corrupt s!"IFHD IS {data.length} BYTES")
    else do
      if (← slice data 0 10) ≠ (← slice (identity memory ++ bytes3 0) 0 10) then
        throw { kind := .wrongStory }
      else do
        let pc ← number data 10 3
        if memory.size ≤ pc then throw (corrupt ("PC " ++ Numeral.marked 5 pc)) else return pc

/-- The call stack. -/
def readFrames (chunks : List Chunk) : Checked CallStack :=
  match Container.find? chunks framesId with
  | some data => readStack data
  | none => throw (missing "STKS")

/-- Checks a snapshot against the running story, by position. -/
def parseAt (bytes : List UInt8) (memory : Memory) : Checked Restored := do
  let chunks ← Container.readChunks kind bytes
  let pc ← readPc memory chunks
  let dynamic ← inRange (parseMemory memory chunks)
  let stack ← readFrames chunks
  return { dynamic, stack, pc }

/-- The address of a snapshot is read with its slice in its range. -/
theorem readPc_eq (memory : Memory) (chunks : List Chunk) :
    readPc memory chunks = inRange (parsePc memory chunks) := by
  unfold readPc parsePc
  cases Container.find? chunks storyId with
  | none => rfl
  | some data =>
      dsimp only
      by_cases hlength : data.length = 13
      · have htheirs : slice data 0 10 = pure (data.take 10) := @slice_of_le data 0 10 (by omega)
        have hours : slice (identity memory ++ bytes3 0) 0 10 = pure (identity memory) := by
          have hten := length_identity memory
          have hroom : 0 + 10 ≤ (identity memory ++ bytes3 0).length := by
            rw [List.length_append, hten]
            exact Nat.le_add_right _ _
          exact (@slice_of_le _ 0 10 hroom).trans (congrArg pure (List.take_left' hten))
        have hpc : number data 10 3 = pure (number3 (data.drop 10)) :=
          number_of_le (Nat.le_of_eq hlength.symm)
        rw [if_neg (not_not_intro hlength), if_neg (not_not_intro hlength), htheirs, pure_bind,
          hours, pure_bind, hpc, pure_bind]
        split
        · rfl
        · split <;> rfl
      · rw [if_pos hlength, if_pos hlength]
        rfl

/-- **Frames are read with every slice in its range.** -/
theorem readFrames_eq (chunks : List Chunk) :
    readFrames chunks = inRange (parseFrames chunks) := by
  unfold readFrames parseFrames
  cases Container.find? chunks framesId with
  | none => rfl
  | some data =>
      dsimp only
      rw [readStack, framesAt_eq, parseStack, inRange_bind]
      rfl

/-- **A snapshot is read in range.**  Whatever the bytes are, no access by position is out of
range, and the answer is that of the other reader. -/
theorem parseAt_eq (bytes : List UInt8) (memory : Memory) :
    parseAt bytes memory = inRange (parse bytes memory) := by
  unfold parseAt parse
  simp only [inRange_bind, Container.readChunks_eq, readPc_eq, readFrames_eq]
  rfl

end Snapshot

end StoryMachine
