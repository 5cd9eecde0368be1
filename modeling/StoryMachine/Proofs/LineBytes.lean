import StoryMachine.Streams
import StoryMachine.Text.Lines

/-!
# The bytes of a line

A text is written as the bytes of its characters, one character after the other (`encode_eq`), and
what has been written is read back as the same text (`strict?_encode`).  **Only the line feed has
the byte 10** (`notMem_utf8EncodeChar`): all other characters have their own number or bytes from
128 on.  So a line that is written with a line feed behind it is split off again as a whole, with
whatever may follow (`splitLine_recordBytes`), and it comes back as it was typed if it does not end
in what is taken for part of a line end (`lineOf?_recordBytes`).
-/

namespace StoryMachine

namespace Utf8

/-- The loop goes through the bytes from its place on. -/
theorem toList_loop (bytes : ByteArray) (i : Nat) (front : List UInt8) :
    ByteArray.toList.loop bytes i front = front.reverse ++ bytes.data.toList.drop i := by
  fun_induction ByteArray.toList.loop bytes i front with
  | case1 i front hlt ih =>
      have hplace : i < bytes.data.toList.length := by
        rw [Array.length_toList]
        exact hlt
      have hbyte : bytes.get! i = bytes.data.toList[i] := by
        rw [Array.getElem_toList]
        exact getElem!_pos bytes.data i hlt
      rw [ih, List.drop_eq_getElem_cons hplace, hbyte, List.reverse_cons, List.append_assoc]
      rfl
  | case2 i front hge =>
      rw [List.drop_eq_nil_of_le, List.append_nil]
      rw [Array.length_toList]
      exact Nat.not_lt.mp hge

/-- Text is encoded as its bytes. -/
theorem encode_eq_data (text : String) : encode text = text.toByteArray.data.toList :=
  toList_loop text.toByteArray 0 []

/-- A text is written character by character. -/
theorem encode_eq (text : String) : encode text = text.toList.flatMap String.utf8EncodeChar := by
  have hbytes : text.toByteArray = text.toList.utf8Encode := by
    rw [← String.toByteArray_ofList, String.ofList_toList]
  rw [encode_eq_data, hbytes]
  exact List.toList_data_toByteArray

/-- Text is encoded piece by piece. -/
theorem encode_append (text other : String) : encode (text ++ other) = encode text ++ encode other := by
  rw [encode_eq, encode_eq, encode_eq, String.toList_append, List.flatMap_append]

/-- What has been written is read back. -/
theorem strict?_encode (text : String) : strict? (encode text) = some text := by
  have hbytes : (⟨(encode text).toArray⟩ : ByteArray) = text.toByteArray := by
    rw [encode_eq_data, Array.toArray_toList]
  rw [strict?, hbytes, String.fromUTF8?, dif_pos text.isValidUTF8]
  rfl

/-- A character is written as its own number, or with bytes from 128 on. -/
theorem byte_cases {c : Char} {b : UInt8} (h : b ∈ String.utf8EncodeChar c) :
    128 ≤ b.toNat ∨ b.toNat = c.toNat := by
  have hnumber : c.toNat = c.val.toNat := rfl
  have hbyte (n : Nat) : (UInt8.ofNat n).toNat = n % 256 := UInt8.toNat_ofNat'
  unfold String.utf8EncodeChar at h
  dsimp only at h
  grind

/-- Only the line feed has the byte 10. -/
theorem notMem_utf8EncodeChar {c : Char} (h : c ≠ '\n') : (10 : UInt8) ∉ String.utf8EncodeChar c := by
  intro hmem
  rcases byte_cases hmem with hle | hnumber
  · exact absurd hle (by decide)
  · apply h
    apply Char.toNat_inj.mp
    exact hnumber.symm

/-- Text without a line feed is encoded without one. -/
theorem notMem_encode {text : String} (h : '\n' ∉ text.toList) : (10 : UInt8) ∉ encode text := by
  rw [encode_eq, List.mem_flatMap]
  rintro ⟨c, hc, hmem⟩
  refine notMem_utf8EncodeChar ?_ hmem
  rintro rfl
  exact h hc

end Utf8

/-! ## A line and its line feed -/

/-- Up to the first line feed there is no other. -/
theorem splitLine_of_notMem {front : List UInt8} (h : 10 ∉ front) (rest : List UInt8) :
    splitLine (front ++ 10 :: rest) = (front ++ [10], rest) := by
  have hfront : ∀ b ∈ front, decide (b ≠ 10) = true := by
    intro b hb
    apply decide_eq_true
    rintro rfl
    exact h hb
  have hline : (front ++ 10 :: rest).takeWhile (· ≠ 10) = front := by
    rw [List.takeWhile_append_of_pos hfront]
    exact List.append_nil front
  unfold splitLine
  rw [hline]
  dsimp only
  rw [List.drop_left]
  rfl

namespace Streams

/-- That a line can be told from the line end that is written behind it: it has no line feed, and
does not end in a carriage return. -/
structure Recordable (line : String) : Prop where
  no_lineFeed : '\n' ∉ line.toList
  no_return_last : line.toList.getLast? ≠ some '\r'

instance (line : String) : Decidable (Recordable line) :=
  decidable_of_iff ('\n' ∉ line.toList ∧ line.toList.getLast? ≠ some '\r')
    ⟨fun h => ⟨h.1, h.2⟩, fun h => ⟨h.no_lineFeed, h.no_return_last⟩⟩

/-- The bytes that a line is recorded as. -/
def recordBytes (line : String) : List UInt8 :=
  Utf8.encode (line ++ "\n")

/-- A line is recorded with a line feed behind it. -/
theorem recordBytes_eq (line : String) : recordBytes line = Utf8.encode line ++ [10] := by
  have hfeed : Utf8.encode "\n" = [10] := by decide +kernel
  rw [recordBytes, Utf8.encode_append, hfeed]

variable {line : String}

/-- A recorded line is split off from what follows it. -/
theorem splitLine_recordBytes (h : Recordable line) (rest : List UInt8) :
    splitLine (recordBytes line ++ rest) = (recordBytes line, rest) := by
  rw [recordBytes_eq, List.append_assoc]
  exact splitLine_of_notMem (Utf8.notMem_encode h.no_lineFeed) rest

/-- Nothing is cut off from the end of a line but its line feed. -/
theorem dropWhile_reverse (h : Recordable line) :
    (line ++ "\n").toList.reverse.dropWhile (fun c => c = '\r' || c = '\n')
      = line.toList.reverse := by
  rw [String.toList_append, List.reverse_append]
  show List.dropWhile _ ('\n' :: line.toList.reverse) = _
  rw [List.dropWhile_cons_of_pos (by rfl)]
  cases hreverse : line.toList.reverse with
  | nil => rfl
  | cons c rest =>
      have hmem : c ∈ line.toList := by
        rw [← List.mem_reverse, hreverse]
        exact List.mem_cons_self
      have hlast : line.toList.getLast? = some c := by
        rw [← List.head?_reverse, hreverse]
        rfl
      have hfeed : c ≠ '\n' := by
        rintro rfl
        exact h.no_lineFeed hmem
      have hreturn : c ≠ '\r' := by
        rintro rfl
        exact h.no_return_last hlast
      rw [List.dropWhile_cons_of_neg]
      simp [hfeed, hreturn]

/-- A recorded line is read as it was, an empty one too. -/
theorem lineOf?_recordBytes (h : Recordable line) : lineOf? (recordBytes line) = some line := by
  have hsome : (recordBytes line).isEmpty = false := by
    rw [recordBytes_eq]
    cases Utf8.encode line <;> rfl
  rw [lineOf?, hsome, if_neg Bool.false_ne_true, recordBytes, Utf8.strict?_encode, Option.map_some,
    dropWhile_reverse h, List.reverse_reverse, String.ofList_toList]

/-- A carriage return at the end would be lost. -/
example : lineOf? (recordBytes "look\r") = some "look" := by decide +kernel

end Streams

end StoryMachine
