import StoryMachine.Proofs.LineInput

/-!
# Writing text in codes and back

The two directions of a translation table do not look the same.  A code is turned into a character
by its range or by its place in the table, and a character into a code by its own range or else by
the first place at which the table has it.

**What encoding writes** are the proper codes (`proper_codeFor`): the new line, the printable codes,
and those codes of the table that have their character from no other place, neither from the
printable ones and the line ends nor from an earlier place of the table.  On each of them decoding
is undone by encoding (`codeFor_of_proper`), so that a list of codes comes back from its text exactly
if all of them are proper.  In the other direction a character comes back from its code unless it
is a carriage return or has no code (`toChar?_codeFor`).
-/

namespace StoryMachine.UnicodeTable

/-- The characters whose code is their number. -/
def IsPrintable (c : Char) : Prop :=
  ' ' ≤ c ∧ c ≤ '~'

/-- The characters whose code is that of the new line. -/
def IsLineEnd (c : Char) : Prop :=
  c = '\n' ∨ c = '\r'

instance (c : Char) : Decidable (IsPrintable c) := inferInstanceAs (Decidable (_ ∧ _))

instance (c : Char) : Decidable (IsLineEnd c) := inferInstanceAs (Decidable (_ ∨ _))

/-- The character that comes back when a character is written as a code and read again. -/
def returned (table : UnicodeTable) (c : Char) : Char :=
  if c = '\r' then '\n' else if table.ofChar? c = none then '?' else c

/-- That the table has a character of its own at a place: it is neither printable nor a line end,
and no earlier place has it. -/
structure OwnAt (table : UnicodeTable) (i : Nat) (c : Char) : Prop where
  at_place : table.extras[i]? = some c
  not_printable : ¬IsPrintable c
  not_lineEnd : ¬IsLineEnd c
  not_before : ∀ j, j < i → table.extras[j]? ≠ some c

/-- The new line, the printable codes, and the codes of characters that the table has of its own. -/
def Proper (table : UnicodeTable) (code : Word) : Prop :=
  code = 13 ∨ (32 ≤ code ∧ code ≤ 126) ∨ ∃ i c, code.toNat = 155 + i ∧ table.OwnAt i c

/-- The code that a character is written as. -/
def codeFor (table : UnicodeTable) (c : Char) : Word :=
  (table.ofChar? c).getD questionMark

variable {table : UnicodeTable} {c : Char}

/-! ## One character -/

/-- A line end has the code of the new line. -/
theorem ofChar?_of_lineEnd (h : IsLineEnd c) : table.ofChar? c = some 13 :=
  if_pos h

/-- A printable character has its number as its code. -/
theorem ofChar?_of_printable (h : IsPrintable c) : table.ofChar? c = some c.toNat.toUInt16 := by
  have hline : ¬IsLineEnd c := by
    rintro (rfl | rfl)
    · exact absurd h (by decide)
    · exact absurd h (by decide)
  exact (if_neg hline).trans (if_pos h)

/-- Any other character has the code of its first place in the table. -/
theorem ofChar?_of_extra (hprintable : ¬IsPrintable c) (hline : ¬IsLineEnd c) : table.ofChar? c
    = (table.extras.toList.findIdx? (· = c)).map fun i => (firstExtra + i).toUInt16 :=
  (if_neg hline).trans (if_neg hprintable)

/-- The search finds a character where the table has it of its own, and nowhere else. -/
theorem findIdx?_eq_some_iff {i : Nat} (hprintable : ¬IsPrintable c) (hline : ¬IsLineEnd c) :
    table.extras.toList.findIdx? (· = c) = some i ↔ table.OwnAt i c := by
  constructor
  · intro h
    obtain ⟨hi, hfound, hbefore⟩ := List.findIdx?_eq_some_iff_getElem.mp h
    refine ⟨?_, hprintable, hline, fun j hj hearlier => ?_⟩
    · rw [← Array.getElem?_toList, List.getElem?_eq_getElem hi, of_decide_eq_true hfound]
    · rw [← Array.getElem?_toList] at hearlier
      obtain ⟨_, heq⟩ := List.getElem?_eq_some_iff.mp hearlier
      exact hbefore j hj (decide_eq_true heq)
  · intro h
    have hplace := h.at_place
    rw [← Array.getElem?_toList] at hplace
    obtain ⟨hi, hfound⟩ := List.getElem?_eq_some_iff.mp hplace
    refine List.findIdx?_eq_some_iff_getElem.mpr ⟨hi, decide_eq_true hfound, fun j hj hearlier => ?_⟩
    apply h.not_before j hj
    rw [← Array.getElem?_toList, List.getElem?_eq_getElem (Nat.lt_trans hj hi),
      of_decide_eq_true hearlier]

/-- The codes of the table start at 155. -/
theorem toNat_extraCode (h : table.Supplied) {i : Nat} (hi : table.extras[i]? = some c) :
    (firstExtra + i).toUInt16.toNat = 155 + i := by
  have hsize := h.size_le
  obtain ⟨hlt, -⟩ := Array.getElem?_eq_some_iff.mp hi
  exact UInt16.toNat_ofNat_of_lt' (by
    show 155 + i < 65536
    omega)

/-- The characters of the codes from 155 on are those of the table. -/
theorem toChar?_extra {code : Word} {i : Nat} (h : code.toNat = 155 + i) :
    table.toChar? code = table.extras[i]? := by
  have hne (small : Word) (hsmall : small.toNat < 155) : code ≠ small := by
    rintro rfl
    omega
  have hrange : ¬(32 ≤ code ∧ code ≤ 126) := by
    rintro ⟨-, hupper⟩
    have hupper : code.toNat ≤ 126 := UInt16.le_iff_toNat_le.mp hupper
    omega
  have hextra : firstExtra ≤ code.toNat := by
    rw [h]
    exact Nat.le_add_right 155 i
  unfold toChar?
  rw [if_neg (hne 9 (by decide)), if_neg (hne 11 (by decide)), if_neg (hne 13 (by decide)),
    if_neg hrange, if_pos hextra, h]
  show table.extras[155 + i - 155]? = _
  rw [Nat.add_sub_cancel_left]

/-- The characters of the printable codes have these as their numbers. -/
theorem toChar?_printable {code : Word} (h : 32 ≤ code ∧ code ≤ 126) :
    table.toChar? code = some (Char.ofNat code.toNat) := by
  have hlower : 32 ≤ code.toNat := UInt16.le_iff_toNat_le.mp h.1
  have hne (small : Word) (hsmall : small.toNat < 32) : code ≠ small := by
    rintro rfl
    omega
  unfold toChar?
  rw [if_neg (hne 9 (by decide)), if_neg (hne 11 (by decide)), if_neg (hne 13 (by decide)), if_pos h]

/-- The printable characters have the numbers from 32 to 126. -/
theorem isPrintable_iff : IsPrintable c ↔ 32 ≤ c.toNat ∧ c.toNat ≤ 126 :=
  and_congr Char.le_def Char.le_def

/-- The code of a printable character is its number. -/
theorem toNat_codeFor_of_printable (h : IsPrintable c) : (table.codeFor c).toNat = c.toNat := by
  have hupper := (isPrintable_iff.mp h).2
  rw [codeFor, ofChar?_of_printable h, Option.getD_some]
  exact UInt16.toNat_ofNat_of_lt' (Nat.lt_of_le_of_lt hupper (by decide))

/-- A character that the table has of its own is written as the code of its place. -/
theorem codeFor_of_ownAt {i : Nat} (h : table.OwnAt i c) :
    table.codeFor c = (firstExtra + i).toUInt16 := by
  have hfound := (findIdx?_eq_some_iff h.not_printable h.not_lineEnd).mpr h
  rw [codeFor, ofChar?_of_extra h.not_printable h.not_lineEnd, hfound]
  rfl

/-! ## What encoding writes -/

/-- **How a character is written**: as the new line, as its number, as its place in the table, or
as a question mark. -/
theorem codeFor_cases (table : UnicodeTable) (c : Char) :
    (IsLineEnd c ∧ table.codeFor c = 13) ∨
    (IsPrintable c ∧ (table.codeFor c).toNat = c.toNat) ∨
    (∃ i, table.OwnAt i c ∧ table.codeFor c = (firstExtra + i).toUInt16) ∨
    (table.ofChar? c = none ∧ table.codeFor c = questionMark) := by
  by_cases hline : IsLineEnd c
  · left
    refine ⟨hline, ?_⟩
    rw [codeFor, ofChar?_of_lineEnd hline]
    rfl
  by_cases hprintable : IsPrintable c
  · exact .inr (.inl ⟨hprintable, toNat_codeFor_of_printable hprintable⟩)
  right; right
  cases hplace : table.extras.toList.findIdx? (· = c) with
  | some i =>
      have hown := (findIdx?_eq_some_iff hprintable hline).mp hplace
      exact .inl ⟨i, hown, codeFor_of_ownAt hown⟩
  | none =>
      have hnone : table.ofChar? c = none := by
        rw [ofChar?_of_extra hprintable hline, hplace]
        rfl
      right
      refine ⟨hnone, ?_⟩
      rw [codeFor, hnone]
      rfl

/-- **Every code that is written is proper.** -/
theorem proper_codeFor (h : table.Supplied) (c : Char) : table.Proper (table.codeFor c) := by
  rcases codeFor_cases table c with ⟨-, hcode⟩ | ⟨hprintable, hcode⟩ | ⟨i, hown, hcode⟩ | ⟨-, hcode⟩
  · exact .inl hcode
  · obtain ⟨hlower, hupper⟩ := isPrintable_iff.mp hprintable
    right; left
    rw [UInt16.le_iff_toNat_le, UInt16.le_iff_toNat_le, hcode]
    exact ⟨hlower, hupper⟩
  · right; right
    refine ⟨i, c, ?_, hown⟩
    rw [hcode]
    exact toNat_extraCode h hown.at_place
  · right; left
    rw [hcode]
    decide

/-- **What is read back from it** is the character, a new line, or a question mark. -/
theorem toChar?_codeFor (h : table.Supplied) (c : Char) :
    table.toChar? (table.codeFor c) = some (table.returned c) := by
  rcases codeFor_cases table c with ⟨hline, hcode⟩ | ⟨hprintable, hcode⟩ | ⟨i, hown, hcode⟩ |
    ⟨hnone, hcode⟩
  · rw [hcode]
    rcases hline with rfl | rfl
    · rw [returned, ofChar?_of_lineEnd (.inl rfl)]
      rfl
    · rfl
  · have hrange : 32 ≤ table.codeFor c ∧ table.codeFor c ≤ 126 := by
      rw [UInt16.le_iff_toNat_le, UInt16.le_iff_toNat_le, hcode]
      exact isPrintable_iff.mp hprintable
    have hreturn : c ≠ '\r' := by
      rintro rfl
      exact absurd hprintable (by decide)
    rw [toChar?_printable hrange, hcode, Char.ofNat_toNat, returned, if_neg hreturn,
      ofChar?_of_printable hprintable]
    rfl
  · have hreturn : c ≠ '\r' := fun heq => hown.not_lineEnd (.inr heq)
    have hsome : table.ofChar? c ≠ none := by
      rw [ofChar?_of_extra hown.not_printable hown.not_lineEnd,
        (findIdx?_eq_some_iff hown.not_printable hown.not_lineEnd).mpr hown]
      exact Option.some_ne_none _
    have hplace : (table.codeFor c).toNat = 155 + i := by
      rw [hcode]
      exact toNat_extraCode h hown.at_place
    rw [toChar?_extra hplace, hown.at_place, returned, if_neg hreturn, if_neg hsome]
  · have hreturn : c ≠ '\r' := by
      rintro rfl
      rw [ofChar?_of_lineEnd (.inr rfl)] at hnone
      exact nomatch hnone
    rw [hcode, returned, if_neg hreturn, if_pos hnone]
    rfl

/-- **A proper code is the code of its character.** -/
theorem codeFor_of_proper (h : table.Supplied) {code : Word} (hproper : table.Proper code) :
    ∃ c, table.toChar? code = some c ∧ table.codeFor c = code := by
  rcases hproper with rfl | hrange | ⟨i, c, hplace, hown⟩
  · refine ⟨'\n', rfl, ?_⟩
    rw [codeFor, ofChar?_of_lineEnd (.inl rfl)]
    rfl
  · have hlower : 32 ≤ code.toNat := UInt16.le_iff_toNat_le.mp hrange.1
    have hupper : code.toNat ≤ 126 := UInt16.le_iff_toNat_le.mp hrange.2
    have hnumber : (Char.ofNat code.toNat).toNat = code.toNat := by
      rw [Char.ofNat, dif_pos (.inl (by omega))]
      rfl
    have hprintable : IsPrintable (Char.ofNat code.toNat) := by
      rw [isPrintable_iff, hnumber]
      exact ⟨hlower, hupper⟩
    refine ⟨_, toChar?_printable hrange, UInt16.toNat_inj.mp ?_⟩
    rw [toNat_codeFor_of_printable hprintable, hnumber]
  · refine ⟨c, (toChar?_extra hplace).trans hown.at_place, UInt16.toNat_inj.mp ?_⟩
    rw [codeFor_of_ownAt hown, toNat_extraCode h hown.at_place, hplace]

/-! ## Texts and lists of codes -/

theorem encode_eq (table : UnicodeTable) (text : String) :
    table.encode text = text.toList.map table.codeFor := rfl

/-- Text is read code by code, without those that stand for nothing. -/
theorem toList_decode (table : UnicodeTable) (codes : List Word) :
    (table.decode codes).toList = codes.filterMap table.toChar? :=
  String.toList_ofList

/-- A text that is written and read again has each character returned. -/
theorem decode_encode (h : table.Supplied) (text : String) :
    table.decode (table.encode text) = String.ofList (text.toList.map table.returned) := by
  have hreturn : table.toChar? ∘ table.codeFor = some ∘ table.returned :=
    funext fun c => toChar?_codeFor h c
  rw [decode, encode_eq, List.filterMap_map, hreturn, List.filterMap_eq_map]

/-- Decoding may lose codes, but adds none. -/
theorem length_encode_decode_le (table : UnicodeTable) (codes : List Word) :
    (table.encode (table.decode codes)).length ≤ codes.length := by
  rw [encode_eq, List.length_map, toList_decode]
  exact List.length_filterMap_le _ _

/-- Codes that are read and written again are written one by one. -/
theorem encode_decode_cons (table : UnicodeTable) (code : Word) (codes : List Word) :
    table.encode (table.decode (code :: codes))
      = ((table.toChar? code).map table.codeFor).toList ++ table.encode (table.decode codes) := by
  rw [encode_eq, encode_eq, toList_decode, toList_decode, List.filterMap_cons]
  cases table.toChar? code with
  | none => rfl
  | some c => rfl

/-- **Codes come back from their text** exactly if they are proper.  A code that is not is lost,
and then there are too few. -/
theorem encode_decode_iff (h : table.Supplied) (codes : List Word) :
    table.encode (table.decode codes) = codes ↔ ∀ code ∈ codes, table.Proper code := by
  induction codes with
  | nil => exact ⟨fun _ code hmem => absurd hmem List.not_mem_nil, fun _ => rfl⟩
  | cons code codes ih =>
      rw [encode_decode_cons, List.forall_mem_cons, ← ih]
      constructor
      · intro heq
        cases hchar : table.toChar? code with
        | none =>
            rw [hchar] at heq
            have hlength := congrArg List.length heq
            have hle := length_encode_decode_le table codes
            simp only [Option.map_none, Option.toList_none, List.nil_append,
              List.length_cons] at hlength
            omega
        | some c =>
            rw [hchar] at heq
            obtain ⟨hcode, hrest⟩ := List.cons.inj heq
            exact ⟨hcode ▸ proper_codeFor h c, hrest⟩
      · rintro ⟨hproper, hrest⟩
        obtain ⟨c, hchar, hcode⟩ := codeFor_of_proper h hproper
        rw [hchar, hrest, Option.map_some, hcode]
        rfl

/-- **The translation, there and back.**  With any table that a story can have, a text that is
written in codes and read again has new lines for its carriage returns and question marks for the
characters that have no code, and is the same otherwise.  Codes that are turned into text and back
are the same again if and only if all of them are proper. -/
theorem translation_round_trip (h : table.Supplied) :
    (∀ text, table.decode (table.encode text) = String.ofList (text.toList.map table.returned)) ∧
      ∀ codes, table.encode (table.decode codes) = codes ↔ ∀ code ∈ codes, table.Proper code :=
  ⟨decode_encode h, encode_decode_iff h⟩

/-- A table with a letter that is printable, one that stands there twice, and a line end. -/
def awkward : UnicodeTable where
  extras := #['A', 'é', 'é', '\n', '☃']

/-- It can be read from memory.  Two of its five codes are proper. -/
theorem translation_round_trip_awkward :
    awkward.Supplied ∧ awkward.decode (awkward.encode "A\ré☃ß") = "A\né☃?" ∧
      awkward.encode (awkward.decode [13, 65, 156, 159]) = [13, 65, 156, 159] ∧
      ∀ code ∈ [(155 : Word), 157, 158], awkward.encode (awkward.decode [code]) ≠ [code] := by
  have hsupplied : awkward.Supplied := by
    refine .inr ⟨#[5, 0, 0x41, 0, 0xe9, 0, 0xe9, 0, 0x0a, 0x26, 0x03], 0, ?_⟩
    decide +kernel
  obtain ⟨htext, hcodes⟩ := translation_round_trip hsupplied
  have hsecond : awkward.OwnAt 1 'é' := ⟨rfl, by decide, by decide, by decide⟩
  have hfifth : awkward.OwnAt 4 '☃' := ⟨rfl, by decide, by decide, by decide⟩
  have hproper : ∀ code ∈ [(13 : Word), 65, 156, 159], awkward.Proper code := by
    simp only [List.forall_mem_cons]
    exact ⟨.inl rfl, .inr (.inl (by decide)), .inr (.inr ⟨1, 'é', rfl, hsecond⟩),
      .inr (.inr ⟨4, '☃', rfl, hfifth⟩), List.forall_mem_nil _⟩
  have hreturned : "A\ré☃ß".toList.map awkward.returned = ['A', '\n', 'é', '☃', '?'] := by decide
  refine ⟨hsupplied, ?_, (hcodes _).mpr hproper, ?_⟩
  · rw [htext, hreturned]
  · simp only [List.forall_mem_cons]
    exact ⟨by decide +kernel, by decide +kernel, by decide +kernel, List.forall_mem_nil _⟩

end StoryMachine.UnicodeTable
