import Mathlib.Tactic.IntervalCases
import StoryMachine.Proofs.DictionaryCache

/-!
# What is left of a word in a dictionary key

A key holds six or nine five bit characters, so a long word is cut, at times in the middle
of a shift or of an escape, and a short one is filled up with shifts.  Reading the key gives
back the longest beginning of the word that fits, and not a code more (`key_round_trip`).

**A spelling says the same to every reader.**  `Codec.Reads` is what five bit characters do
to a reading whatever abbreviations there are.  The spelling of a code adds the code
(`reads_spell`).  What is left behind the last whole spelling adds nothing: that is either
the beginning of a spelling, which is never the whole of it, or shifts only (`Silent`).
-/

namespace StoryMachine

namespace Alphabet

/-- The first place of a row whose character stands for a code: the first place of the third
row is the escape. -/
def firstPlace : Row → Nat
  | .first => 0
  | .second => 0
  | .third => 1

/-- A code has a place in a row. -/
def InRow (alphabet : Alphabet) (row : Row) (code : Word) : Prop :=
  code ≠ 0 ∧ ∃ byte ∈ (alphabet.row row).toList.drop (firstPlace row), byte.toUInt16 = code

instance (alphabet : Alphabet) (row : Row) (code : Word) : Decidable (alphabet.InRow row code) :=
  inferInstanceAs (Decidable (_ ∧ _))

/-- A character that is read in a row as a code. -/
structure StandsFor (alphabet : Alphabet) (row : Row) (zchar : UInt8) (code : Word) : Prop where
  six_le : 6 ≤ zchar
  lt : zchar < 32
  ne_escape : row = .third → zchar ≠ 6
  code_eq : alphabet.code row zchar = code

variable {alphabet : Alphabet} {code : Word} {row : Row} {zchar : UInt8}

/-- What is found in a row stands for the code there. -/
theorem standsFor_of_place? (h : place? (alphabet.row row) (firstPlace row) code = some zchar) :
    alphabet.StandsFor row zchar code := by
  obtain ⟨i, hi, rfl⟩ := Option.map_eq_some_iff.mp h
  obtain ⟨hlt, hcode, -⟩ := List.findIdx?_eq_some_iff_getElem.mp hi
  rw [List.getElem_drop, decide_eq_true_eq] at hcode
  rw [List.length_drop, Vector.length_toList] at hlt
  have hzchar : (i + firstPlace row + 6).toUInt8.toNat = i + firstPlace row + 6 := by
    rw [Nat.toUInt8_eq, UInt8.toNat_ofNat']
    omega
  refine ⟨UInt8.le_iff_toNat_le.mpr ?_, UInt8.lt_iff_toNat_lt.mpr ?_, ?_, ?_⟩
  · rw [hzchar]
    exact Nat.le_add_left 6 _
  · rw [hzchar]
    exact (by omega : i + firstPlace row + 6 < 32)
  · rintro rfl heq
    rw [heq] at hzchar
    exact absurd hzchar (by simp [firstPlace])
  · have hplace : i + firstPlace row < (alphabet.row row).toArray.size := by
      rw [Vector.size_toArray]
      omega
    rw [Alphabet.code, hzchar, Nat.add_sub_cancel, ← hcode, Array.getD_eq_getD_getElem?,
      Array.getElem?_eq_getElem hplace]
    simp [Nat.add_comm]

/-- A code that is in no place of a row is not found in it. -/
theorem place?_eq_none (hcode : code ≠ 0) :
    place? (alphabet.row row) (firstPlace row) code = none ↔ ¬ alphabet.InRow row code := by
  simp [place?, InRow, hcode]

/-- What is asked of the rows one after another is found in the first that has it. -/
theorem find?_cases (alphabet : Alphabet) (code : Word) :
    (alphabet.find? code = none ∧ ∀ row, ¬ alphabet.InRow row code) ∨
      ∃ row zchar, alphabet.find? code = some (row, zchar) ∧
        alphabet.StandsFor row zchar code ∧ alphabet.InRow row code ∧
        ∀ earlier : Row, earlier.number < row.number → ¬ alphabet.InRow earlier code := by
  by_cases hnone : code = 0 ∨ 255 < code
  case pos =>
    refine .inl ⟨if_pos hnone, ?_⟩
    rintro row ⟨hzero, byte, -, rfl⟩
    refine hnone.elim hzero fun hlt => ?_
    have hbyte := byte.toNat_lt
    rw [UInt16.lt_iff_toNat_lt, UInt8.toNat_toUInt16] at hlt
    exact absurd hlt (Nat.not_lt.mpr (Nat.le_of_lt_succ hbyte))
  case neg =>
    have hzero : code ≠ 0 := fun h => hnone (.inl h)
    have hfind : alphabet.find? code
        = ((place? (alphabet.row .first) (firstPlace .first) code).map (Prod.mk .first)
          <|> (place? (alphabet.row .second) (firstPlace .second) code).map (Prod.mk .second)
          <|> (place? (alphabet.row .third) (firstPlace .third) code).map (Prod.mk .third)) :=
      if_neg hnone
    have hin {row : Row} {zchar : UInt8}
        (h : place? (alphabet.row row) (firstPlace row) code = some zchar) :
        alphabet.InRow row code :=
      Decidable.not_not.mp fun hnot =>
        Option.some_ne_none zchar (h.symm.trans ((place?_eq_none hzero).mpr hnot))
    rw [hfind]
    cases hfirst : place? (alphabet.row .first) (firstPlace .first) code with
    | some zchar =>
        exact .inr ⟨.first, zchar, rfl, standsFor_of_place? hfirst, hin hfirst, fun _ h => nomatch h⟩
    | none =>
        have hnotFirst := (place?_eq_none hzero).mp hfirst
        cases hsecond : place? (alphabet.row .second) (firstPlace .second) code with
        | some zchar =>
            refine .inr ⟨.second, zchar, rfl, standsFor_of_place? hsecond, hin hsecond, ?_⟩
            intro earlier hearlier
            cases earlier with
            | first => exact hnotFirst
            | second => exact absurd hearlier (by decide)
            | third => exact absurd hearlier (by decide)
        | none =>
            have hnotSecond := (place?_eq_none hzero).mp hsecond
            cases hthird : place? (alphabet.row .third) (firstPlace .third) code with
            | some zchar =>
                refine .inr ⟨.third, zchar, rfl, standsFor_of_place? hthird, hin hthird, ?_⟩
                intro earlier hearlier
                cases earlier with
                | first => exact hnotFirst
                | second => exact hnotSecond
                | third => exact absurd hearlier (by decide)
            | none =>
                refine .inl ⟨rfl, fun row => ?_⟩
                cases row with
                | first => exact hnotFirst
                | second => exact hnotSecond
                | third => exact (place?_eq_none hzero).mp hthird

end Alphabet

namespace Codec

/-- How many five bit characters a code takes: one for a space or a code of the first row, two
for a code of another row, and four for any other code. -/
def cost (codec : Codec) (code : Word) : Nat :=
  if code = 32 ∨ codec.alphabet.InRow .first code then 1
  else if codec.alphabet.InRow .second code ∨ codec.alphabet.InRow .third code then 2
  else 4

/-- The longest beginning of a text whose spelling fits in a key. -/
structure LongestFit (codec : Codec) (text kept : List Word) : Prop where
  start : kept <+: text
  fits : (kept.map codec.cost).sum ≤ codec.keyLength
  longest : ∀ other, other <+: text → (other.map codec.cost).sum ≤ codec.keyLength →
    other <+: kept

/-- What five bit characters do to a reading, whatever abbreviations there are and wherever
the characters stand. -/
inductive Reads (codec : Codec) : List UInt8 → Reading → Reading → Prop
  | nil (reading : Reading) : Reads codec [] reading reading
  | cons {zchar : UInt8} {zchars : List UInt8} {reading next last : Reading}
      (haccept : ∀ expand address, codec.accept expand address reading zchar = .ok next)
      (hrest : Reads codec zchars next last) : Reads codec (zchar :: zchars) reading last

/-- Five bit characters that leave the codes read before them as they are. -/
def Silent (codec : Codec) (zchars : List UInt8) : Prop :=
  ∀ out, ∃ last, codec.Reads zchars { out } last ∧ last.out = out

variable {codec : Codec} {zchars more : List UInt8} {reading next last : Reading} {code : Word}

/-! ## Reading characters -/

/-- Characters read after others are read together with them. -/
theorem Reads.append (h : codec.Reads zchars reading next) (hmore : codec.Reads more next last) :
    codec.Reads (zchars ++ more) reading last := by
  induction h with
  | nil reading => exact hmore
  | cons haccept hrest ih => exact .cons haccept (ih hmore)

/-- Characters that are read together are read one part after the other. -/
theorem Reads.split (h : codec.Reads (zchars ++ more) reading last) :
    ∃ next, codec.Reads zchars reading next ∧ codec.Reads more next last := by
  induction zchars generalizing reading with
  | nil => exact ⟨reading, .nil reading, h⟩
  | cons zchar zchars ih =>
      cases h with
      | cons haccept hrest =>
          obtain ⟨next, hzchars, hmore⟩ := ih hrest
          exact ⟨next, .cons haccept hzchars, hmore⟩

/-- What characters do to a reading is what taking them one by one does. -/
theorem Reads.foldlM_eq (h : codec.Reads zchars reading last)
    (expand : Option (Nat → Except Fault (Array Word))) (address : Nat) :
    zchars.foldlM (codec.accept expand address) reading = .ok last := by
  induction h with
  | nil reading => rfl
  | cons haccept hrest ih =>
      rw [List.foldlM_cons, haccept]
      exact ih

/-! ## Spellings -/

/-- How a code is spelt, by what its place in the alphabet is. -/
theorem spell_cases (codec : Codec) (code : Word) :
    (code = 32 ∧ codec.spell code = [0] ∧ codec.cost code = 1) ∨
      (∃ zchar, codec.alphabet.StandsFor .first zchar code ∧ codec.spell code = [zchar] ∧
        codec.cost code = 1) ∨
      (∃ zchar, codec.alphabet.StandsFor .second zchar code ∧ codec.spell code = [4, zchar] ∧
        codec.cost code = 2) ∨
      (∃ zchar, codec.alphabet.StandsFor .third zchar code ∧ codec.spell code = [5, zchar] ∧
        codec.cost code = 2) ∨
      (codec.spell code = [(5 : UInt8), 6, ((code >>> 5) &&& 0x1f).toUInt8, (code &&& 0x1f).toUInt8] ∧
        codec.cost code = 4) := by
  by_cases hspace : code = 32
  case pos => exact .inl ⟨hspace, if_pos hspace, if_pos (.inl hspace)⟩
  case neg =>
    refine .inr ?_
    rcases codec.alphabet.find?_cases code with
      ⟨hfind, hnot⟩ | ⟨row, zchar, hfind, hstands, hin, hnot⟩
    · refine .inr (.inr (.inr ⟨by rw [spell, if_neg hspace, hfind], ?_⟩))
      simp [cost, hspace, hnot]
    · cases row with
      | first => exact .inl ⟨zchar, hstands, by rw [spell, if_neg hspace, hfind], if_pos (.inr hin)⟩
      | second =>
          refine .inr (.inl ⟨zchar, hstands, by rw [spell, if_neg hspace, hfind], ?_⟩)
          simp [cost, hspace, hnot .first (by decide), hin]
      | third =>
          refine .inr (.inr (.inl ⟨zchar, hstands, by rw [spell, if_neg hspace, hfind], ?_⟩))
          simp [cost, hspace, hnot .first (by decide), hin]

/-- A code is spelt with as many characters as it costs. -/
theorem length_spell (codec : Codec) (code : Word) :
    (codec.spell code).length = codec.cost code := by
  rcases codec.spell_cases code with ⟨-, hspell, hcost⟩ | ⟨_, -, hspell, hcost⟩ |
      ⟨_, -, hspell, hcost⟩ | ⟨_, -, hspell, hcost⟩ | ⟨hspell, hcost⟩ <;>
    rw [hspell, hcost] <;> rfl

/-- The low five bits of a word are a character. -/
theorem low_five_lt (w : Word) : (w &&& 0x1f).toUInt8 < 32 := by
  rw [UInt8.lt_iff_toNat_lt, UInt16.toNat_toUInt8, UInt16.toNat_and]
  have hlow : w.toNat &&& (0x1f : UInt16).toNat = w.toNat % 2 ^ 5 :=
    Nat.and_two_pow_sub_one_eq_mod w.toNat 5
  rw [hlow]
  exact Nat.lt_of_le_of_lt (Nat.mod_le _ _) (Nat.mod_lt _ (by decide))

/-- Spellings are made of five bit characters. -/
theorem lt_of_mem_spell {zchar : UInt8} (h : zchar ∈ codec.spell code) : zchar < 32 := by
  rcases codec.spell_cases code with ⟨-, hspell, -⟩ | ⟨_, hstands, hspell, -⟩ |
      ⟨_, hstands, hspell, -⟩ | ⟨_, hstands, hspell, -⟩ | ⟨hspell, -⟩ <;>
    rw [hspell] at h <;> simp only [List.mem_cons, List.not_mem_nil, or_false] at h
  · exact h ▸ by decide
  · exact h ▸ hstands.lt
  · rcases h with rfl | rfl
    · decide
    · exact hstands.lt
  · rcases h with rfl | rfl
    · decide
    · exact hstands.lt
  · rcases h with rfl | rfl | rfl | rfl
    · decide
    · decide
    · exact low_five_lt _
    · exact low_five_lt _

/-- The two halves of an escape are put together again. -/
theorem escape_code (h : code < 1024) :
    ((((code >>> 5) &&& 0x1f).toUInt8.toUInt16 <<< 5) ||| (code &&& 0x1f).toUInt8.toUInt16)
      = code := by
  have hcode : code.toNat < 1024 := UInt16.lt_iff_toNat_lt.mp h
  have hand (n : Nat) : n &&& 31 = n % 32 := Nat.and_two_pow_sub_one_eq_mod n 5
  have hmod : code.toNat % 32 < 2 ^ 5 := Nat.mod_lt _ (by decide)
  apply UInt16.toNat.inj
  simp only [UInt16.toNat_or, UInt16.toNat_shiftLeft, UInt16.toNat_shiftRight, UInt16.toNat_and,
    UInt8.toNat_toUInt16, UInt16.toNat_toUInt8, UInt16.toNat_ofNat, Nat.reducePow, Nat.reduceMod,
    hand, Nat.shiftRight_eq_div_pow]
  have hhigh : (code.toNat / 32 % 32 % 256) <<< 5 % 65536 = (code.toNat / 32) <<< 5 := by
    rw [Nat.shiftLeft_eq, Nat.shiftLeft_eq]
    omega
  have hlow : code.toNat % 32 % 256 = code.toNat % 32 := by omega
  rw [hhigh, hlow, ← Nat.shiftLeft_add_eq_or_of_lt hmod, Nat.shiftLeft_eq]
  omega

/-- A character that stands for a code adds it. -/
theorem accept_standsFor {row : Row} {zchar : UInt8} (h : codec.alphabet.StandsFor row zchar code)
    (out : Array Word) (expand : Option (Nat → Except Fault (Array Word))) (address : Nat) :
    codec.accept expand address { row, out } zchar = .ok { out := out.push code } := by
  have hsix := UInt8.le_iff_toNat_le.mp h.six_le
  have hzero : zchar ≠ 0 := by
    rintro rfl
    exact absurd hsix (by decide)
  have hthree : ¬ zchar ≤ 3 := fun hle =>
    absurd (Nat.le_trans hsix (UInt8.le_iff_toNat_le.mp hle)) (by decide)
  have hfour : zchar ≠ 4 := by
    rintro rfl
    exact absurd hsix (by decide)
  have hfive : zchar ≠ 5 := by
    rintro rfl
    exact absurd hsix (by decide)
  have hescape : ¬ (zchar = 6 ∧ row = .third) := fun ⟨heq, hrow⟩ => h.ne_escape hrow heq
  simp only [accept, if_neg hzero, if_neg hthree, if_neg hfour, if_neg hfive, if_neg hescape,
    h.code_eq]

/-- The escape takes the reading to the high half of a code. -/
theorem accept_escape (out : Array Word) (expand : Option (Nat → Except Fault (Array Word)))
    (address : Nat) :
    codec.accept expand address { row := .third, out } 6
      = .ok { expecting := .escapeHigh, out } := rfl

/-- **One code.**  Its spelling adds the code and nothing else. -/
theorem reads_spell (h : code < 1024) (out : Array Word) :
    codec.Reads (codec.spell code) { out } { out := out.push code } := by
  rcases codec.spell_cases code with ⟨rfl, hspell, -⟩ | ⟨zchar, hstands, hspell, -⟩ |
      ⟨zchar, hstands, hspell, -⟩ | ⟨zchar, hstands, hspell, -⟩ | ⟨hspell, -⟩ <;> rw [hspell]
  · exact .cons (fun _ _ => rfl) (.nil _)
  · exact .cons (accept_standsFor hstands out) (.nil _)
  · exact .cons (fun _ _ => rfl) (.cons (accept_standsFor hstands out) (.nil _))
  · exact .cons (fun _ _ => rfl) (.cons (accept_standsFor hstands out) (.nil _))
  · refine .cons (fun _ _ => rfl) (.cons (accept_escape out) (.cons (fun _ _ => rfl) ?_))
    refine .cons (fun _ _ => ?_) (.nil _)
    simp only [accept, escape_code h]

/-- **All codes.**  The spellings of several codes add them in their order. -/
theorem reads_flatMap_spell {text : List Word} (h : ∀ code ∈ text, code < 1024)
    (out : Array Word) :
    codec.Reads (text.flatMap codec.spell) { out } { out := out ++ text.toArray } := by
  induction text generalizing out with
  | nil =>
      rw [List.flatMap_nil, Array.append_empty]
      exact .nil _
  | cons code text ih =>
      rw [List.flatMap_cons]
      refine (reads_spell (h code List.mem_cons_self) out).append ?_
      have hout : out ++ (code :: text).toArray = out.push code ++ text.toArray := by simp
      rw [hout]
      exact ih (fun other hother => h other (List.mem_cons_of_mem _ hother)) (out.push code)

/-! ## What is left behind the last spelling -/

/-- Shifts add nothing, however many there are. -/
theorem reads_shifts (n : Nat) (row : Row) (out : Array Word) :
    ∃ last, codec.Reads (List.replicate n 5) { row, out } last ∧ last.out = out := by
  induction n generalizing row with
  | zero => exact ⟨_, .nil _, rfl⟩
  | succ n ih =>
      obtain ⟨last, hlast, hout⟩ := ih .third
      exact ⟨last, .cons (fun _ _ => rfl) hlast, hout⟩

/-- The characters that fill a key up say nothing. -/
theorem silent_replicate (n : Nat) : codec.Silent (List.replicate n 5) :=
  reads_shifts n .first

/-- The beginning of a spelling adds nothing: a code comes with the last of its characters. -/
theorem silent_take {n : Nat} (h : n < (codec.spell code).length) :
    codec.Silent ((codec.spell code).take n) := by
  intro out
  rcases codec.spell_cases code with ⟨-, hspell, -⟩ | ⟨zchar, -, hspell, -⟩ |
      ⟨zchar, -, hspell, -⟩ | ⟨zchar, -, hspell, -⟩ | ⟨hspell, -⟩ <;>
    rw [hspell] at h ⊢ <;> simp only [List.length_cons, List.length_nil] at h
  · interval_cases n
    exact ⟨_, .nil _, rfl⟩
  · interval_cases n
    exact ⟨_, .nil _, rfl⟩
  · interval_cases n
    · exact ⟨_, .nil _, rfl⟩
    · exact ⟨_, .cons (fun _ _ => rfl) (.nil _), rfl⟩
  · interval_cases n
    · exact ⟨_, .nil _, rfl⟩
    · exact ⟨_, .cons (fun _ _ => rfl) (.nil _), rfl⟩
  · interval_cases n
    · exact ⟨_, .nil _, rfl⟩
    · exact ⟨_, .cons (fun _ _ => rfl) (.nil _), rfl⟩
    · exact ⟨_, .cons (fun _ _ => rfl) (.cons (accept_escape out) (.nil _)), rfl⟩
    · exact ⟨_, .cons (fun _ _ => rfl) (.cons (accept_escape out) (.cons (fun _ _ => rfl) (.nil _))),
        rfl⟩

/-- The codes from the front whose spellings fit in so many characters. -/
def fitting (codec : Codec) : (room : Nat) → List Word → List Word
  | _, [] => []
  | room, code :: text =>
    if codec.cost code ≤ room then code :: fitting codec (room - codec.cost code) text else []

/-- The codes that fit are the beginning of the text. -/
theorem fitting_isPrefix (codec : Codec) (room : Nat) (text : List Word) :
    codec.fitting room text <+: text := by
  induction text generalizing room with
  | nil => exact List.prefix_rfl
  | cons code text ih =>
      rw [fitting]
      split
      case isTrue => exact (List.prefix_cons_inj code).mpr (ih _)
      case isFalse => exact List.nil_prefix

/-- The codes that fit cost no more than there is room for. -/
theorem cost_fitting_le (codec : Codec) (room : Nat) (text : List Word) :
    ((codec.fitting room text).map codec.cost).sum ≤ room := by
  induction text generalizing room with
  | nil => exact Nat.zero_le _
  | cons code text ih =>
      rw [fitting]
      split
      case isTrue hcost =>
        have hrest := ih (room - codec.cost code)
        rw [List.map_cons, List.sum_cons]
        omega
      case isFalse => exact Nat.zero_le _

/-- A beginning of the text whose cost fits is within what fits. -/
theorem isPrefix_fitting {room : Nat} {text other : List Word} (h : other <+: text)
    (hfits : (other.map codec.cost).sum ≤ room) : other <+: codec.fitting room text := by
  induction text generalizing room other with
  | nil => exact h
  | cons code text ih =>
      cases other with
      | nil => exact List.nil_prefix
      | cons first other =>
          obtain ⟨rfl, hother⟩ := List.cons_prefix_cons.mp h
          rw [List.map_cons, List.sum_cons] at hfits
          rw [fitting, if_pos (by omega)]
          exact (List.prefix_cons_inj first).mpr (ih hother (by omega))

/-- **What fits is the longest beginning that fits.** -/
theorem longestFit_fitting (codec : Codec) (text : List Word) :
    codec.LongestFit text (codec.fitting codec.keyLength text) :=
  ⟨codec.fitting_isPrefix _ text, codec.cost_fitting_le _ text, fun _ => isPrefix_fitting⟩

/-- **The cut.**  The characters of a key are those of the codes that fit, with something behind
them that adds nothing. -/
theorem exists_silent (codec : Codec) (room : Nat) (text : List Word) :
    ∃ rest, codec.Silent rest ∧
      (text.flatMap codec.spell).take room
          ++ List.replicate (room - ((text.flatMap codec.spell).take room).length) 5
        = (codec.fitting room text).flatMap codec.spell ++ rest := by
  induction text generalizing room with
  | nil => exact ⟨List.replicate room 5, silent_replicate room, by simp [fitting]⟩
  | cons code text ih =>
      rw [List.flatMap_cons, fitting]
      split
      case isTrue hcost =>
        obtain ⟨rest, hsilent, heq⟩ := ih (room - codec.cost code)
        refine ⟨rest, hsilent, ?_⟩
        rw [List.flatMap_cons, List.append_assoc, ← heq, ← length_spell, List.take_append,
          List.take_of_length_le (codec.length_spell code ▸ hcost), List.append_assoc,
          List.length_append, Nat.sub_add_eq]
      case isFalse hcost =>
        have hlt : room < (codec.spell code).length :=
          codec.length_spell code ▸ Nat.not_le.mp hcost
        refine ⟨(codec.spell code).take room, silent_take hlt, ?_⟩
        rw [List.take_append_of_le_length (Nat.le_of_lt hlt), List.length_take,
          Nat.min_eq_left (Nat.le_of_lt hlt), Nat.sub_self, List.replicate_zero, List.append_nil,
          List.flatMap_nil, List.nil_append]

/-! ## Packing -/

section Packing

variable {a b c : UInt8}

/-- The three characters of a word, told by its value. -/
theorem zchars_eq {word : Word} (ha : a < 32) (hb : b < 32) (hc : c < 32)
    (h : word.toNat % 32768 = a.toNat * 1024 + b.toNat * 32 + c.toNat) :
    Codec.zchars word = [a, b, c] := by
  have ha : a.toNat < 32 := UInt8.lt_iff_toNat_lt.mp ha
  have hb : b.toNat < 32 := UInt8.lt_iff_toNat_lt.mp hb
  have hc : c.toNat < 32 := UInt8.lt_iff_toNat_lt.mp hc
  have hand (n : Nat) : n &&& 31 = n % 32 := Nat.and_two_pow_sub_one_eq_mod n 5
  simp only [Codec.zchars, List.cons.injEq, and_true, ← UInt8.toNat_inj, UInt16.toNat_toUInt8,
    UInt16.toNat_and, UInt16.toNat_shiftRight, UInt16.toNat_ofNat, Nat.reducePow, Nat.reduceMod,
    hand, Nat.shiftRight_eq_div_pow]
  refine ⟨?_, ?_, ?_⟩ <;> omega

/-- The value of three packed characters. -/
theorem toNat_packed (ha : a < 32) (hb : b < 32) (hc : c < 32) :
    ((a.toUInt16 <<< 10) ||| (b.toUInt16 <<< 5) ||| c.toUInt16).toNat
      = a.toNat * 1024 + b.toNat * 32 + c.toNat := by
  have ha : a.toNat < 32 := UInt8.lt_iff_toNat_lt.mp ha
  have hb : b.toNat < 32 := UInt8.lt_iff_toNat_lt.mp hb
  have hc : c.toNat < 32 := UInt8.lt_iff_toNat_lt.mp hc
  have hb' : b.toNat <<< 5 % 65536 = b.toNat <<< 5 := by
    rw [Nat.shiftLeft_eq]
    omega
  have ha' : a.toNat <<< 10 % 65536 = a.toNat <<< 10 := by
    rw [Nat.shiftLeft_eq]
    omega
  simp only [UInt16.toNat_or, UInt16.toNat_shiftLeft, UInt8.toNat_toUInt16, UInt16.toNat_ofNat,
    Nat.reducePow, Nat.reduceMod, ha', hb']
  have hlow : b.toNat <<< 5 ||| c.toNat = b.toNat * 32 + c.toNat := by
    rw [← Nat.shiftLeft_add_eq_or_of_lt (i := 5) hc, Nat.shiftLeft_eq]
  have hlt : b.toNat * 32 + c.toNat < 2 ^ 10 := by omega
  rw [Nat.or_assoc, hlow, ← Nat.shiftLeft_add_eq_or_of_lt hlt, Nat.shiftLeft_eq, Nat.add_assoc]

/-- **One word.**  It holds its three characters, and its top bit tells whether it is the last. -/
theorem exists_pack_cons (ha : a < 32) (hb : b < 32) (hc : c < 32) (rest : List UInt8) :
    ∃ word, pack (a :: b :: c :: rest) = word :: pack rest ∧ Codec.zchars word = [a, b, c] ∧
      (word < 0x8000 ↔ rest ≠ []) := by
  have hvalue := toNat_packed ha hb hc
  have hsmall : ((a.toUInt16 <<< 10) ||| (b.toUInt16 <<< 5) ||| c.toUInt16).toNat < 2 ^ 15 := by
    have ha : a.toNat < 32 := UInt8.lt_iff_toNat_lt.mp ha
    have hb : b.toNat < 32 := UInt8.lt_iff_toNat_lt.mp hb
    have hc : c.toNat < 32 := UInt8.lt_iff_toNat_lt.mp hc
    omega
  cases rest with
  | nil =>
      have hmarked : (((a.toUInt16 <<< 10) ||| (b.toUInt16 <<< 5) ||| c.toUInt16) ||| 0x8000).toNat
          = 2 ^ 15 + ((a.toUInt16 <<< 10) ||| (b.toUInt16 <<< 5) ||| c.toUInt16).toNat := by
        rw [UInt16.toNat_or, Nat.or_comm]
        exact (Nat.two_pow_add_eq_or_of_lt hsmall 1).symm
      refine ⟨_, rfl, zchars_eq ha hb hc ?_, ?_⟩
      · rw [List.isEmpty_nil, if_pos rfl, hmarked]
        omega
      · rw [List.isEmpty_nil, if_pos rfl, UInt16.lt_iff_toNat_lt, hmarked]
        simp
  | cons d rest =>
      refine ⟨_, rfl, zchars_eq ha hb hc ?_, ?_⟩
      · rw [List.isEmpty_cons, if_neg Bool.false_ne_true]
        omega
      · rw [List.isEmpty_cons, if_neg Bool.false_ne_true, UInt16.lt_iff_toNat_lt]
        exact iff_of_true hsmall (List.cons_ne_nil d rest)

end Packing

/-- Words and the characters in them: the top bit of the last word is set, and no other. -/
inductive Packed : List UInt8 → List Word → Prop
  | last {word : Word} (hlast : ¬ word < 0x8000) : Packed (Codec.zchars word) [word]
  | more {word : Word} {zchars : List UInt8} {words : List Word} (hmore : word < 0x8000)
      (hrest : Packed zchars words) : Packed (Codec.zchars word ++ zchars) (word :: words)

/-- Packed characters of five bits have the top bit on their last word only. -/
theorem packed_pack {n : Nat} (hlength : zchars.length = 3 * (n + 1))
    (hsmall : ∀ zchar ∈ zchars, zchar < 32) : Packed zchars (pack zchars) := by
  induction n generalizing zchars with
  | zero =>
      obtain ⟨a, b, c, rest, rfl, hrest⟩ := exists_three hlength
      obtain rfl : rest = [] := List.length_eq_zero_iff.mp hrest
      simp only [List.forall_mem_cons] at hsmall
      obtain ⟨word, hpack, hword, hlast⟩ := exists_pack_cons hsmall.1 hsmall.2.1 hsmall.2.2.1 []
      rw [hpack, ← hword]
      exact .last fun h => hlast.mp h rfl
  | succ n ih =>
      obtain ⟨a, b, c, rest, rfl, hrest⟩ := exists_three hlength
      simp only [List.forall_mem_cons] at hsmall
      obtain ⟨word, hpack, hword, hmore⟩ := exists_pack_cons hsmall.1 hsmall.2.1 hsmall.2.2.1 rest
      have hne : rest ≠ [] := List.ne_nil_of_length_eq_add_one hrest
      have hthree : a :: b :: c :: rest = Codec.zchars word ++ rest := by rw [hword]; rfl
      rw [hpack, hthree]
      exact .more (hmore.mpr hne) (ih hrest hsmall.2.2.2)

/-- Packed characters fill a word at least. -/
theorem Packed.ne_nil {words : List Word} (h : Packed zchars words) : words ≠ [] := by
  cases h <;> exact List.cons_ne_nil _ _

/-- The top bit of a word is that of its high byte. -/
theorem high_lt_iff (word : Word) : word.high < 0x80 ↔ word < 0x8000 := by
  have := word.toNat_lt
  simp only [UInt8.lt_iff_toNat_lt, UInt16.lt_iff_toNat_lt, Word.high, UInt16.toNat_toUInt8,
    UInt16.toNat_div, UInt16.reduceToNat, UInt8.reduceToNat]
  omega

/-- Of packed words, the last one alone has its top bit set. -/
theorem Packed.lt_iff {words : List Word} (h : Packed zchars words) {i : Nat}
    (hi : i < words.length) : words[i] < 0x8000 ↔ i + 1 < words.length := by
  induction h generalizing i with
  | @last word hlast =>
      obtain rfl : i = 0 := Nat.lt_one_iff.mp hi
      exact iff_of_false hlast (Nat.lt_irrefl 1)
  | @more word zchars words hmore hrest ih =>
      cases i with
      | zero =>
          exact iff_of_true hmore (Nat.succ_lt_succ (List.length_pos_iff.mpr hrest.ne_nil))
      | succ i => exact (ih (Nat.lt_of_succ_lt_succ hi)).trans Nat.succ_lt_succ_iff.symm

/-- The high bytes of words stand at the even places. -/
theorem getElem_flatMap_toBytes (words : List Word) {i : Nat} (hi : i < words.length) :
    (words.flatMap Word.toBytes)[2 * i]? = some words[i].high := by
  induction words generalizing i with
  | nil => exact nomatch hi
  | cons word words ih =>
      cases i with
      | zero => rfl
      | succ i => exact ih (Nat.lt_of_succ_lt_succ hi)

/-- A word of text is read where its bytes stand. -/
theorem textWord_append (before : List UInt8) (word : Word) (rest : List UInt8) :
    textWord (before ++ (word.toBytes ++ rest)).toArray before.length = .ok word := by
  simp [textWord, Word.toBytes]

/-- **Reading what was packed.**  The words from an address on are read to the end, and the
reading is what their characters make of it. -/
theorem Packed.readWords_eq {words : List Word} (h : Packed zchars words)
    (hreads : codec.Reads zchars reading last)
    (expand : Option (Nat → Except Fault (Array Word))) (before : List UInt8) {left : Nat}
    (hleft : words.length ≤ left) :
    codec.readWords expand (before ++ words.flatMap Word.toBytes).toArray left before.length reading
      = .ok (last.out, before.length + 2 * words.length) := by
  induction h generalizing reading left before with
  | @last word hlast =>
      obtain ⟨left, rfl⟩ := Nat.exists_eq_succ_of_ne_zero (Nat.ne_of_gt hleft)
      have hread := hreads.foldlM_eq expand before.length
      simp only [readWords, List.flatMap_cons, textWord_append, bind, Except.bind, hread,
        if_neg hlast]
      rfl
  | @more word zchars words hmore hrest ih =>
      obtain ⟨left, rfl⟩ := Nat.exists_eq_succ_of_ne_zero (Nat.ne_of_gt (Nat.zero_lt_of_lt hleft))
      obtain ⟨next, hword, hnext⟩ := hreads.split
      have hread := hword.foldlM_eq expand before.length
      have hlater := ih hnext (before ++ word.toBytes) (Nat.le_of_succ_le_succ hleft)
      rw [List.append_assoc, List.length_append] at hlater
      simp only [readWords, List.flatMap_cons, textWord_append, bind, Except.bind, hread,
        if_pos hmore]
      refine hlater.trans ?_
      rw [List.length_cons, Nat.mul_succ, Nat.add_assoc, Nat.add_comm (2 * words.length)]
      rfl

/-! ## Keys -/

/-- The characters of a key are those of the codes that fit, and what adds nothing. -/
theorem exists_packed (codec : Codec) (text : List Word) :
    ∃ rest words, codec.Silent rest ∧ codec.encodeKey text = words.flatMap Word.toBytes ∧
      Packed ((codec.fitting codec.keyLength text).flatMap codec.spell ++ rest) words := by
  obtain ⟨rest, hsilent, heq⟩ := codec.exists_silent codec.keyLength text
  obtain ⟨n, hn⟩ : ∃ n, codec.keyLength = 3 * (n + 1) := by
    rw [keyLength]
    split
    · exact ⟨1, rfl⟩
    · exact ⟨2, rfl⟩
  refine ⟨rest, _, hsilent, rfl, ?_⟩
  rw [← heq]
  refine packed_pack (n := n) ?_ fun zchar hzchar => ?_
  · have htake := List.length_take_le codec.keyLength (text.flatMap codec.spell)
    rw [List.length_append, List.length_replicate, ← hn]
    omega
  · rcases List.mem_append.mp hzchar with hspelt | hfilled
    · obtain ⟨code, -, hcode⟩ := List.mem_flatMap.mp (List.mem_of_mem_take hspelt)
      exact lt_of_mem_spell hcode
    · rw [List.eq_of_mem_replicate hfilled]
      decide

/-- **What a key keeps of a word.**  A key has four bytes, six from version 4 on, and marks its
last word only.  Reading it takes the whole key, asks for no abbreviation, and gives the longest
beginning of the word whose five bit characters fit in a key. -/
theorem key_round_trip (codec : Codec) (text : List Word) (h : ∀ code ∈ text, code < 1024) :
    (codec.encodeKey text).length = (if codec.version ≤ 3 then 4 else 6) ∧
      (∀ i (hi : 2 * i < (codec.encodeKey text).length),
        0x80 ≤ (codec.encodeKey text)[2 * i] ↔ 2 * i + 2 = (codec.encodeKey text).length) ∧
      ∃ kept, codec.LongestFit text kept ∧
        codec.decode (codec.encodeKey text).toArray 0
          = .ok (kept, (codec.encodeKey text).length) ∧
        ∀ expand, codec.readWords expand (codec.encodeKey text).toArray
            (codec.encodeKey text).length 0 {}
          = .ok (kept.toArray, (codec.encodeKey text).length) := by
  obtain ⟨rest, words, hsilent, hkey, hpacked⟩ := codec.exists_packed text
  have hlength : (codec.encodeKey text).length = 2 * words.length := by
    rw [hkey, Snapshot.length_flatMap_toBytes]
  have hkept : ∀ code ∈ codec.fitting codec.keyLength text, code < 1024 := fun code hcode =>
    h code ((codec.fitting_isPrefix _ text).subset hcode)
  obtain ⟨last, hrest, hout⟩ :=
    hsilent (#[] ++ (codec.fitting codec.keyLength text).toArray)
  have hreads := (reads_flatMap_spell hkept #[]).append hrest
  have hleft : words.length ≤ (codec.encodeKey text).length := by omega
  have hread (expand : Option (Nat → Except Fault (Array Word))) :
      codec.readWords expand (codec.encodeKey text).toArray (codec.encodeKey text).length 0 {}
        = .ok ((codec.fitting codec.keyLength text).toArray, (codec.encodeKey text).length) := by
    have hall := hpacked.readWords_eq hreads expand [] hleft
    rwa [hout, Array.empty_append, List.nil_append, ← hkey, List.length_nil, Nat.zero_add,
      ← hlength] at hall
  refine ⟨?_, fun i hi => ?_, _, codec.longestFit_fitting text, ?_, hread⟩
  · rw [length_encodeKey, keyBytes, keyLength]
    split <;> rfl
  · have hi' : i < words.length := by omega
    have hhigh : (codec.encodeKey text)[2 * i] = words[i].high := by
      have hplace := getElem_flatMap_toBytes words hi'
      rw [← hkey, List.getElem?_eq_getElem hi] at hplace
      exact Option.some.inj hplace
    rw [hhigh, ← UInt8.not_lt, high_lt_iff, hpacked.lt_iff hi', hlength]
    omega
  · rw [decode, List.size_toArray, Nat.sub_zero, hread]
    rfl

/-- A word that is cut after three of the four characters of its last code. -/
theorem key_round_trip_cut :
    (∀ code ∈ [97, 98, 99, 64], code < (1024 : Word)) ∧
      Dictionaries.sampleCodec.LongestFit [97, 98, 99, 64] [97, 98, 99] ∧
      Dictionaries.sampleCodec.encodeKey [97, 98, 99, 64] = [0x18, 0xe8, 0x94, 0xc2] ∧
      Dictionaries.sampleCodec.decode #[0x18, 0xe8, 0x94, 0xc2] 0 = .ok ([97, 98, 99], 4) := by
  have hsmall : ∀ code ∈ [97, 98, 99, 64], code < (1024 : Word) := by
    simp only [List.forall_mem_cons, List.not_mem_nil, false_implies, implies_true]
    decide
  obtain ⟨-, -, kept, hfit, hdecode, -⟩ :=
    key_round_trip Dictionaries.sampleCodec [97, 98, 99, 64] hsmall
  have hkey : Dictionaries.sampleCodec.encodeKey [97, 98, 99, 64] = [0x18, 0xe8, 0x94, 0xc2] := by
    decide +kernel
  have hkept : Dictionaries.sampleCodec.decode #[0x18, 0xe8, 0x94, 0xc2] 0
      = .ok ([97, 98, 99], 4) := by decide +kernel
  rw [hkey] at hdecode
  obtain rfl : kept = [97, 98, 99] := congrArg Prod.fst (Except.ok.inj (hdecode.symm.trans hkept))
  exact ⟨hsmall, hfit, hkey, hkept⟩

end Codec

end StoryMachine
