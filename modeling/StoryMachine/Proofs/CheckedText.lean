import StoryMachine.Proofs.CheckedMemory
import StoryMachine.Proofs.DictionaryCache
import StoryMachine.Proofs.PackedText

/-!
# Text with checked positions

Packed text is read with the addresses of its words and of abbreviations in 64 bits.  A
character is looked up in its row by a difference, and the row to come is one too.

What keeps all of this in range is that a five bit character is below 32
(`mem_zchars_lt`), and that an abbreviation is expected only after one of the characters
1 to 3 (`Codec.Reading.Proper`).
-/

namespace StoryMachine

open Checked

/-- An abbreviation is expected only after the character of a bank. -/
def Codec.Reading.Proper (reading : Codec.Reading) : Prop :=
  ∀ bank, reading.expecting = .abbreviation bank → 1 ≤ bank.toNat ∧ bank.toNat ≤ 3

namespace CheckedText

/-! ## Reading -/

/-- The word at an address of packed text. -/
def textWord (bytes : Array UInt8) (address : Nat) : Checked Word := do
  let next ← sum address 1
  match bytes[address]?, bytes[next]? with
  | some hi, some lo => return Word.ofBytes hi lo
  | _, _ =>
    throw { kind := .outOfBounds, detail := "Z-STRING RUNS PAST " ++ Numeral.marked 4 address }

/-- The code that a five bit character stands for, which is taken to be one of 6 to 31. -/
def code (alphabet : Alphabet) (row : Row) (zchar : UInt8) : Checked Word := do
  require (6 ≤ zchar.toNat ∧ zchar.toNat < 32)
  let place ← difference zchar.toNat 6
  let b ← item (alphabet.row row).toList place
  return b.toUInt16

/-- The fault of an abbreviation in an abbreviation; `next` is the address after its word. -/
def nested {α : Type} (next : Nat) : Checked α := do
  let address ← difference next 2
  throw { kind := .badAbbreviation, detail := "NESTED AT " ++ Numeral.marked 4 address }

/-- The row that a shift character leads to. -/
def shiftRow (zchar : UInt8) : Checked Row := do
  let number ← difference zchar.toNat 3
  return .ofNumber number

/-- Takes one five bit character of the word that ends at `next`. -/
def accept (codec : Codec) (expand : Option (Nat → Checked (Array Word))) (next : Nat)
    (reading : Codec.Reading) (zchar : UInt8) : Checked Codec.Reading :=
  match reading.expecting with
  | .character =>
    if zchar = 0 then return { reading with row := .first, out := reading.out.push 32 }
    else if zchar ≤ 3 then
      match expand with
      | some _ => return { reading with expecting := .abbreviation zchar }
      | none => nested next
    else if zchar = 4 ∨ zchar = 5 then do
      let row ← shiftRow zchar
      return { reading with row }
    else if zchar = 6 ∧ reading.row = .third then
      return { reading with row := .first, expecting := .escapeHigh }
    else do
      let code ← code codec.alphabet reading.row zchar
      return { reading with row := .first, out := reading.out.push code }
  | .abbreviation bank =>
    match expand with
    | none => nested next
    | some expand => do
      let before ← difference bank.toNat 1
      let first ← product 32 before
      let index ← sum first zchar.toNat
      let codes ← expand index
      return { row := .first, expecting := .character, out := reading.out ++ codes }
  | .escapeHigh => return { reading with expecting := .escapeLow (zchar.toUInt16 <<< 5) }
  | .escapeLow high =>
    return { reading with
      expecting := .character, out := reading.out.push (high ||| zchar.toUInt16) }

/-- Reads words from an address on, until one has its top bit set. -/
def readWords (codec : Codec) (expand : Option (Nat → Checked (Array Word)))
    (bytes : Array UInt8) : (left address : Nat) → Codec.Reading → Checked (Array Word × Nat)
  | 0, address, _ => do
    let _ ← textWord bytes address
    throw { kind := .outOfBounds, detail := "Z-STRING RUNS PAST " ++ Numeral.marked 4 address }
  | left + 1, address, reading => do
    let word ← textWord bytes address
    let next ← sum address 2
    let reading ← (Codec.zchars word).foldlM (accept codec expand next) reading
    if word < 0x8000 then readWords codec expand bytes left next reading
    else return (reading.out, next)

/-- The codes of abbreviation `index`. -/
def expandAbbreviation (codec : Codec) (bytes : Array UInt8) (index : Nat) :
    Checked (Array Word) := do
  let far ← product 2 index
  let place ← sum codec.abbreviations far
  let entry ← textWord bytes place
  let start ← product 2 entry.toNat
  let (codes, _) ← readWords codec none bytes (bytes.size - start) start {}
  return codes

/-- The codes of the packed text at an address, and the bytes it takes. -/
def decode (codec : Codec) (bytes : Array UInt8) (address : Nat) :
    Checked (List Word × Nat) := do
  let (codes, stop) ← readWords codec (some (expandAbbreviation codec bytes)) bytes
    (bytes.size - address) address {}
  let length ← difference stop address
  return (codes.toList, length)

/-- Every five bit character is below 32. -/
theorem mem_zchars_lt {word : Word} {zchar : UInt8} (h : zchar ∈ Codec.zchars word) :
    zchar.toNat < 32 := by
  have hmask (part : Word) : (part &&& 0x1f).toUInt8.toNat < 32 := by
    have hand : (part &&& 0x1f).toNat ≤ 0x1f := by
      rw [UInt16.toNat_and]
      exact Nat.and_le_right
    rw [UInt16.toNat_toUInt8]
    omega
  simp only [Codec.zchars, List.mem_cons, List.not_mem_nil, or_false] at h
  rcases h with rfl | rfl | rfl <;> exact hmask _

variable {codec : Codec} {bytes : Array UInt8}

/-- A word of text is read with both its addresses in their range. -/
theorem textWord_eq {address : Nat} (h : address + 1 < 2 ^ 64) :
    textWord bytes address = inRange (Codec.textWord bytes address) := by
  rw [textWord, sum_of_lt h, pure_bind, Codec.textWord]
  cases bytes[address]? with
  | none => rfl
  | some hi => cases bytes[address + 1]? <;> rfl

/-- A row has 26 places, for the characters 6 to 31. -/
theorem code_eq (alphabet : Alphabet) (row : Row) {zchar : UInt8} (hle : 6 ≤ zchar.toNat)
    (hlt : zchar.toNat < 32) : code alphabet row zchar = pure (alphabet.code row zchar) := by
  have hplace : zchar.toNat - 6 < (alphabet.row row).toArray.size := by
    rw [Vector.size_toArray]
    omega
  have hitem : (alphabet.row row).toList[zchar.toNat - 6]?
      = some ((alphabet.row row).toArray.getD (zchar.toNat - 6) 0) := by
    rw [Array.getD_eq_getD_getElem?, Array.getElem?_eq_getElem hplace, Option.getD_some,
      ← Array.getElem?_eq_getElem hplace, ← Array.getElem?_toList]
    rfl
  rw [code, require_of ⟨hle, hlt⟩, pure_bind, difference_of_le hle, pure_bind, item_of_eq hitem]
  rfl

/-- An abbreviation within another is told with its address in its range. -/
theorem nested_eq {α : Type} {address : Nat} :
    (nested (address + 2) : Checked α)
      = inRange (.error
          { kind := .badAbbreviation, detail := "NESTED AT " ++ Numeral.marked 4 address }) := by
  rw [nested, difference_of_le (by omega), pure_bind, Nat.add_sub_cancel]
  rfl

/-- An expansion that stays in range for every abbreviation there can be. -/
def Expands (expand : Option (Nat → Checked (Array Word)))
    (expand' : Option (Nat → Except Fault (Array Word))) : Prop :=
  match expand, expand' with
  | none, none => True
  | some expand, some expand' => ∀ index < 96, expand index = inRange (expand' index)
  | _, _ => False

section

variable {expand : Option (Nat → Checked (Array Word))}
  {expand' : Option (Nat → Except Fault (Array Word))} {reading : Codec.Reading}

/-- Taking a character stays in range. -/
theorem accept_eq (hexpand : Expands expand expand') (hreading : reading.Proper) (address : Nat)
    {zchar : UInt8} (hlt : zchar.toNat < 32) :
    accept codec expand (address + 2) reading zchar
      = inRange (codec.accept expand' address reading zchar) := by
  unfold accept Codec.accept
  cases hexpecting : reading.expecting with
  | character =>
      dsimp only
      split
      · rfl
      split
      · cases expand <;> cases expand'
        · exact nested_eq
        · exact hexpand.elim
        · exact hexpand.elim
        · rfl
      by_cases hshift : zchar = 4 ∨ zchar = 5
      · rcases hshift with rfl | rfl <;> rfl
      · obtain ⟨hfour, hfive⟩ := not_or.mp hshift
        rw [if_neg hshift, if_neg hfour, if_neg hfive]
        split
        · rfl
        · have hsix : 6 ≤ zchar.toNat := by
            have hbank : ¬zchar.toNat ≤ 3 := fun h => ‹¬zchar ≤ 3› (UInt8.le_iff_toNat_le.mpr h)
            have hfour' : zchar.toNat ≠ 4 := fun h => hfour (UInt8.toNat.inj h)
            have hfive' : zchar.toNat ≠ 5 := fun h => hfive (UInt8.toNat.inj h)
            omega
          rw [code_eq _ _ hsix hlt, pure_bind]
          rfl
  | abbreviation bank =>
      obtain ⟨hpos, hle⟩ := hreading bank hexpecting
      cases expand <;> cases expand'
      · exact nested_eq
      · exact hexpand.elim
      · exact hexpand.elim
      · dsimp only
        rw [difference_of_le hpos, pure_bind, product_of_lt (by omega), pure_bind,
          sum_of_lt (by omega), pure_bind, hexpand _ (by omega)]
        exact bind_congr_inRange fun codes _ => rfl
  | escapeHigh | escapeLow => rfl

/-- What a character makes of a reading is proper again. -/
theorem proper_of_accept {address : Nat} {zchar : UInt8}
    {later : Codec.Reading} (h : codec.accept expand' address reading zchar = .ok later) :
    later.Proper := by
  unfold Codec.accept at h
  cases hexpecting : reading.expecting with
  | character =>
      rw [hexpecting] at h
      dsimp only at h
      split at h
      · obtain rfl := Except.ok.inj h
        exact fun bank hbank => nomatch hbank
      split at h
      · cases expand' with
        | none => exact nomatch h
        | some expand' =>
            obtain rfl := Except.ok.inj h
            intro bank hbank
            obtain rfl := Codec.Expecting.abbreviation.inj hbank
            exact ⟨Nat.pos_of_ne_zero fun h => ‹¬zchar = 0› (UInt8.toNat.inj h),
              UInt8.le_iff_toNat_le.mp ‹_›⟩
      split at h
      · obtain rfl := Except.ok.inj h
        exact fun bank hbank => nomatch hbank
      split at h
      · obtain rfl := Except.ok.inj h
        exact fun bank hbank => nomatch hbank
      split at h
      · obtain rfl := Except.ok.inj h
        exact fun bank hbank => nomatch hbank
      · obtain rfl := Except.ok.inj h
        exact fun bank hbank => nomatch hbank
  | abbreviation bank =>
      rw [hexpecting] at h
      dsimp only at h
      cases expand' with
      | none => exact nomatch h
      | some expand' =>
          obtain ⟨codes, -, h⟩ := bind_eq_ok.mp h
          obtain rfl := Except.ok.inj h
          exact fun bank hbank => nomatch hbank
  | escapeHigh | escapeLow =>
      rw [hexpecting] at h
      obtain rfl := Except.ok.inj h
      exact fun bank hbank => nomatch hbank

/-- Taking the characters of a word. -/
theorem foldlM_accept_eq (hexpand : Expands expand expand') (hreading : reading.Proper)
    (address : Nat) {zchars : List UInt8} (hlt : ∀ zchar ∈ zchars, zchar.toNat < 32) :
    zchars.foldlM (accept codec expand (address + 2)) reading
        = inRange (zchars.foldlM (codec.accept expand' address) reading) ∧
      ∀ later, zchars.foldlM (codec.accept expand' address) reading = .ok later → later.Proper := by
  induction zchars generalizing reading with
  | nil =>
      refine ⟨rfl, fun later hlater => ?_⟩
      obtain rfl := Except.ok.inj hlater
      exact hreading
  | cons zchar zchars ih =>
      have hrest := fun zchar hzchar => hlt zchar (List.mem_cons_of_mem _ hzchar)
      rw [List.foldlM_cons, List.foldlM_cons, accept_eq hexpand hreading address
        (hlt zchar List.mem_cons_self)]
      constructor
      · exact bind_congr_inRange fun next hnext => (ih (proper_of_accept hnext) hrest).1
      · intro later hlater
        obtain ⟨next, hnext, hlater⟩ := bind_eq_ok.mp hlater
        exact (ih (proper_of_accept hnext) hrest).2 later hlater

/-- **Packed text is read in range** wherever it begins, if the bytes leave room below 2^63. -/
theorem readWords_eq (hexpand : Expands expand expand') (hsize : bytes.size < 2 ^ 63)
    {left address : Nat} (haddress : address < 2 ^ 63) (hreading : reading.Proper) :
    readWords codec expand bytes left address reading
      = inRange (codec.readWords expand' bytes left address reading) := by
  induction left generalizing address reading with
  | zero =>
      rw [readWords, Codec.readWords, textWord_eq (by omega)]
      exact bind_congr_inRange fun _ _ => rfl
  | succ left ih =>
      rw [readWords, Codec.readWords, textWord_eq (by omega)]
      refine bind_congr_inRange fun word hword => ?_
      have hlt := Codec.lt_of_textWord hword
      obtain ⟨hsame, hproper⟩ := foldlM_accept_eq hexpand hreading address
        fun zchar hzchar => @mem_zchars_lt word zchar hzchar
      rw [sum_of_lt (by omega), pure_bind, hsame]
      refine bind_congr_inRange fun later hlater => ?_
      split
      · exact ih (by omega) (hproper later hlater)
      · rfl

/-- Reading goes forward. -/
theorem le_of_readWords {left address stop : Nat} {out : Array Word}
    (h : codec.readWords expand' bytes left address reading = .ok (out, stop)) :
    address ≤ stop := by
  induction left generalizing address reading with
  | zero =>
      rw [Codec.readWords] at h
      obtain ⟨word, -, h⟩ := bind_eq_ok.mp h
      cases h
  | succ left ih =>
      rw [Codec.readWords] at h
      obtain ⟨word, -, h⟩ := bind_eq_ok.mp h
      obtain ⟨later, -, h⟩ := bind_eq_ok.mp h
      split at h
      · have := ih h
        omega
      · obtain ⟨-, rfl⟩ := Prod.mk.inj (Except.ok.inj h)
        exact Nat.le_add_right _ _

end

/-- A reading that begins expects a character. -/
theorem proper_begin : Codec.Reading.Proper {} := fun _ hbank => nomatch hbank

/-- An abbreviation is found by one of 96 numbers. -/
theorem expandAbbreviation_eq (hsize : bytes.size < 2 ^ 63) (htable : codec.abbreviations < 0x10000)
    {index : Nat} (hindex : index < 96) :
    expandAbbreviation codec bytes index = inRange (codec.expandAbbreviation bytes index) := by
  rw [expandAbbreviation, product_of_lt (by omega), pure_bind, sum_of_lt (by omega), pure_bind,
    textWord_eq (by omega)]
  refine bind_congr_inRange fun entry _ => ?_
  have hentry := entry.toNat_lt
  have hnone : Expands none none := trivial
  rw [product_of_lt (by omega), pure_bind,
    readWords_eq hnone hsize (by omega) proper_begin]
  exact bind_congr_inRange fun _ _ => rfl

/-- **Packed text is decoded with every number in its range.** -/
theorem decode_eq (hsize : bytes.size < 2 ^ 63) (htable : codec.abbreviations < 0x10000)
    {address : Nat} (haddress : address < 2 ^ 63) :
    decode codec bytes address = inRange (codec.decode bytes address) := by
  have hexpand : Expands (some (expandAbbreviation codec bytes))
      (some (codec.expandAbbreviation bytes)) :=
    fun index hindex => expandAbbreviation_eq hsize htable hindex
  rw [decode, readWords_eq hexpand hsize haddress proper_begin]
  refine bind_congr_inRange fun ⟨codes, stop⟩ hread => ?_
  dsimp only
  rw [difference_of_le (le_of_readWords hread)]
  rfl

end CheckedText

end StoryMachine
