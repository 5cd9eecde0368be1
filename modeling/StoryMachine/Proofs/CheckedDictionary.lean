import StoryMachine.Proofs.CheckedText
import StoryMachine.Proofs.ParseBuffer

/-!
# Codes, keys and dictionaries with checked positions

A code is translated by differences and sums in sixteen bits, and spelt for a dictionary
key by the place where it stands in a row, in eight bits.  Keys are packed from slices of
three characters.  A dictionary is found by addresses in 64 bits and its entries by
products; its text is cut into slices.

Tables of codes have at most 97 characters, rows have 26 places, and keys have six or
nine characters: nothing here depends on what the story says.  The entries of a
dictionary lie in memory once it has been loaded (`stop_le_of_load`).
-/

namespace StoryMachine

open Checked

/-! ## Codes -/

namespace CheckedCodes

/-- The character of a code. -/
def toChar? (table : UnicodeTable) (code : Word) : Checked (Option Char) :=
  if code = 9 then pure (some '\t')
  else if code = 11 then pure (some ' ')
  else if code = 13 then pure (some '\n')
  else if 32 ≤ code ∧ code ≤ 126 then pure (some (Char.ofNat code.toNat))
  else if UnicodeTable.firstExtra ≤ code.toNat then do
    let place ← difference code.toNat UnicodeTable.firstExtra
    return table.extras[place]?
  else pure none

/-- The code of a character, a sum in sixteen bits behind the first of the table. -/
def ofChar? (table : UnicodeTable) (c : Char) : Checked (Option Word) :=
  if c = '\n' ∨ c = '\r' then pure (some 13)
  else if ' ' ≤ c ∧ c ≤ '~' then pure (some c.toNat.toUInt16)
  else match table.extras.toList.findIdx? (· = c) with
    | some i => do
      let place ← fitting 16 i
      let code ← fitting 16 (UnicodeTable.firstExtra + place)
      return some code.toUInt16
    | none => pure none

/-- The codes of a text. -/
def encode (table : UnicodeTable) (text : String) : Checked (List Word) :=
  text.toList.mapM fun c => do
    let code ← ofChar? table c
    return code.getD questionMark

/-- The text of some codes. -/
def decode (table : UnicodeTable) (codes : List Word) : Checked String := do
  let chars ← codes.mapM (toChar? table)
  return String.ofList (chars.filterMap id)

/-- Lower case. -/
def lowerCase (c : Char) : Checked Char :=
  if ('A' ≤ c ∧ c ≤ 'Z') ∨ ('\u00c0' ≤ c ∧ c ≤ '\u00de' ∧ c ≠ '\u00d7') then do
    let number ← fitting 32 (c.toNat + 0x20)
    return Char.ofNat number
  else pure c

/-- The codes of a typed line. -/
def inputCodes (unicode : UnicodeTable) (text : String) (room : Nat) : Checked (List Word) := do
  let codes ← (text.toList.filter fun c => !isControl c).mapM fun c => do
    let lower ← lowerCase c
    let code ← ofChar? unicode lower
    return code.getD questionMark
  return (codes.filter TextBuffer.isTextCode).take room

/-- A code is looked up within the extra characters. -/
theorem toChar?_eq (table : UnicodeTable) (code : Word) :
    toChar? table code = pure (table.toChar? code) := by
  unfold toChar? UnicodeTable.toChar?
  repeat' split
  all_goals first
    | rfl
    | rw [difference_of_le ‹_›, pure_bind]

variable {table : UnicodeTable}

/-- A table has at most 97 characters, so their codes are far below 2^16. -/
theorem ofChar?_eq (htable : table.extras.size ≤ 97) (c : Char) :
    ofChar? table c = pure (table.ofChar? c) := by
  unfold ofChar? UnicodeTable.ofChar?
  split
  · rfl
  split
  · rfl
  cases hplace : table.extras.toList.findIdx? (· = c) with
  | none => rfl
  | some i =>
      have hlt : i < table.extras.toList.length :=
        (List.findIdx?_eq_some_iff_findIdx_eq.mp hplace).1
      rw [Array.length_toList] at hlt
      have hcode : UnicodeTable.firstExtra + i < 2 ^ 16 := by
        unfold UnicodeTable.firstExtra
        omega
      dsimp only
      rw [fitting_of_lt (by omega), pure_bind, fitting_of_lt hcode, pure_bind]
      rfl

/-- Text is encoded with its codes in their range. -/
theorem encode_eq (htable : table.extras.size ≤ 97) (text : String) :
    encode table text = pure (table.encode text) := by
  refine mapM_pure_of_mem fun c _ => ?_
  rw [ofChar?_eq htable, pure_bind]

/-- Codes are decoded within the extra characters. -/
theorem decode_eq (table : UnicodeTable) (codes : List Word) :
    decode table codes = pure (table.decode codes) := by
  rw [decode, mapM_pure_of_mem fun code _ => toChar?_eq table code, pure_bind,
    List.filterMap_map]
  rfl

/-- A letter is put in lower case with its number in its range. -/
theorem lowerCase_eq (c : Char) : lowerCase c = pure (StoryMachine.lowerCase c) := by
  unfold lowerCase StoryMachine.lowerCase
  split
  · rename_i hcapital
    have hle : c.toNat ≤ 0xde := by
      rcases hcapital with ⟨-, hz⟩ | ⟨-, hthorn, -⟩
      · exact Nat.le_trans (UInt32.le_iff_toNat_le.mp (Char.le_def.mp hz)) (by decide)
      · exact UInt32.le_iff_toNat_le.mp (Char.le_def.mp hthorn)
    rw [fitting_of_lt (by omega), pure_bind]
  · rfl

/-- Typed text is encoded with its codes in their range. -/
theorem inputCodes_eq (htable : table.extras.size ≤ 97) (text : String) (room : Nat) :
    inputCodes table text room = pure (TextBuffer.inputCodes table text room) := by
  have hcode (c : Char) : (do
      let lower ← lowerCase c
      let code ← ofChar? table lower
      return code.getD questionMark : Checked Word)
      = pure ((table.ofChar? (StoryMachine.lowerCase c)).getD questionMark) := by
    rw [lowerCase_eq, pure_bind, ofChar?_eq htable, pure_bind]
  rw [inputCodes, mapM_pure_of_mem fun c _ => hcode c, pure_bind]
  rfl

end CheckedCodes

/-! ## Keys -/

namespace CheckedText

/-- The character for the place of a code in a row, a sum in eight bits. -/
def place? (row : Vector UInt8 26) (start : Nat) (wanted : Word) : Checked (Option UInt8) := do
  let rest ← slice row.toList start 26
  match rest.findIdx? (·.toUInt16 = wanted) with
  | some i =>
    let place ← sum i start
    let zchar ← fitting 8 (place + 6)
    return some zchar.toUInt8
  | none => return none

/-- A row and five bit character that stand for a code. -/
def find? (alphabet : Alphabet) (wanted : Word) : Checked (Option (Row × UInt8)) :=
  if wanted = 0 ∨ 255 < wanted then pure none
  else do
    match ← place? alphabet.first 0 wanted with
    | some zchar => return some (.first, zchar)
    | none =>
      match ← place? alphabet.second 0 wanted with
      | some zchar => return some (.second, zchar)
      | none =>
        match ← place? alphabet.third 1 wanted with
        | some zchar => return some (.third, zchar)
        | none => return none

/-- The five bit characters that stand for a code; the shift to a row is a sum in eight bits. -/
def spell (codec : Codec) (code : Word) : Checked (List UInt8) :=
  if code = 32 then pure [0]
  else do
    match ← find? codec.alphabet code with
    | some (.first, zchar) => return [zchar]
    | some (row, zchar) =>
      let shift ← fitting 8 (row.number + 3)
      return [shift.toUInt8, zchar]
    | none => return [5, 6, ((code >>> 5) &&& 0x1f).toUInt8, (code &&& 0x1f).toUInt8]

/-- Packs slices of three characters, from slice `i` on. -/
def pack (zchars : List UInt8) (words : Nat) : (count i : Nat) → Checked (List Word)
  | 0, _ => pure []
  | count + 1, i => do
    let triple ← slice zchars (3 * i) (3 * i + 3)
    let a ← item triple 0
    let b ← item triple 1
    let c ← item triple 2
    let word := (a.toUInt16 <<< 10) ||| (b.toUInt16 <<< 5) ||| c.toUInt16
    let last ← difference words 1
    let others ← pack zchars words count (i + 1)
    return (if i = last then word ||| 0x8000 else word) :: others

/-- The dictionary key of a word. -/
def encodeKey (codec : Codec) (codes : List Word) : Checked (List UInt8) := do
  let spelt ← codes.mapM (spell codec)
  let spelt := spelt.flatten.take codec.keyLength
  let filled := spelt ++ List.replicate (codec.keyLength - spelt.length) 5
  let words ← pack filled (codec.keyLength / 3) (codec.keyLength / 3) 0
  return words.flatMap Word.toBytes

/-- A row has 26 places, so its last character is 31. -/
theorem place?_eq (row : Vector UInt8 26) {start : Nat} (hstart : start ≤ 26) (wanted : Word) :
    place? row start wanted = pure (Alphabet.place? row start wanted) := by
  have hlength : row.toList.length = 26 := by simp
  have hslice : slice row.toList start 26 = pure (row.toList.drop start) := by
    rw [slice, if_pos ⟨hstart, Nat.le_of_eq hlength.symm⟩, List.take_of_length_le]
    rw [List.length_drop, hlength]
  rw [place?, hslice, pure_bind, Alphabet.place?]
  cases hfind : (row.toList.drop start).findIdx? (·.toUInt16 = wanted) with
  | none => rfl
  | some i =>
      have hlt := (List.findIdx?_eq_some_iff_findIdx_eq.mp hfind).1
      rw [List.length_drop, hlength] at hlt
      dsimp only
      rw [sum_of_lt (by omega), pure_bind, fitting_of_lt (by omega), pure_bind]
      rfl

/-- A code is found in a row with its place in its range. -/
theorem find?_eq (alphabet : Alphabet) (wanted : Word) :
    find? alphabet wanted = pure (alphabet.find? wanted) := by
  unfold find? Alphabet.find?
  split
  · rfl
  · rw [place?_eq _ (by decide), pure_bind]
    show _ = pure ((Alphabet.place? alphabet.first 0 wanted).map _
      <|> ((Alphabet.place? alphabet.second 0 wanted).map _
        <|> (Alphabet.place? alphabet.third 1 wanted).map _))
    cases Alphabet.place? alphabet.first 0 wanted with
    | some zchar => rfl
    | none =>
        dsimp only
        rw [place?_eq _ (by decide), pure_bind]
        cases Alphabet.place? alphabet.second 0 wanted with
        | some zchar => rfl
        | none =>
            dsimp only
            rw [place?_eq _ (by decide), pure_bind]
            cases Alphabet.place? alphabet.third 1 wanted <;> rfl

/-- A code is spelt with its five bit parts in their range. -/
theorem spell_eq (codec : Codec) (code : Word) : spell codec code = pure (codec.spell code) := by
  unfold spell Codec.spell
  split
  · rfl
  · rw [find?_eq, pure_bind]
    cases codec.alphabet.find? code with
    | none => rfl
    | some found =>
        obtain ⟨row, zchar⟩ := found
        cases row <;> rfl

/-- Slices of three are the characters of one word after the other. -/
theorem pack_eq {zchars : List UInt8} {words count i : Nat}
    (hlength : zchars.length = 3 * words) (hcount : i + count = words) :
    pack zchars words count i = pure (Codec.pack (zchars.drop (3 * i))) := by
  induction count generalizing i with
  | zero =>
      rw [List.drop_eq_nil_of_le (by omega)]
      rfl
  | succ count ih =>
      have hleft : (zchars.drop (3 * i)).length = 3 * (count + 1) := by
        rw [List.length_drop]
        omega
      obtain ⟨a, b, c, rest, hdrop, hrest⟩ := Codec.exists_three hleft
      have hslice : slice zchars (3 * i) (3 * i + 3) = pure [a, b, c] := by
        rw [slice_of_le (by omega), hdrop]
        rfl
      have hnext : zchars.drop (3 * (i + 1)) = rest := by
        rw [Nat.mul_succ, ← List.drop_drop, hdrop]
        rfl
      have hlast : i = words - 1 ↔ rest.isEmpty := by
        rw [List.isEmpty_iff_length_eq_zero]
        omega
      have ha : item [a, b, c] 0 = (pure a : Checked UInt8) := rfl
      have hb : item [a, b, c] 1 = (pure b : Checked UInt8) := rfl
      have hc : item [a, b, c] 2 = (pure c : Checked UInt8) := rfl
      rw [pack, hslice, pure_bind, ha, pure_bind, hb, pure_bind, hc, pure_bind]
      dsimp only
      rw [difference_of_le (by omega), pure_bind, ih (by omega), pure_bind, hnext, hdrop,
        Codec.pack]
      simp only [hlast]

/-- A key is packed with its characters three by three. -/
theorem encodeKey_eq (codec : Codec) (codes : List Word) :
    encodeKey codec codes = pure (codec.encodeKey codes) := by
  have hkey : codec.keyLength = 3 * (codec.keyLength / 3) := by
    unfold Codec.keyLength
    split <;> rfl
  have hfilled (spelt : List UInt8) (h : spelt.length ≤ codec.keyLength) :
      (spelt ++ List.replicate (codec.keyLength - spelt.length) (5 : UInt8)).length
        = 3 * (codec.keyLength / 3) := by
    rw [List.length_append, List.length_replicate, ← hkey]
    omega
  rw [encodeKey, mapM_pure_of_mem fun code _ => spell_eq codec code, pure_bind, ← List.flatMap_def]
  dsimp only
  rw [pack_eq (hfilled _ (List.length_take_le _ _)) (Nat.zero_add _), pure_bind]
  rfl

end CheckedText

/-! ## Dictionaries -/

namespace CheckedDictionary

/-- Reads the shape of the dictionary at an address. -/
def load (bytes : Array UInt8) (address keyBytes : Nat) : Checked Dictionary := do
  let separatorCount ← inRange (Dictionary.byteAt bytes address)
  let separators ← (List.range separatorCount.toNat).mapM fun i => do
    let first ← sum address 1
    let place ← sum first i
    inRange (Dictionary.byteAt bytes place)
  let first ← sum address 1
  let head ← sum first separatorCount.toNat
  let entryLength ← inRange (Dictionary.byteAt bytes head)
  let place ← sum head 1
  let hi ← inRange (Dictionary.byteAt bytes place)
  let place ← sum head 2
  let lo ← inRange (Dictionary.byteAt bytes place)
  let signedCount := (Word.ofBytes hi lo).signed
  let entries ← sum head 3
  let count := signedCount.natAbs
  if 0 < count ∧ entryLength.toNat < keyBytes then
    throw { kind := .badDictionary,
            detail := s!"ENTRY LENGTH {entryLength.toNat} AT " ++ Numeral.marked 4 address }
  else do
    let length ← product count entryLength.toNat
    let stop ← sum entries length
    if bytes.size < stop then
      throw { kind := .badDictionary,
              detail := s!"{count} ENTRIES AT " ++ Numeral.marked 4 address }
    else
      return { address, separators := separators.map (·.toUInt16),
               entryLength := entryLength.toNat, entries, count, sorted := 0 < signedCount }

/-- The address of entry `i`. -/
def entryAddress (dictionary : Dictionary) (i : Nat) : Checked Nat := do
  let far ← product i dictionary.entryLength
  sum dictionary.entries far

/-- Whether the key of entry `i` is the one that is wanted. -/
def hasKey (dictionary : Dictionary) (bytes : Array UInt8) (key : List UInt8) (i : Nat) :
    Checked Bool := do
  let address ← entryAddress dictionary i
  let stop ← sum address key.length
  return stop ≤ bytes.size ∧ (bytes.extract address stop).toList = key

/-- The address of the first entry with a key from entry `i` on, or zero. -/
def lookupFrom (dictionary : Dictionary) (bytes : Array UInt8) (key : List UInt8) :
    (count i : Nat) → Checked Word
  | 0, _ => pure 0
  | count + 1, i => do
    if ← hasKey dictionary bytes key i then
      let address ← entryAddress dictionary i
      return address.toUInt16
    else lookupFrom dictionary bytes key count (i + 1)

/-- The address of the first entry with a key, or zero. -/
def lookup (dictionary : Dictionary) (bytes : Array UInt8) (key : List UInt8) : Checked Word :=
  lookupFrom dictionary bytes key dictionary.count 0

/-- The parts that a text falls into. -/
def spans (isSeparator : Word → Bool) : (place : Nat) → (start : Option Nat) → List Word →
    Checked (List (Nat × Nat))
  | place, start, [] => pure (start.map fun s => (s, place)).toList
  | place, start, c :: rest => do
    let next ← sum place 1
    if isSeparator c then
      let others ← spans isSeparator next none rest
      return (start.map fun s => (s, place)).toList ++ (place, next) :: others
    else if c = 32 ∨ c = 0 then
      let others ← spans isSeparator next none rest
      return (start.map fun s => (s, place)).toList ++ others
    else spans isSeparator next (some (start.getD place)) rest

/-- The lexeme of one part of a text, which is a slice of it. -/
def lexeme (codec : Codec) (find : List UInt8 → Checked Word) (text : List Word)
    (part : Nat × Nat) : Checked Lexeme := do
  let codes ← cut text part.1 part.2
  let key ← CheckedText.encodeKey codec codes
  let address ← find key
  let length ← difference part.2 part.1
  return { address, length := length.toUInt8, start := part.1.toUInt8 }

/-- Cuts a text into lexemes, finding each key with `find`. -/
def lexemes (dictionary : Dictionary) (codec : Codec) (find : List UInt8 → Checked Word)
    (text : List Word) : Checked (List Lexeme) := do
  let parts ← spans (dictionary.separators.contains ·) 0 none text
  parts.mapM (lexeme codec find text)

/-- Reads all entries of a dictionary. -/
def build (dictionary : Dictionary) (bytes : Array UInt8) (keyBytes : Nat) :
    Checked IndexedDictionary := do
  let entries ← (List.range dictionary.count).mapM fun i => do
    let address ← entryAddress dictionary i
    let stop ← sum address keyBytes
    let key ← slice bytes.toList address stop
    return (key, address.toUInt16)
  return { dictionary, index := entries.foldl (fun index entry =>
    index.insertIfNew entry.1 entry.2) ∅ }

/-- Cuts a text into lexemes with the dictionary at an address. -/
def tokenise (dictionaries : Dictionaries) (bytes : Array UInt8) (codec : Codec)
    (address ceiling : Nat) (text : List Word) : Checked Tokenised :=
  match dictionaries.known.lookup address with
  | some indexed => do
    let lexemes ← lexemes indexed.dictionary codec (pure <| indexed.lookup ·) text
    return { lexemes, dictionaries }
  | none => do
    let dictionary ← load bytes address codec.keyBytes
    if dictionary.sorted && ceiling ≤ address then
      let indexed ← build dictionary bytes codec.keyBytes
      let lexemes ← lexemes dictionary codec (pure <| indexed.lookup ·) text
      return { lexemes, dictionaries := ⟨(address, indexed) :: dictionaries.known⟩,
               indexedKeys := some indexed.index.size }
    else
      let lexemes ← lexemes dictionary codec (lookup dictionary bytes) text
      return { lexemes, dictionaries }

variable {bytes : Array UInt8} {address keyBytes : Nat} {dictionary : Dictionary}

/-- A dictionary is loaded with its addresses in their range, whatever its header says. -/
theorem load_eq (haddress : address < 2 ^ 62) :
    load bytes address keyBytes = inRange (Dictionary.load bytes address keyBytes) := by
  refine bind_congr_inRange fun separatorCount _ => ?_
  have hcount := separatorCount.toNat_lt
  have hseparators : ((List.range separatorCount.toNat).mapM fun i => (do
      let first ← sum address 1
      let place ← sum first i
      inRange (Dictionary.byteAt bytes place) : Checked UInt8))
        = inRange ((List.range separatorCount.toNat).mapM fun i =>
          Dictionary.byteAt bytes (address + 1 + i)) := by
    refine mapM_inRange fun i hi => ?_
    have hlt := List.mem_range.mp hi
    rw [sum_of_lt (by omega), pure_bind, sum_of_lt (by omega), pure_bind]
  rw [hseparators]
  refine bind_congr_inRange fun separators _ => ?_
  rw [sum_of_lt (by omega), pure_bind, sum_of_lt (by omega), pure_bind]
  refine bind_congr_inRange fun entryLength _ => ?_
  rw [sum_of_lt (by omega), pure_bind]
  refine bind_congr_inRange fun hi _ => ?_
  rw [sum_of_lt (by omega), pure_bind]
  refine bind_congr_inRange fun lo _ => ?_
  have hentryLength := entryLength.toNat_lt
  have hlow := (Word.ofBytes hi lo).toInt16.le_toInt
  have hhigh := (Word.ofBytes hi lo).toInt16.toInt_lt
  have hnumber : (Word.ofBytes hi lo).signed.natAbs ≤ 0x8000 := by
    unfold Word.signed
    omega
  have hproduct := Nat.mul_le_mul hnumber (Nat.le_of_lt hentryLength)
  dsimp only
  rw [sum_of_lt (by omega), pure_bind]
  split
  · rfl
  · rw [product_of_lt (by omega), pure_bind, sum_of_lt (by omega), pure_bind]
    split <;> rfl

/-- The entries of a dictionary that has been loaded lie in memory, and have room for a key. -/
theorem stop_le_of_load (h : Dictionary.load bytes address keyBytes = .ok dictionary) :
    dictionary.entries + dictionary.count * dictionary.entryLength ≤ bytes.size ∧
      (0 < dictionary.count → keyBytes ≤ dictionary.entryLength) := by
  obtain ⟨separatorCount, -, h⟩ := bind_eq_ok.mp h
  obtain ⟨separators, -, h⟩ := bind_eq_ok.mp h
  obtain ⟨entryLength, -, h⟩ := bind_eq_ok.mp h
  obtain ⟨hi, -, h⟩ := bind_eq_ok.mp h
  obtain ⟨lo, -, h⟩ := bind_eq_ok.mp h
  dsimp only at h
  split at h
  · exact nomatch h
  split at h
  · exact nomatch h
  · obtain rfl := Except.ok.inj h
    dsimp only
    omega

section

variable (hsize : bytes.size < 2 ^ 63)
  (hentries : dictionary.entries + dictionary.count * dictionary.entryLength ≤ bytes.size)
include hsize hentries

/-- An entry of a loaded dictionary has its address in its range. -/
theorem entryAddress_eq {i : Nat} (hi : i < dictionary.count) :
    entryAddress dictionary i = pure (dictionary.entryAddress i) := by
  have hfar : i * dictionary.entryLength ≤ dictionary.count * dictionary.entryLength :=
    Nat.mul_le_mul_right _ (Nat.le_of_lt hi)
  rw [entryAddress, product_of_lt (by omega), pure_bind, sum_of_lt (by omega)]
  rfl

/-- A key is compared with a slice that lies in memory. -/
theorem hasKey_eq {i : Nat} (hi : i < dictionary.count) {key : List UInt8}
    (hkey : key.length < 2 ^ 32) :
    hasKey dictionary bytes key i
      = pure (decide
          (Dictionary.bytesAt? bytes (dictionary.entryAddress i) key.length = some key)) := by
  have hfar : i * dictionary.entryLength ≤ dictionary.count * dictionary.entryLength :=
    Nat.mul_le_mul_right _ (Nat.le_of_lt hi)
  have hplace : dictionary.entryAddress i < 2 ^ 63 := by
    unfold Dictionary.entryAddress
    omega
  rw [hasKey, entryAddress_eq hsize hentries hi, pure_bind, sum_of_lt (by omega), pure_bind,
    Dictionary.bytesAt?]
  split <;> simp [*]

/-- Entries are searched with their numbers in their range. -/
theorem lookupFrom_eq {count i : Nat} (hcount : i + count ≤ dictionary.count) {key : List UInt8}
    (hkey : key.length < 2 ^ 32) :
    lookupFrom dictionary bytes key count i
      = pure (match (List.range' i count).find? fun i =>
          Dictionary.bytesAt? bytes (dictionary.entryAddress i) key.length = some key with
        | some i => (dictionary.entryAddress i).toUInt16
        | none => 0) := by
  induction count generalizing i with
  | zero => rfl
  | succ count ih =>
      rw [lookupFrom, hasKey_eq hsize hentries (by omega) hkey, pure_bind, List.range'_succ,
        List.find?_cons]
      cases
          decide (Dictionary.bytesAt? bytes (dictionary.entryAddress i) key.length = some key) with
      | true =>
          rw [if_pos rfl, entryAddress_eq hsize hentries (by omega), pure_bind]
      | false =>
          rw [if_neg Bool.false_ne_true]
          exact ih (by omega)

/-- A key is looked up with addresses in their range. -/
theorem lookup_eq {key : List UInt8} (hkey : key.length < 2 ^ 32) :
    lookup dictionary bytes key = pure (dictionary.lookup bytes key) := by
  rw [Dictionary.lookup, List.range_eq_range']
  exact lookupFrom_eq hsize hentries (by omega) hkey

/-- A key that is indexed is a slice of memory. -/
theorem build_eq
    (hlength : 0 < dictionary.count → keyBytes ≤ dictionary.entryLength) :
    build dictionary bytes keyBytes = pure (IndexedDictionary.build dictionary bytes keyBytes) := by
  have hentry (i : Nat) (hi : i ∈ List.range dictionary.count) : (do
      let address ← entryAddress dictionary i
      let stop ← sum address keyBytes
      let key ← slice bytes.toList address stop
      return (key, address.toUInt16) : Checked (List UInt8 × Word))
      = pure ((bytes.extract (dictionary.entryAddress i)
          (dictionary.entryAddress i + keyBytes)).toList,
        (dictionary.entryAddress i).toUInt16) := by
    have hlt := List.mem_range.mp hi
    have hlong := hlength (Nat.zero_lt_of_lt hlt)
    have hfar : (i + 1) * dictionary.entryLength ≤ dictionary.count * dictionary.entryLength :=
      Nat.mul_le_mul_right _ hlt
    rw [Nat.succ_mul] at hfar
    have hstop : dictionary.entryAddress i + keyBytes ≤ bytes.size := by
      unfold Dictionary.entryAddress
      omega
    rw [entryAddress_eq hsize hentries hlt, pure_bind, sum_of_lt (by omega), pure_bind,
      slice_of_le (by rwa [Array.length_toList]), pure_bind, Array.toList_extract,
      List.extract_eq_take_drop, Nat.add_sub_cancel_left]
  rw [build, mapM_pure_of_mem hentry, pure_bind, IndexedDictionary.build, List.foldl_map]

end

/-! ## Lexemes -/

/-- Text is cut with its places in their range. -/
theorem spans_eq (isSeparator : Word → Bool) {place : Nat} (start : Option Nat) {text : List Word}
    (h : place + text.length < 2 ^ 64) :
    spans isSeparator place start text
      = pure (StoryMachine.spans isSeparator place start text) := by
  induction text generalizing place start with
  | nil => rfl
  | cons c rest ih =>
      rw [List.length_cons] at h
      rw [spans, StoryMachine.spans, sum_of_lt (by omega), pure_bind]
      split
      · rw [ih none (by omega), pure_bind]
      split
      · rw [ih none (by omega), pure_bind]
      · exact ih _ (by omega)

variable {codec : Codec} {find : List UInt8 → Checked Word} {find' : List UInt8 → Word}

/-- **The parts of a text are slices of it.** -/
theorem lexemes_eq (hfind : ∀ key, key.length = codec.keyBytes → find key = pure (find' key))
    (dictionary : Dictionary) {text : List Word} (htext : text.length < 2 ^ 64) :
    lexemes dictionary codec find text
      = pure (dictionary.lexemes codec find' text) := by
  rw [lexemes, spans_eq _ none (by omega), pure_bind]
  refine mapM_pure_of_mem fun part hpart => ?_
  have hin := (dictionary.cut_parts text).part_of_mem part hpart
  have hle := Nat.le_of_lt hin.lt
  rw [lexeme, cut_of_le hle hin.stop_le, pure_bind, CheckedText.encodeKey_eq, pure_bind,
    hfind _ (codec.length_encodeKey _), pure_bind, difference_of_le hle, pure_bind]
  rfl

/-- A key has at most six bytes. -/
theorem keyBytes_le (codec : Codec) : codec.keyBytes ≤ 6 := by
  unfold Codec.keyBytes Codec.keyLength
  split <;> decide

/-- **Text is cut into words with every number in its range.** -/
theorem tokenise_eq (dictionaries : Dictionaries) (hsize : bytes.size < 2 ^ 63) (codec : Codec)
    (haddress : address < 2 ^ 62) (ceiling : Nat) {text : List Word}
    (htext : text.length < 2 ^ 64) :
    tokenise dictionaries bytes codec address ceiling text
      = inRange (dictionaries.tokenise bytes codec address ceiling text) := by
  have hkey := keyBytes_le codec
  have hpure {find : List UInt8 → Word} (dictionary : Dictionary) :
      lexemes dictionary codec (pure <| find ·) text
        = pure (dictionary.lexemes codec find text) :=
    lexemes_eq (fun _ _ => rfl) dictionary htext
  unfold tokenise Dictionaries.tokenise
  cases dictionaries.known.lookup address with
  | some indexed =>
      dsimp only
      rw [hpure, pure_bind]
      rfl
  | none =>
      dsimp only
      rw [load_eq haddress]
      refine bind_congr_inRange fun dictionary hload => ?_
      obtain ⟨hentries, hlength⟩ := stop_le_of_load hload
      split
      · rw [build_eq hsize hentries hlength, pure_bind, hpure, pure_bind]
        rfl
      · rw [lexemes_eq (fun key hbytes => lookup_eq hsize hentries (by omega)) dictionary htext,
          pure_bind]
        rfl

end CheckedDictionary

end StoryMachine
