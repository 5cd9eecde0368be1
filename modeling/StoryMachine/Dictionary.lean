import StoryMachine.Text.Codec
import Std.Data.HashMap

/-!
# Dictionaries

A dictionary is a list of separators followed by entries of equal length, each
of which begins with a packed key.  A positive entry count promises that the
entries are sorted; a negative one that they are not.

Cutting a text into lexemes is independent of the entries: `spans` finds the
separators and the maximal runs between separators and blanks.  Each lexeme is
then looked up under its packed key.  `Dictionary.lookup` searches the entries
in order.  `Dictionaries` keeps an index for each sorted dictionary that stands
in memory the story cannot write; any other dictionary may change and is loaded
and searched anew every time.
-/

namespace StoryMachine

/-- A word or separator found in a text: the address of its dictionary entry or
zero, its length, and the place of its first character. -/
structure Lexeme where
  address : Word
  length : UInt8
  start : UInt8
  deriving DecidableEq

/-- The shape of a dictionary. -/
structure Dictionary where
  address : Nat
  separators : List Word
  entryLength : Nat
  /-- The address of the first entry. -/
  entries : Nat
  count : Nat
  sorted : Bool
  deriving DecidableEq

/-- The parts that a text falls into, as first place and place after the last:
the separators, and the maximal runs of other characters that are neither blank
nor zero.  `start` is where the run before place `at` began, if there is one. -/
def spans (isSeparator : Word → Bool) : (place : Nat) → (start : Option Nat) → List Word →
    List (Nat × Nat)
  | place, start, [] => (start.map fun s => (s, place)).toList
  | place, start, c :: rest =>
    if isSeparator c then
      (start.map fun s => (s, place)).toList
        ++ (place, place + 1) :: spans isSeparator (place + 1) none rest
    else if c = 32 ∨ c = 0 then
      (start.map fun s => (s, place)).toList ++ spans isSeparator (place + 1) none rest
    else
      spans isSeparator (place + 1) (some (start.getD place)) rest

namespace Dictionary

/-- The byte at an address of a dictionary. -/
def byteAt (bytes : Array UInt8) (address : Nat) : Except Fault UInt8 :=
  match bytes[address]? with
  | some b => .ok b
  | none =>
    .error { kind := .outOfBounds, detail := "DICTIONARY " ++ Numeral.marked 4 address }

/-- Reads the shape of the dictionary at an address, whose keys take
`keyBytes` bytes. -/
def load (bytes : Array UInt8) (address keyBytes : Nat) : Except Fault Dictionary := do
  let separatorCount := (← byteAt bytes address).toNat
  let separators ← (List.range separatorCount).mapM fun i => byteAt bytes (address + 1 + i)
  let head := address + 1 + separatorCount
  let entryLength := (← byteAt bytes head).toNat
  let hi ← byteAt bytes (head + 1)
  let lo ← byteAt bytes (head + 2)
  let signedCount := (Word.ofBytes hi lo).signed
  let entries := head + 3
  let count := signedCount.natAbs
  if 0 < count ∧ entryLength < keyBytes then
    .error { kind := .badDictionary,
             detail := s!"ENTRY LENGTH {entryLength} AT " ++ Numeral.marked 4 address }
  else if bytes.size < entries + count * entryLength then
    .error { kind := .badDictionary,
             detail := s!"{count} ENTRIES AT " ++ Numeral.marked 4 address }
  else
    .ok { address, separators := separators.map (·.toUInt16), entryLength, entries, count,
          sorted := 0 < signedCount }

/-- The address of entry `i`. -/
def entryAddress (dictionary : Dictionary) (i : Nat) : Nat :=
  dictionary.entries + i * dictionary.entryLength

/-- The `n` bytes at an address, if they are all there. -/
def bytesAt? (bytes : Array UInt8) (address n : Nat) : Option (List UInt8) :=
  if address + n ≤ bytes.size then some (bytes.extract address (address + n)).toList else none

/-- The address of the first entry with a key, or zero. -/
def lookup (dictionary : Dictionary) (bytes : Array UInt8) (key : List UInt8) : Word :=
  match (List.range dictionary.count).find? fun i =>
      bytesAt? bytes (dictionary.entryAddress i) key.length = some key with
  | some i => (dictionary.entryAddress i).toUInt16
  | none => 0

/-- The parts of a text. -/
def parts (dictionary : Dictionary) (text : List Word) : List (Nat × Nat) :=
  spans (dictionary.separators.contains ·) 0 none text

/-- The lexeme of one part of a text. -/
def lexeme (codec : Codec) (find : List UInt8 → Word) (text : List Word) (part : Nat × Nat) :
    Lexeme where
  address := find (codec.encodeKey ((text.drop part.1).take (part.2 - part.1)))
  length := (part.2 - part.1).toUInt8
  start := part.1.toUInt8

/-- Cuts a text into lexemes, finding each key with `find`. -/
def lexemes (dictionary : Dictionary) (codec : Codec) (find : List UInt8 → Word)
    (text : List Word) : List Lexeme :=
  (dictionary.parts text).map (lexeme codec find text)

/-- Cuts a text into lexemes and searches the entries for each. -/
def tokenise (dictionary : Dictionary) (bytes : Array UInt8) (codec : Codec) (text : List Word) :
    List Lexeme :=
  dictionary.lexemes codec (dictionary.lookup bytes) text

end Dictionary

/-- A dictionary with the entry addresses by key. -/
structure IndexedDictionary where
  dictionary : Dictionary
  index : Std.HashMap (List UInt8) Word

namespace IndexedDictionary

/-- Reads all entries of a dictionary; of two with one key the first counts. -/
def build (dictionary : Dictionary) (bytes : Array UInt8) (keyBytes : Nat) : IndexedDictionary where
  dictionary
  index := (List.range dictionary.count).foldl (fun index i =>
    let address := dictionary.entryAddress i
    index.insertIfNew (bytes.extract address (address + keyBytes)).toList address.toUInt16) ∅

/-- The address of the entry with a key, or zero. -/
def lookup (indexed : IndexedDictionary) (key : List UInt8) : Word :=
  indexed.index.getD key 0

end IndexedDictionary

/-- The indexed dictionaries, by address. -/
structure Dictionaries where
  known : List (Nat × IndexedDictionary) := []

/-- Lexemes found, the dictionaries known afterwards, and how many keys were
indexed if an index was built. -/
structure Tokenised where
  lexemes : List Lexeme
  dictionaries : Dictionaries
  indexedKeys : Option Nat := none

namespace Dictionaries

/-- Cuts a text into lexemes with the dictionary at an address.  Only a sorted
dictionary at or above the ceiling of writable memory is indexed and kept. -/
def tokenise (dictionaries : Dictionaries) (bytes : Array UInt8) (codec : Codec)
    (address ceiling : Nat) (text : List Word) : Except Fault Tokenised :=
  match dictionaries.known.lookup address with
  | some indexed =>
    .ok { lexemes := indexed.dictionary.lexemes codec indexed.lookup text, dictionaries }
  | none => do
    let dictionary ← Dictionary.load bytes address codec.keyBytes
    if dictionary.sorted && ceiling ≤ address then
      let indexed := IndexedDictionary.build dictionary bytes codec.keyBytes
      .ok { lexemes := dictionary.lexemes codec indexed.lookup text,
            dictionaries := ⟨(address, indexed) :: dictionaries.known⟩,
            indexedKeys := some indexed.index.size }
    else
      .ok { lexemes := dictionary.tokenise bytes codec text, dictionaries }

end Dictionaries

end StoryMachine
