import StoryMachine.Text.Alphabet
import StoryMachine.Text.Unicode

/-!
# Packed text

A packed text is a row of words.  Each word holds three five bit characters, and
its top bit marks the last one.  Character 0 is a space; 1 to 3 together with
the next character name an abbreviation, another packed text that is put in its
place and may not use abbreviations itself; 4 and 5 take the next character from
the second or third row of the alphabet; character 6 of the third row announces
a ten bit code in the two characters after it.

`Codec.decode` reads a packed text and says how many bytes it takes.  Its loop
is bounded by the bytes that are left, so it ends on every memory.
`Codec.encodeKey` packs a typed word the way dictionary entries are packed.
-/

namespace StoryMachine

/-- What it takes to read the text of a story. -/
structure Codec where
  version : Nat
  alphabet : Alphabet
  unicode : UnicodeTable
  /-- The address of the table of abbreviations. -/
  abbreviations : Nat
  deriving DecidableEq

namespace Codec

/-- What the characters read so far mean for the next one. -/
inductive Expecting where
  | character
  | abbreviation (bank : UInt8)
  | escapeHigh
  | escapeLow (high : Word)
  deriving DecidableEq

/-- A text that is being read: the row of the next character, what is expected,
and the codes so far. -/
structure Reading where
  row : Row := .first
  expecting : Expecting := .character
  out : Array Word := #[]

/-- The word at an address of packed text. -/
def textWord (bytes : Array UInt8) (address : Nat) : Except Fault Word :=
  match bytes[address]?, bytes[address + 1]? with
  | some hi, some lo => .ok (Word.ofBytes hi lo)
  | _, _ =>
    .error { kind := .outOfBounds, detail := "Z-STRING RUNS PAST " ++ Numeral.marked 4 address }

/-- The three five bit characters of a word. -/
def zchars (word : Word) : List UInt8 :=
  [((word >>> 10) &&& 0x1f).toUInt8, ((word >>> 5) &&& 0x1f).toUInt8, (word &&& 0x1f).toUInt8]

/-- Takes one five bit character.  `expand` gives the codes of an abbreviation,
by its number; in a text that may not use any there is none, and `address` is
where the offending word stands. -/
def accept (codec : Codec) (expand : Option (Nat → Except Fault (Array Word))) (address : Nat)
    (reading : Reading) (zchar : UInt8) : Except Fault Reading :=
  match reading.expecting with
  | .character =>
    if zchar = 0 then
      .ok { reading with row := .first, out := reading.out.push 32 }
    else if zchar ≤ 3 then
      match expand with
      | some _ => .ok { reading with expecting := .abbreviation zchar }
      | none =>
        .error { kind := .badAbbreviation, detail := "NESTED AT " ++ Numeral.marked 4 address }
    else if zchar = 4 then
      .ok { reading with row := .second }
    else if zchar = 5 then
      .ok { reading with row := .third }
    else if zchar = 6 ∧ reading.row = .third then
      .ok { reading with row := .first, expecting := .escapeHigh }
    else
      .ok { reading with
        row := .first, out := reading.out.push (codec.alphabet.code reading.row zchar) }
  | .abbreviation bank =>
    match expand with
    | none =>
      .error { kind := .badAbbreviation, detail := "NESTED AT " ++ Numeral.marked 4 address }
    | some expand => do
      let codes ← expand (32 * (bank.toNat - 1) + zchar.toNat)
      .ok { row := .first, expecting := .character, out := reading.out ++ codes }
  | .escapeHigh =>
    .ok { reading with expecting := .escapeLow (zchar.toUInt16 <<< 5) }
  | .escapeLow high =>
    .ok { reading with expecting := .character, out := reading.out.push (high ||| zchar.toUInt16) }

/-- Reads words from an address on, until one has its top bit set.  Gives the
codes and the address after the last word.  The count is of the bytes left to
look at: where it is zero there is no word to read. -/
def readWords (codec : Codec) (expand : Option (Nat → Except Fault (Array Word)))
    (bytes : Array UInt8) : (left address : Nat) → Reading → Except Fault (Array Word × Nat)
  | 0, address, _ => do
    let _ ← textWord bytes address
    .error { kind := .outOfBounds, detail := "Z-STRING RUNS PAST " ++ Numeral.marked 4 address }
  | left + 1, address, reading => do
    let word ← textWord bytes address
    let reading ← (zchars word).foldlM (codec.accept expand address) reading
    if word < 0x8000 then readWords codec expand bytes left (address + 2) reading
    else .ok (reading.out, address + 2)

/-- The codes of abbreviation `index`. -/
def expandAbbreviation (codec : Codec) (bytes : Array UInt8) (index : Nat) :
    Except Fault (Array Word) := do
  let entry ← textWord bytes (codec.abbreviations + 2 * index)
  let start := 2 * entry.toNat
  let (codes, _) ← codec.readWords none bytes (bytes.size - start) start {}
  .ok codes

/-- The codes of the packed text at an address, and the bytes it takes. -/
def decode (codec : Codec) (bytes : Array UInt8) (address : Nat) :
    Except Fault (List Word × Nat) := do
  let (codes, stop) ←
    codec.readWords (some (codec.expandAbbreviation bytes)) bytes (bytes.size - address) address {}
  .ok (codes.toList, stop - address)

/-- How many five bit characters a dictionary key has. -/
def keyLength (codec : Codec) : Nat :=
  if codec.version ≤ 3 then 6 else 9

/-- How many bytes a dictionary key takes. -/
def keyBytes (codec : Codec) : Nat :=
  codec.keyLength / 3 * 2

/-- The five bit characters that stand for a code. -/
def spell (codec : Codec) (code : Word) : List UInt8 :=
  if code = 32 then [0]
  else match codec.alphabet.find? code with
    | some (.first, zchar) => [zchar]
    | some (.second, zchar) => [4, zchar]
    | some (.third, zchar) => [5, zchar]
    | none => [5, 6, ((code >>> 5) &&& 0x1f).toUInt8, (code &&& 0x1f).toUInt8]

/-- Packs five bit characters three to a word, with the top bit on the last. -/
def pack : List UInt8 → List Word
  | a :: b :: c :: rest =>
    let word := (a.toUInt16 <<< 10) ||| (b.toUInt16 <<< 5) ||| c.toUInt16
    (if rest.isEmpty then word ||| 0x8000 else word) :: pack rest
  | _ => []

/-- The dictionary key of a word: its five bit characters cut to the length of a
key, or filled up with character 5, and packed. -/
def encodeKey (codec : Codec) (codes : List Word) : List UInt8 :=
  let spelt := (codes.flatMap codec.spell).take codec.keyLength
  let filled := spelt ++ List.replicate (codec.keyLength - spelt.length) 5
  (pack filled).flatMap Word.toBytes

end Codec

end StoryMachine
