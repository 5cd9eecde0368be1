import StoryMachine.Word

/-!
# Alphabets

The text of a story is written in five bit characters.  Characters 6 to 31 are
looked up in one of three rows of 26 character codes.  A story may bring its own
rows, but the first two places of the third row keep their meaning: they stand
for the escape to a ten bit code and for a new line.
-/

namespace StoryMachine

/-- The rows of an alphabet. -/
inductive Row where
  | first
  | second
  | third
  deriving DecidableEq

namespace Row

/-- The number of a row, counted from zero. -/
def number : Row → Nat
  | first => 0
  | second => 1
  | third => 2

/-- The row with a number, counted round from the third to the first. -/
def ofNumber (n : Nat) : Row :=
  if n % 3 = 0 then first else if n % 3 = 1 then second else third

theorem ofNumber_number (row : Row) : ofNumber row.number = row := by
  cases row <;> rfl

end Row

/-- Three rows of 26 character codes. -/
structure Alphabet where
  first : Vector UInt8 26
  second : Vector UInt8 26
  third : Vector UInt8 26
  deriving DecidableEq

namespace Alphabet

/-- The codes of a row. -/
def row (alphabet : Alphabet) : Row → Vector UInt8 26
  | .first => alphabet.first
  | .second => alphabet.second
  | .third => alphabet.third

/-- The codes of 26 given characters. -/
def rowOf (text : String) : Vector UInt8 26 :=
  Vector.ofFn fun i => (text.toList.getD i.val ' ').toNat.toUInt8

/-- The rows of a story that brings none of its own. -/
def standard : Alphabet where
  first := rowOf "abcdefghijklmnopqrstuvwxyz"
  second := rowOf "ABCDEFGHIJKLMNOPQRSTUVWXYZ"
  third := rowOf " \r0123456789.,!?_#'\"/\\-:()"

/-- The rows that a story keeps in 78 bytes at an address. -/
def load (bytes : Array UInt8) (address : Nat) : Except Fault Alphabet :=
  if address + 78 ≤ bytes.size then
    let row (i : Nat) : Vector UInt8 26 :=
      Vector.ofFn fun j => bytes.getD (address + 26 * i + j.val) 0
    .ok { first := row 0, second := row 1, third := ((row 2).set 0 32).set 1 13 }
  else
    .error { kind := .outOfBounds, detail := "ALPHABET TABLE " ++ Numeral.marked 4 address }

/-- The code that a five bit character of 6 or more stands for. -/
def code (alphabet : Alphabet) (row : Row) (zchar : UInt8) : Word :=
  ((alphabet.row row).toArray.getD (zchar.toNat - 6) 0).toUInt16

/-- The place of a code in a row, looking from place `start` on. -/
def place? (row : Vector UInt8 26) (start : Nat) (wanted : Word) : Option UInt8 :=
  ((row.toList.drop start).findIdx? (·.toUInt16 = wanted)).map
    fun i => (i + start + 6).toUInt8

/-- A row and five bit character that stand for a code, the first there is.
The escape place of the third row stands for none. -/
def find? (alphabet : Alphabet) (wanted : Word) : Option (Row × UInt8) :=
  if wanted = 0 ∨ 255 < wanted then none
  else
    let inRow (row : Row) (start : Nat) : Option (Row × UInt8) :=
      (place? (alphabet.row row) start wanted).map fun zchar => (row, zchar)
    inRow .first 0 <|> inRow .second 0 <|> inRow .third 1

end Alphabet

end StoryMachine
