/-!
# Numbers as text

Addresses and codes appear in fault texts, listings and log notices as padded
numerals.  `hex` and `hexUpper` write at least the given number of base sixteen
digits, `decimal` at least the given number of decimal digits; a longer number
is never cut: `length_zeroPadded`.  `nat?` and `int?` read decimal numbers; both
take a plus sign, only `int?` takes a minus sign.
-/

namespace StoryMachine.Numeral

/-- The digits with zeros in front, up to `width` characters. -/
def zeroPadded (width : Nat) (digits : List Char) : List Char :=
  List.replicate (width - digits.length) '0' ++ digits

/-- At least `width` lower case base sixteen digits of `n`. -/
def hexDigits (width n : Nat) : List Char :=
  zeroPadded width (Nat.toDigits 16 n)

/-- At least `width` lower case base sixteen digits of `n`. -/
def hex (width n : Nat) : String :=
  String.ofList (hexDigits width n)

/-- At least `width` upper case base sixteen digits of `n`. -/
def hexUpper (width n : Nat) : String :=
  String.ofList ((hexDigits width n).map Char.toUpper)

/-- Base sixteen behind the mark `0x`, at least `width` digits. -/
def marked (width n : Nat) : String :=
  "0x" ++ hex width n

/-- At least `width` decimal digits of `n`. -/
def decimal (width n : Nat) : String :=
  String.ofList (zeroPadded width (Nat.toDigits 10 n))

/-- The number that decimal digits write; none for other characters or for no
digits at all. -/
def digits? (chars : List Char) : Option Nat :=
  if chars ≠ [] ∧ chars.all Char.isDigit then
    some (chars.foldl (fun n c => 10 * n + (c.toNat - '0'.toNat)) 0)
  else none

/-- The number that a text writes in decimal, perhaps behind a plus sign. -/
def nat? (text : String) : Option Nat :=
  match text.toList with
  | '+' :: chars => digits? chars
  | chars => digits? chars

/-- The number that a text writes in decimal, perhaps behind a sign. -/
def int? (text : String) : Option Int :=
  match text.toList with
  | '-' :: chars => (digits? chars).map fun n => -(n : Int)
  | _ => (nat? text).map fun n => (n : Int)

/-- Padding reaches the width and cuts nothing. -/
theorem length_zeroPadded (width : Nat) (digits : List Char) :
    (zeroPadded width digits).length = max width digits.length := by
  simp [zeroPadded]
  omega

end StoryMachine.Numeral
