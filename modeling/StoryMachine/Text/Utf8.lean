/-!
# Bytes as text

Files are bytes, and what is read from them may be no text at all.  `strict?`
refuses bytes that are no well formed UTF-8; `lossy` puts the replacement
character U+FFFD for every longest run of bytes that begins a character and is
then not continued.
-/

namespace StoryMachine.Utf8

/-- The bytes of a text. -/
def encode (text : String) : List UInt8 :=
  text.toUTF8.toList

/-- The text with the given bytes, if they are well formed. -/
def strict? (bytes : List UInt8) : Option String :=
  String.fromUTF8? ⟨bytes.toArray⟩

/-- How many bytes must follow a leading byte, and the bounds of the first. -/
def following (lead : UInt8) : Option (Nat × UInt8 × UInt8) :=
  if lead < 0x80 then some (0, 0x80, 0xbf)
  else if lead < 0xc2 then none
  else if lead < 0xe0 then some (1, 0x80, 0xbf)
  else if lead = 0xe0 then some (2, 0xa0, 0xbf)
  else if lead = 0xed then some (2, 0x80, 0x9f)
  else if lead < 0xf0 then some (2, 0x80, 0xbf)
  else if lead = 0xf0 then some (3, 0x90, 0xbf)
  else if lead < 0xf4 then some (3, 0x80, 0xbf)
  else if lead = 0xf4 then some (3, 0x80, 0x8f)
  else none

/-- How many of the next `wanted` bytes continue a character, the first of them
within the given bounds. -/
def continued : (wanted : Nat) → (lo hi : UInt8) → List UInt8 → Nat
  | wanted + 1, lo, hi, b :: rest =>
    if lo ≤ b ∧ b ≤ hi then 1 + continued wanted 0x80 0xbf rest else 0
  | _, _, _, _ => 0

/-- The number of the character with the given leading and following bytes. -/
def number (lead : UInt8) (rest : List UInt8) : Nat :=
  let high := match rest.length with
    | 0 => lead.toNat
    | 1 => lead.toNat % 32
    | 2 => lead.toNat % 16
    | _ => lead.toNat % 8
  rest.foldl (fun n b => 64 * n + b.toNat % 64) high

/-- The character that starts at a byte, and how many bytes after it belong to
it or to the beginning of a character that it is not. -/
def first (lead : UInt8) (rest : List UInt8) : Char × Nat :=
  match following lead with
  | none => ('\ufffd', 0)
  | some (wanted, lo, hi) =>
    let found := continued wanted lo hi rest
    if found = wanted then (Char.ofNat (number lead (rest.take wanted)), found)
    else ('\ufffd', found)

/-- The characters of some bytes after the first `skip` of them. -/
def lossyFrom : (skip : Nat) → List UInt8 → List Char
  | _, [] => []
  | skip + 1, _ :: rest => lossyFrom skip rest
  | 0, b :: rest =>
    let (c, n) := first b rest
    c :: lossyFrom n rest

/-- The text of some bytes, with U+FFFD for what is no text. -/
def lossy (bytes : List UInt8) : String :=
  String.ofList (lossyFrom 0 bytes)

end StoryMachine.Utf8
