import StoryMachine.Word

/-!
# Character codes and Unicode

A story's own character codes agree with ASCII from 32 to 126; 13 is a new line,
and the codes from 155 on go through a table of extra characters, which a story
may replace.  `UnicodeTable.toChar?` and `UnicodeTable.ofChar?` are the two
directions; `encode` writes a question mark for a character that has no code,
and `decode` drops a code that has no character.
-/

namespace StoryMachine

/-- The character with a given number, unless the number is that of none. -/
def charOf? (n : Nat) : Option Char :=
  if n.isValidChar then some (Char.ofNat n) else none

/-- The code of a question mark, which stands in for what cannot be written. -/
def questionMark : Word := 63

/-- The characters of the codes from 155 on. -/
structure UnicodeTable where
  extras : Array Char
  deriving DecidableEq

namespace UnicodeTable

/-- The first code that goes through the table. -/
def firstExtra : Nat := 155

/-- The table of a story that brings none of its own. -/
def standard : UnicodeTable where
  extras := #[
    0xe4, 0xf6, 0xfc, 0xc4, 0xd6, 0xdc, 0xdf, 0xbb, 0xab, 0xeb, 0xef, 0xff, 0xcb, 0xcf,
    0xe1, 0xe9, 0xed, 0xf3, 0xfa, 0xfd, 0xc1, 0xc9, 0xcd, 0xd3, 0xda, 0xdd, 0xe0, 0xe8,
    0xec, 0xf2, 0xf9, 0xc0, 0xc8, 0xcc, 0xd2, 0xd9, 0xe2, 0xea, 0xee, 0xf4, 0xfb, 0xc2,
    0xca, 0xce, 0xd4, 0xdb, 0xe5, 0xc5, 0xf8, 0xd8, 0xe3, 0xf1, 0xf5, 0xc3, 0xd1, 0xd5,
    0xe6, 0xc6, 0xe7, 0xc7, 0xfe, 0xf0, 0xde, 0xd0, 0xa3, 0x153, 0x152, 0xa1, 0xbf].map Char.ofNat

/-- The character of the table word at an address; a word that is no character
reads as a question mark. -/
def loadEntry (bytes : Array UInt8) (address : Nat) : Except Fault Char :=
  match bytes[address]?, bytes[address + 1]? with
  | some hi, some lo => .ok ((charOf? (Word.ofBytes hi lo).toNat).getD '?')
  | _, _ =>
    .error { kind := .outOfBounds, detail := "UNICODE TABLE " ++ Numeral.marked 4 address }

/-- The table that a story keeps at an address: a count of at most 97, then that
many words. -/
def load (bytes : Array UInt8) (address : Nat) : Except Fault UnicodeTable :=
  match bytes[address]? with
  | none =>
    .error { kind := .outOfBounds, detail := "UNICODE TABLE " ++ Numeral.marked 4 address }
  | some count =>
    if 97 < count then
      .error { kind := .corruptImage, detail := s!"UNICODE TABLE HAS {count} ENTRIES" }
    else do
      let entries ← (List.range count.toNat).mapM fun i => loadEntry bytes (address + 1 + 2 * i)
      pure ⟨entries.toArray⟩

/-- The character of a code. -/
def toChar? (table : UnicodeTable) (code : Word) : Option Char :=
  if code = 9 then some '\t'
  else if code = 11 then some ' '
  else if code = 13 then some '\n'
  else if 32 ≤ code ∧ code ≤ 126 then some (Char.ofNat code.toNat)
  else if firstExtra ≤ code.toNat then table.extras[code.toNat - firstExtra]?
  else none

/-- The code of a character. -/
def ofChar? (table : UnicodeTable) (c : Char) : Option Word :=
  if c = '\n' ∨ c = '\r' then some 13
  else if ' ' ≤ c ∧ c ≤ '~' then some c.toNat.toUInt16
  else (table.extras.toList.findIdx? (· = c)).map fun i => (firstExtra + i).toUInt16

/-- The codes of a text; a character without a code becomes a question mark. -/
def encode (table : UnicodeTable) (text : String) : List Word :=
  text.toList.map fun c => (table.ofChar? c).getD questionMark

/-- The text of some codes; a code without a character is dropped. -/
def decode (table : UnicodeTable) (codes : List Word) : String :=
  String.ofList (codes.filterMap table.toChar?)

end UnicodeTable

/-- Lower case of ASCII letters and of the accented capitals from U+00C0 to
U+00DE, the multiplication sign between them excepted. -/
def lowerCase (c : Char) : Char :=
  if ('A' ≤ c ∧ c ≤ 'Z') ∨ ('\u00c0' ≤ c ∧ c ≤ '\u00de' ∧ c ≠ '\u00d7') then
    Char.ofNat (c.toNat + 0x20)
  else c

/-- Control characters: U+0000 to U+001F and U+007F to U+009F. -/
def isControl (c : Char) : Bool :=
  c.toNat ≤ 0x1f || (0x7f ≤ c.toNat && c.toNat ≤ 0x9f)

end StoryMachine
