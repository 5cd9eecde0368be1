import StoryMachine.Word

/-!
# Keys

The keys of a terminal and the codes by which a story knows them.  A character
that is not printable ASCII reads as a question mark; a key that a story knows
nothing of has no code.
-/

namespace StoryMachine.Terminal

/-- A key of a terminal. -/
inductive Key where
  | backspace | enter | escape | tab | up | down | left | right | delete | insert
  | home | endOfLine | pageUp | pageDown
  | function (n : Nat)
  | char (c : Char)
  | ctrl (c : Char)
  deriving DecidableEq

/-- The code of a key. -/
def Key.code? : Key → Option Word
  | enter => some 13
  | backspace => some 8
  | delete => some 8
  | escape => some 27
  | tab => some 9
  | up => some 129
  | down => some 130
  | left => some 131
  | right => some 132
  | function n => if 1 ≤ n ∧ n ≤ 12 then some (132 + n).toUInt16 else none
  | char c => if ' ' ≤ c ∧ c ≤ '~' then some c.toNat.toUInt16 else some 63
  | _ => none

end StoryMachine.Terminal
