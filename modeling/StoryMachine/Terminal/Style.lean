import StoryMachine.Word

/-!
# Styles and colours

How text is painted on a terminal: with a control sequence before it that selects
the style, and one after it that selects the plain style again.  Plain text is
written as it is.
-/

namespace StoryMachine.Terminal

/-- A colour of a terminal: one of eight by name, or one of 256 by number. -/
inductive Colour where
  | black | red | green | yellow | blue | purple | cyan | white
  | fixed (number : Nat)
  deriving DecidableEq

namespace Colour

/-- The colour that a story asks for by number; zero keeps the current one, and
numbers without a colour ask for the default. -/
def select (code : Word) (current : Option Colour) : Option Colour :=
  match code.toNat with
  | 0 => current
  | 2 => some black
  | 3 => some red
  | 4 => some green
  | 5 => some yellow
  | 6 => some blue
  | 7 => some purple
  | 8 => some cyan
  | 9 => some white
  | 10 => some (fixed 250)
  | 11 => some (fixed 244)
  | 12 => some (fixed 238)
  | _ => none

/-- The name of a colour. -/
def name : Colour → String
  | black => "Black"
  | red => "Red"
  | green => "Green"
  | yellow => "Yellow"
  | blue => "Blue"
  | purple => "Purple"
  | cyan => "Cyan"
  | white => "White"
  | fixed number => s!"Fixed({number})"

/-- The parameter that selects a colour, where `base` is 30 for the foreground and
40 for the background. -/
def parameter (base : Nat) : Colour → String
  | black => s!"{base}"
  | red => s!"{base + 1}"
  | green => s!"{base + 2}"
  | yellow => s!"{base + 3}"
  | blue => s!"{base + 4}"
  | purple => s!"{base + 5}"
  | cyan => s!"{base + 6}"
  | white => s!"{base + 7}"
  | fixed number => s!"{base + 8};5;{number}"

end Colour

/-- How text is painted. -/
structure Style where
  bold : Bool := false
  italic : Bool := false
  reverse : Bool := false
  foreground : Option Colour := none
  background : Option Colour := none
  deriving DecidableEq

namespace Style

/-- The parameters that select a style. -/
def parameters (style : Style) : List String :=
  (if style.bold then ["1"] else []) ++ (if style.italic then ["3"] else [])
    ++ (if style.reverse then ["7"] else [])
    ++ (style.background.map (Colour.parameter 40)).toList
    ++ (style.foreground.map (Colour.parameter 30)).toList

/-- Text in a style. -/
def paint (style : Style) (text : String) : String :=
  if style = {} then text
  else "\x1b[" ++ String.intercalate ";" style.parameters ++ "m" ++ text ++ "\x1b[0m"

end Style

end StoryMachine.Terminal
