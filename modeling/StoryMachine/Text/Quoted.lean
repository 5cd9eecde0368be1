import StoryMachine.Numeral
import StoryMachine.Text.Hidden

/-!
# Quoted text

Text in a log line stands between quotation marks, with everything escaped that
would not show as itself: the quotation mark and the backslash, line ends and
tabs by letter, and characters that do not show by number.
-/

namespace StoryMachine.Quoted

/-- A character as it stands between quotation marks. -/
def escape (c : Char) : String :=
  if c = '\t' then "\\t"
  else if c = '\r' then "\\r"
  else if c = '\n' then "\\n"
  else if c = '"' then "\\\""
  else if c = '\\' then "\\\\"
  else if c.toNat = 0 then "\\0"
  else if isHidden c then "\\u\x7b" ++ Numeral.hex 1 c.toNat ++ "\x7d"
  else c.toString

/-- Text between quotation marks. -/
def quote (text : String) : String :=
  "\"" ++ String.join (text.toList.map escape) ++ "\""

end StoryMachine.Quoted
