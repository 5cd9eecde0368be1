/-!
# Lines of bytes

A line ends with its line feed, and belongs together with it.
-/

namespace StoryMachine

/-- The bytes up to the first line feed and with it, and those after it. -/
def splitLine (bytes : List UInt8) : List UInt8 × List UInt8 :=
  let line := bytes.takeWhile (· ≠ 10)
  let rest := bytes.drop line.length
  (line ++ rest.take 1, rest.drop 1)

/-- Nothing is lost when a line is split off. -/
theorem splitLine_append (bytes : List UInt8) :
    (splitLine bytes).1 ++ (splitLine bytes).2 = bytes := by
  have h : bytes.takeWhile (· ≠ 10) ++ bytes.drop (bytes.takeWhile (· ≠ 10)).length = bytes := by
    induction bytes with
    | nil => rfl
    | cons b rest ih => by_cases hb : b = 10 <;> simp_all
  simp only [splitLine, List.append_assoc, List.take_append_drop]
  exact h

end StoryMachine
