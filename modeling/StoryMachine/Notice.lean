/-!
# Notices

What the machine has to say beside the story's own text: faults, warnings about
careless stories, and remarks for someone who debugs one.  Notices go to the host
in the order in which they arise; whether anyone sees them is the host's affair.
-/

namespace StoryMachine

/-- How urgent a notice is. -/
inductive Level where
  | error
  | warn
  | debug
  deriving DecidableEq

/-- A line for the log. -/
structure Notice where
  level : Level
  text : String
  deriving DecidableEq

/-- A notice that something is amiss. -/
def Notice.warning (text : String) : Notice := ⟨.warn, text⟩

/-- A remark for debugging. -/
def Notice.remark (text : String) : Notice := ⟨.debug, text⟩

end StoryMachine
