import StoryMachine.Numeral

/-!
# Arguments

The words behind the name of the program: flags, which may share one dash;
settings, whose value stands in the next word or behind an equals sign; and two
files, the story and a saved game.  After a bare double dash every word is a file.

**Order of complaints.**  Words are looked at from left to right, but a value is
only read when the next flag, setting or file comes, or at the end.  So a word
that nobody knows is reported before a bad value just in front of it, and a word
that asks for help before anything behind it.
-/

namespace StoryMachine.Terminal

/-- Why words are not taken as arguments.  To ask for help or for the version is
one of the reasons. -/
inductive ArgumentError where
  | unknownWord
  | missingStory
  /-- A value that is no number in range. -/
  | badNumber
  /-- No value where there has to be one, or an empty one. -/
  | missingValue
  /-- The same flag or setting a second time. -/
  | repeated
  /-- A value for something that takes none. -/
  | needlessValue
  | help
  | version
  deriving DecidableEq

/-- What a player can ask of the program. -/
structure Arguments where
  /-- Whether warnings are shown. -/
  warnings : Bool := false
  /-- Whether warnings are faults. -/
  fatal : Bool := false
  /-- Whether remarks for debugging are shown. -/
  verbose : Bool := false
  /-- The seed of the random numbers. -/
  seed : Option Int := none
  /-- How many undo generations are kept. -/
  undo : Nat := 5
  /-- Where saved games and other files go. -/
  saveDirectory : Option String := none
  story : String
  /-- A saved game to go on with. -/
  save : Option String := none
  deriving DecidableEq

/-- Something that is on or off. -/
inductive Flag where
  | warnings
  | fatal
  | verbose
  deriving DecidableEq

/-- Something that takes a value. -/
inductive Setting where
  | seed
  | undo
  | saveDirectory
  | story
  | save
  deriving DecidableEq

/-- What the name of an option stands for. -/
inductive Switch where
  | flag (flag : Flag)
  | setting (setting : Setting)
  | help
  | version
  deriving DecidableEq

namespace Switch

/-- The options with long names. -/
def ofName? : String → Option Switch
  | "warnings" => some (.flag .warnings)
  | "fatal" => some (.flag .fatal)
  | "verbose" => some (.flag .verbose)
  | "seed" => some (.setting .seed)
  | "undo" => some (.setting .undo)
  | "save-dir" => some (.setting .saveDirectory)
  | "help" => some .help
  | "version" => some .version
  | _ => none

/-- The options with names of one letter; none of them takes a value. -/
def ofLetter? : Char → Option Switch
  | 'w' => some (.flag .warnings)
  | 'W' => some (.flag .fatal)
  | 'v' => some (.flag .verbose)
  | 'h' => some .help
  | 'V' => some .version
  | _ => none

end Switch

/-- What has been seen of the arguments. -/
structure Scan where
  flags : List Flag := []
  seed : Option Int := none
  undo : Option Nat := none
  saveDirectory : Option String := none
  story : Option String := none
  save : Option String := none
  /-- The setting named last, with its value if that has come; it is not read yet. -/
  unread : Option (Setting × Option String) := none
  /-- How many files have been named. -/
  files : Nat := 0
  /-- Whether every further word is a file. -/
  filesOnly : Bool := false

namespace Scan

/-- The seeds there are. -/
def seed? (text : String) : Option Int :=
  (Numeral.int? text).filter fun n => -2147483648 ≤ n ∧ n ≤ 2147483647

/-- The numbers of undo generations there are. -/
def undo? (text : String) : Option Nat :=
  (Numeral.nat? text).filter (· ≤ 0xffffffffffffffff)

/-- A value, unless there is one already. -/
def once (old : Option α) (new : Except ArgumentError α) : Except ArgumentError (Option α) :=
  match old with
  | some _ => .error .repeated
  | none => new.map some

/-- A number that has to be there. -/
def number (n : Option α) : Except ArgumentError α :=
  match n with
  | some n => .ok n
  | none => .error .badNumber

/-- The name of a file. -/
def path (text : String) : Except ArgumentError String :=
  if text.isEmpty then .error .missingValue else .ok text

variable (scan : Scan)

/-- Reads a value. -/
def assign (setting : Setting) (text : String) : Except ArgumentError Scan :=
  match setting with
  | .seed => do return { scan with seed := ← once scan.seed (number (seed? text)) }
  | .undo => do return { scan with undo := ← once scan.undo (number (undo? text)) }
  | .saveDirectory => do
    return { scan with saveDirectory := ← once scan.saveDirectory (path text) }
  | .story => do return { scan with story := ← once scan.story (path text) }
  | .save => do return { scan with save := ← once scan.save (path text) }

/-- Reads the value that is not read yet. -/
def settle : Except ArgumentError Scan :=
  match scan.unread with
  | none => .ok scan
  | some (_, none) => .error .missingValue
  | some (setting, some text) => assign { scan with unread := none } setting text

/-- Sets a flag. -/
def raise (flag : Flag) : Except ArgumentError Scan := do
  let scan ← scan.settle
  if scan.flags.contains flag then .error .repeated
  else return { scan with flags := flag :: scan.flags }

/-- Takes an option that has no value with it. -/
def takeSwitch : Switch → Except ArgumentError Scan
  | .flag flag => scan.raise flag
  | .setting setting => do
    let scan ← scan.settle
    return { scan with unread := some (setting, none) }
  | .help => do
    let _ ← scan.settle
    .error .help
  | .version => do
    let _ ← scan.settle
    .error .version

/-- Takes an option by its long name, with the value behind the equals sign. -/
def takeLong (name : String) (value : Option String) : Except ArgumentError Scan :=
  match Switch.ofName? name, value with
  | none, _ => .error .unknownWord
  | some switch, none => scan.takeSwitch switch
  | some (.setting setting), some text => do (← scan.settle).assign setting text
  | some _, some _ => .error .needlessValue

/-- Takes an option by its letter. -/
def takeLetter (letter : Char) : Except ArgumentError Scan :=
  match Switch.ofLetter? letter with
  | none => .error .unknownWord
  | some switch => scan.takeSwitch switch

/-- Takes a word as a file: the first is the story, the second the saved game. -/
def takeFile (word : String) : Except ArgumentError Scan :=
  let setting? : Option Setting := match scan.files with
    | 0 => some .story
    | 1 => some .save
    | _ => none
  match setting? with
  | none => .error .unknownWord
  | some setting => do
    let scan ← scan.settle
    return { scan with unread := some (setting, some word), files := scan.files + 1 }

/-- Takes a word that is no option: the value that a setting waits for, or a file. -/
def takePlain (word : String) : Except ArgumentError Scan :=
  match scan.unread with
  | some (setting, none) => .ok { scan with unread := some (setting, some word) }
  | _ => scan.takeFile word

/-- The text before the first equals sign and, if there is one, the text behind it. -/
def splitValue (chars : List Char) : String × Option String :=
  let name := chars.takeWhile (· ≠ '=')
  (String.ofList name, match chars.drop name.length with
    | [] => none
    | _ :: value => some (String.ofList value))

/-- Takes the next word. -/
def take (word : String) : Except ArgumentError Scan :=
  if scan.filesOnly then scan.takeFile word
  else match word.toList with
    | ['-', '-'] => .ok { scan with filesOnly := true }
    | '-' :: '-' :: chars =>
      let (name, value) := splitValue chars
      scan.takeLong name value
    | '-' :: letter :: letters => (letter :: letters).foldlM takeLetter scan
    | _ => scan.takePlain word

/-- The arguments, when all words have been taken. -/
def finish : Except ArgumentError Arguments := do
  let scan ← scan.settle
  match scan.story with
  | none => .error .missingStory
  | some story => return {
      warnings := scan.flags.contains .warnings
      fatal := scan.flags.contains .fatal
      verbose := scan.flags.contains .verbose
      seed := scan.seed
      undo := scan.undo.getD 5
      saveDirectory := scan.saveDirectory
      story
      save := scan.save }

end Scan

/-- The arguments in the words behind the name of the program. -/
def Arguments.parse (words : List String) : Except ArgumentError Arguments := do
  (← words.foldlM Scan.take {}).finish

end StoryMachine.Terminal
