import StoryMachine.HostInfo
import StoryMachine.Instruction
import StoryMachine.Notice

/-!
# The host

Everything that a machine needs from the outside is an action of its host: a
screen to print on, lines and keys from a player, files, notices for a log, a
source of chance and the time.  A host works in a monad `m` of its own, so the
same machine runs against a terminal, a script or a model of either.

Only text output and the two kinds of input have to be given; `Host.plain` fills
in the rest with hosts' usual answer to features they do not have.  Waiting times
are in tenths of a second, and zero waits without limit.
-/

namespace StoryMachine

/-- What a file is opened for. -/
inductive Purpose where
  | saveGame
  | transcript
  | commandLog
  | auxiliary
  deriving DecidableEq

/-- The end of a line read.  A read that ran out of time reports what had been
typed. -/
inductive LineInput where
  | done (text : String) (terminator : Word)
  | timedOut (typed : String)
  deriving DecidableEq

/-- The end of a character read. -/
inductive CharInput where
  | key (code : Word)
  | timedOut
  deriving DecidableEq

/-- The right side of a status line. -/
inductive StatusRight where
  | score (score : Int) (moves : Word)
  | time (hours minutes : Word)
  deriving DecidableEq

/-- The status line of a version 3 story. -/
structure StatusLine where
  location : String
  right : StatusRight
  deriving DecidableEq

/-- A file opened for reading. -/
structure Reader where
  id : Nat
  deriving DecidableEq

/-- A file opened for writing. -/
structure Writer where
  id : Nat
  deriving DecidableEq

/-- The outside of a machine.  Files fail with the text of what went wrong. -/
structure Host (m : Type → Type) where
  info : m HostInfo
  print : String → m Unit
  readLine : (initial : String) → (maxLength : Nat) → (timeout : Word) →
    (terminators : List Word) → m LineInput
  readChar : (timeout : Word) → m CharInput
  setStyle : Word → m Unit
  setColour : (foreground background window : Word) → m Unit
  setTrueColour : (foreground background window : Word) → m Unit
  /-- The font before, or zero if the font cannot be had. -/
  setFont : Word → m Word
  setBuffering : Bool → m Unit
  showStatus : StatusLine → m Unit
  splitWindow : (lines : Word) → m Unit
  setWindow : Word → m Unit
  eraseWindow : Int → m Unit
  eraseLine : Word → m Unit
  setCursor : (line : Int) → (column window : Word) → m Unit
  getCursor : m (Word × Word)
  getMouse : m (Word × Word)
  soundEffect : (number effect volume : Word) → m Unit
  /-- Bit 0: can be printed.  Bit 1: can be typed. -/
  checkUnicode : Char → m Word
  drawPicture : (picture y x : Word) → m Unit
  /-- Height and width of a picture, if there is one. -/
  pictureData : Word → m (Option (Word × Word))
  erasePicture : (picture y x : Word) → m Unit
  setMargins : (left right window : Word) → m Unit
  moveWindow : (window y x : Word) → m Unit
  windowSize : (window y x : Word) → m Unit
  windowStyle : (window flags operation : Word) → m Unit
  windowProperty : (window property : Word) → m Word
  setWindowProperty : (window property value : Word) → m Unit
  scrollWindow : (window : Word) → (pixels : Int) → m Unit
  mouseWindow : Word → m Unit
  openForRead : Purpose → m (Option Reader)
  /-- All that is left of a file. -/
  readAll : Reader → m (Except String (List UInt8))
  /-- The bytes up to the next line feed and with it; none at the end. -/
  readLineBytes : Reader → m (Except String (List UInt8))
  openForWrite : Purpose → m (Option Writer)
  write : Writer → List UInt8 → m (Except String Unit)
  flush : Writer → m (Except String Unit)
  /-- Takes a notice for the log. -/
  note : Notice → m Unit
  /-- Is told of an instruction about to be executed. -/
  trace : Instruction → m Unit
  /-- A number that nobody can foresee. -/
  entropy : m UInt32
  /-- The time as transcripts give it. -/
  longTime : m String
  /-- The time as save files give it. -/
  shortTime : m String

namespace Host

/-- A host that has nothing but text output and the two kinds of input. -/
def plain {m : Type → Type} [Monad m] (print : String → m Unit)
    (readLine : String → Nat → Word → List Word → m LineInput)
    (readChar : Word → m CharInput) : Host m where
  info := pure {}
  print
  readLine
  readChar
  setStyle _ := pure ()
  setColour _ _ _ := pure ()
  setTrueColour _ _ _ := pure ()
  setFont font := pure (if font ≤ 1 then 1 else 0)
  setBuffering _ := pure ()
  showStatus _ := pure ()
  splitWindow _ := pure ()
  setWindow _ := pure ()
  eraseWindow _ := pure ()
  eraseLine _ := pure ()
  setCursor _ _ _ := pure ()
  getCursor := pure (1, 1)
  getMouse := pure (0, 0)
  soundEffect _ _ _ := pure ()
  checkUnicode _ := pure 3
  drawPicture _ _ _ := pure ()
  pictureData _ := pure none
  erasePicture _ _ _ := pure ()
  setMargins _ _ _ := pure ()
  moveWindow _ _ _ := pure ()
  windowSize _ _ _ := pure ()
  windowStyle _ _ _ := pure ()
  windowProperty _ _ := pure 0
  setWindowProperty _ _ _ := pure ()
  scrollWindow _ _ := pure ()
  mouseWindow _ := pure ()
  openForRead _ := pure none
  readAll _ := pure (.ok [])
  readLineBytes _ := pure (.ok [])
  openForWrite _ := pure none
  write _ _ := pure (.ok ())
  flush _ := pure (.ok ())
  note _ := pure ()
  trace _ := pure ()
  entropy := pure 1
  longTime := pure ""
  shortTime := pure ""

end Host

end StoryMachine
