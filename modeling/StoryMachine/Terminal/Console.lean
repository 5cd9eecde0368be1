import StoryMachine.Host
import StoryMachine.Terminal.Key
import StoryMachine.Terminal.Style

/-!
# Consoles

What a session at a terminal needs from the system: an editor for lines, keys one
at a time, a screen to write on, files by name, and a flag that says that somebody
wants to stop.  A console works in a monad `m` of its own.

Text is written in *pieces*, each with its style, and turned into control
sequences only when it reaches the screen (`Piece.render`).

Waiting is the console's own affair: `awaitLine` and `awaitKey` come back only
when there is something to say.  A wait that is not timed has no limit.
-/

namespace StoryMachine.Terminal

/-- A failure of the system. -/
inductive SystemFault where
  | notFound
  | notDirectory
  | isDirectory
  | nameTooLong
  | nulInName
  | other (text : String)
  deriving DecidableEq

/-- The system's words for a failure. -/
def SystemFault.message : SystemFault → String
  | notFound => "No such file or directory (os error 2)"
  | notDirectory => "Not a directory (os error 20)"
  | isDirectory => "Is a directory (os error 21)"
  | nameTooLong => "File name too long (os error 36)"
  | nulInName => "file name contained an unexpected NUL byte"
  | other text => text

/-- Text in one style. -/
structure Piece where
  style : Style := {}
  text : String
  deriving DecidableEq

/-- A piece as the screen gets it. -/
def Piece.render (piece : Piece) : String :=
  piece.style.paint piece.text

/-- What the line editor has to say. -/
inductive LineEvent where
  | entered (text : String)
  /-- The player asked to stop. -/
  | interrupted
  /-- There will be no more input. -/
  | closed
  | timedOut
  deriving DecidableEq

/-- What the keyboard has to say. -/
inductive KeyEvent where
  | code (code : Word)
  /-- The player asked to stop. -/
  | interrupted
  | timedOut
  deriving DecidableEq

/-- What a key has to say; nothing if it means nothing to a story. -/
def Key.event? (key : Key) : Option KeyEvent :=
  if key = .ctrl 'c' then some .interrupted else key.code?.map .code

/-- The system around a session. -/
structure Console (m : Type → Type) where
  /-- Starts the line editor. -/
  openEditor : m (Except SystemFault Unit)
  /-- Has the line editor report interrupts instead of being ended by them. -/
  reportInterrupts : m Unit
  /-- Opens the terminal. -/
  openTerminal : m (Except SystemFault Unit)
  /-- Lines and columns of the opened terminal. -/
  size : m (Except SystemFault (Nat × Nat))
  /-- Prepares the opened terminal for reading keys. -/
  prepare : m (Except SystemFault Unit)
  /-- Undoes `prepare`. -/
  restore : m (Except SystemFault Unit)
  /-- Waits for a key that means something (`Key.event?`) or for an interrupt. -/
  awaitKey : (timed : Option Word) → m (Except SystemFault KeyEvent)
  write : List Piece → m (Except SystemFault Unit)
  setPrompt : String → m (Except SystemFault Unit)
  /-- Puts text into the line editor, as if it had been typed. -/
  setBuffer : String → m (Except SystemFault Unit)
  /-- What stands in the line editor. -/
  buffer : m String
  /-- Waits for a line. -/
  awaitLine : (timed : Option Word) → m (Except SystemFault LineEvent)
  addHistory : String → m Unit
  /-- Gives up a line that is being edited. -/
  cancelLine : m (Except SystemFault Unit)
  /-- Asks everybody to stop. -/
  stop : m Unit
  /-- Whether somebody asked to stop. -/
  isStopped : m Bool
  openFile : String → m (Except SystemFault Reader)
  /-- All that is left of a file. -/
  readAll : Reader → m (Except SystemFault (List UInt8))
  /-- The bytes up to the next line feed and with it; none at the end. -/
  readLineBytes : Reader → m (Except SystemFault (List UInt8))
  /-- Whether there is a file or directory of that name. -/
  fileExists : String → m Bool
  /-- Makes an empty file, in place of the one there may be. -/
  createFile : String → m (Except SystemFault Writer)
  writeFile : Writer → List UInt8 → m (Except SystemFault Unit)
  flushFile : Writer → m (Except SystemFault Unit)
  /-- Takes a notice of the machine. -/
  note : Notice → m Unit
  /-- Is told of an instruction about to be executed. -/
  trace : Instruction → m Unit
  /-- Takes a notice of the session itself. -/
  complain : Notice → m Unit
  entropy : m UInt32
  longTime : m String
  shortTime : m String

end StoryMachine.Terminal
