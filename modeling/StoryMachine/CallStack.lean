import StoryMachine.Memory

/-!
# The call stack

Routines share one stack of words.  A `Frame` is one activation of a routine; it
counts the words that it owns, can never take a word of an older frame, and
leaves nothing behind when it returns.  There is always at least one frame, the
one under the main routine.

A routine that is run because a read timed out carries that read in its frame;
the read goes on when the routine returns.

The operations are `StackWork`: they may stop with a fault and say what the stack
is then.  A push onto a full stack is the only one that leaves a trace: the word
is there, but no frame owns it.
-/

namespace StoryMachine

/-- A line read that waits for a routine to return. -/
structure LineRead where
  /-- The address of the text buffer. -/
  text : Nat
  /-- The address of the parse buffer, or zero. -/
  parse : Nat
  time : Word
  routine : Word
  store : Option UInt8
  /-- What had been typed when the time was over. -/
  typed : String
  deriving DecidableEq

/-- A character read that waits for a routine to return. -/
structure CharRead where
  time : Word
  routine : Word
  store : Option UInt8
  deriving DecidableEq

/-- A read that waits for a routine to return. -/
inductive PendingRead where
  | line (read : LineRead)
  | char (read : CharRead)
  deriving DecidableEq

/-- One activation of a routine. -/
structure Frame where
  returnPc : Nat := 0
  /-- The variable that receives the result; none if it is dropped. -/
  store : Option UInt8 := none
  locals : List Word := []
  /-- How many arguments the caller gave. -/
  arguments : Nat := 0
  /-- How many words of the stack belong to this frame. -/
  size : Nat := 0
  /-- The read to go on with when this frame returns. -/
  pending : Option PendingRead := none
  deriving DecidableEq

/-- A stack of words with its size. -/
structure WordStack where
  /-- The words, the top one first. -/
  words : List Word := []
  size : Nat := 0
  size_eq : size = words.length := by rfl
  deriving DecidableEq

namespace WordStack

/-- The stack without words. -/
def empty : WordStack where

/-- How many words fit. -/
def limit : Nat := 65535

/-- The stack with one more word. -/
def push (stack : WordStack) (word : Word) : WordStack where
  words := word :: stack.words
  size := stack.size + 1
  size_eq := by simp [stack.size_eq]

/-- The stack without its top `n` words. -/
def drop (stack : WordStack) (n : Nat) : WordStack where
  words := stack.words.drop n
  size := stack.size - n
  size_eq := by simp [stack.size_eq]

/-- The stack with the given words, the top one first. -/
def ofList (words : List Word) : WordStack where
  words
  size := words.length

/-- Whether there are more words than fit. -/
def isOverfull (stack : WordStack) : Bool :=
  limit < stack.size

/-- The fault of pushing a word too many. -/
def overflow (detail : String) : Fault :=
  { kind := .stackOverflow, detail }

/-- The fault of taking a word that is not there. -/
def underflow : Fault :=
  { kind := .stackUnderflow }

/-- Pushes a word.  It is there even if it was one too many. -/
def tryPush (detail : String) (word : Word) : ExceptT Fault (StateM WordStack) Unit := do
  modify (·.push word)
  if (← get).isOverfull then throw (overflow detail)

/-- Takes the top word. -/
def tryPop : ExceptT Fault (StateM WordStack) Word := do
  let stack ← get
  match stack.words with
  | [] => throw underflow
  | word :: _ =>
    set (stack.drop 1)
    return word

/-- Takes the top `n` words, or none of them; gives them with the top one last. -/
def tryPopMany (n : Nat) : ExceptT Fault (StateM WordStack) (List Word) := do
  let stack ← get
  if stack.size < n then throw underflow
  else
    set (stack.drop n)
    return (stack.words.take n).reverse

end WordStack

/-- The frames and the words they share. -/
structure CallStack where
  values : WordStack := .empty
  /-- The frame of the running routine. -/
  current : Frame := {}
  /-- The frames below it, the newest first. -/
  callers : List Frame := []
  deriving DecidableEq

/-- Work on the call stack. -/
abbrev StackWork := ExceptT Fault (StateM CallStack)

namespace CallStack

/-- How many frames there may be. -/
def maxFrames : Nat := 1024

/-- The detail of the fault when the words no longer fit. -/
def fullDetail : String := "EVALUATION STACK FULL"

variable (stack : CallStack)

/-- How many frames there are. -/
def depth : Nat := stack.callers.length + 1

/-- All frames, the oldest first. -/
def frames : List Frame := (stack.current :: stack.callers).reverse

/-- All words, the oldest first. -/
def words : List Word := stack.values.words.reverse

/-- The stack of the given frames and words, the oldest first in both.  The frames
have to own exactly the words. -/
def ofParts (frames : List Frame) (words : List Word) : Except Fault CallStack :=
  let owned := frames.foldr (fun frame n => frame.size + n) 0
  match frames.reverse with
  | current :: callers =>
    if owned ≠ words.length then
      .error { kind := .corruptSnapshot,
               detail := s!"FRAMES HOLD {owned} OF {words.length} WORDS" }
    else if WordStack.limit < words.length then .error (WordStack.overflow fullDetail)
    else .ok { values := .ofList words.reverse, current, callers }
  | [] =>
    .error { kind := .corruptSnapshot,
             detail := s!"FRAMES HOLD {owned} OF {words.length} WORDS" }

/-- Work on the words alone. -/
def onWords (work : ExceptT Fault (StateM WordStack) α) : StackWork α :=
  ExceptT.mk fun stack =>
    let (outcome, values) := StateT.run (ExceptT.run work) stack.values
    (outcome, { stack with values })

/-- Pushes a word for the current frame. -/
def push (word : Word) : StackWork Unit := do
  onWords (WordStack.tryPush fullDetail word)
  modify fun stack => { stack with current.size := stack.current.size + 1 }

/-- Takes the top word of the current frame. -/
def pop : StackWork Word := do
  if (← get).current.size = 0 then throw WordStack.underflow
  else
    let word ← onWords WordStack.tryPop
    modify fun stack => { stack with current.size := stack.current.size - 1 }
    return word

/-- Drops words of the current frame. -/
def popMany (count : Nat) : StackWork Unit := do
  if (← get).current.size < count then throw WordStack.underflow
  else
    let _ ← onWords (WordStack.tryPopMany count)
    modify fun stack => { stack with current.size := stack.current.size - count }

/-- The top word of the current frame. -/
def peek : Except Fault Word :=
  match stack.values.words with
  | word :: _ => if 0 < stack.current.size then .ok word else .error WordStack.underflow
  | [] => .error WordStack.underflow

/-- Replaces the top word of the current frame. -/
def poke (word : Word) : StackWork Unit := do
  let stack ← get
  match stack.values.words with
  | _ :: _ =>
    if stack.current.size = 0 then throw WordStack.underflow
    else set { stack with values := (stack.values.drop 1).push word }
  | [] => throw WordStack.underflow

/-- The fault of a local that the frame does not have. -/
def badLocal (number : UInt8) : Fault :=
  { kind := .badVariable, detail := s!"LOCAL {number}" }

/-- The value of a local, counted from one. -/
def localValue (number : UInt8) : Except Fault Word :=
  if number = 0 then .error (badLocal number)
  else match stack.current.locals[number.toNat - 1]? with
    | some value => .ok value
    | none => .error (badLocal number)

/-- Sets a local, counted from one. -/
def setLocal (number : UInt8) (value : Word) : StackWork Unit := do
  let stack ← get
  if number = 0 ∨ stack.current.locals.length < number.toNat then throw (badLocal number)
  else
    set { stack with current.locals := stack.current.locals.set (number.toNat - 1) value }

/-- The initial values of `count` locals: in versions 3 and 4 the words from an
address on, later zeros. -/
def initialLocals (memory : Memory) (address count : Nat) : Except Fault (List Word) :=
  if memory.version ≤ 4 then
    (List.range count).mapM fun i => memory.readWord (address + 2 * i)
  else .ok (List.replicate count 0)

/-- Values with the first few replaced by arguments; further arguments are lost. -/
def withArguments : (locals arguments : List Word) → List Word
  | _ :: locals, argument :: arguments => argument :: withArguments locals arguments
  | locals, _ => locals

/-- Enters the routine at an address.  Gives the address of its first
instruction. -/
def call (memory : Memory) (address : Nat) (arguments : List Word) (returnPc : Nat)
    (store : Option UInt8) (pending : Option PendingRead) : StackWork Nat := do
  let stack ← get
  if maxFrames ≤ stack.depth then
    throw (WordStack.overflow s!"{maxFrames} NESTED CALLS")
  let count := (← MonadExcept.ofExcept (memory.readByte address)).toNat
  if 15 < count then
    throw { kind := .corruptImage,
            detail := "ROUTINE " ++ Numeral.marked 4 address ++ s!" HAS {count} LOCALS" }
  let locals ← MonadExcept.ofExcept (initialLocals memory (address + 1) count)
  set { stack with
    current := { returnPc, store, locals := withArguments locals arguments,
                 arguments := min arguments.length 7, size := 0, pending }
    callers := stack.current :: stack.callers }
  return if memory.version ≤ 4 then address + 1 + 2 * count else address + 1

/-- Leaves the current routine, dropping its words.  Gives its frame. -/
def ret : StackWork Frame := do
  let stack ← get
  match stack.callers with
  | [] => throw { kind := .stackUnderflow, detail := "RETURN FROM MAIN ROUTINE" }
  | caller :: older =>
    set { stack with current := caller, callers := older }
    let _ ← onWords (WordStack.tryPopMany stack.current.size)
    return stack.current

/-- Leaves `n` routines one after another. -/
def leave : (n : Nat) → StackWork Unit
  | 0 => pure ()
  | n + 1 => do
    let _ ← ret
    leave n

/-- Leaves routines until `depth` frames remain. -/
def unwind (depth : Nat) : StackWork Unit := do
  let stack ← get
  if depth = 0 ∨ stack.depth < depth then
    throw { kind := .badOperands, detail := s!"THROW TO FRAME {depth} OF {stack.depth}" }
  else leave (stack.depth - depth)

/-- Does work on a stack: its outcome, and the stack afterwards. -/
def run (work : StackWork α) : Except Fault α × CallStack :=
  StateT.run (ExceptT.run work) stack

end CallStack

end StoryMachine
