import StoryMachine.Machine.Reading
import StoryMachine.Proofs.CheckedPrinting
import StoryMachine.Proofs.CheckedTables

/-!
# Reading with checked addresses

A line that is read goes into a text buffer, and what it is cut into goes into a parse buffer.
The operands that name the two buffers have 16 bits, also when the read has waited for a
routine meanwhile (`PendingRead.Steady`), so no address in them is out of range.
-/

namespace StoryMachine.CheckedPlay

open Checked

variable {W : Type} {b cost : Nat}

/-- Puts the place of the mouse into the header extension. -/
def recordMouse : CheckedPlay W Unit := do
  let (x, y) ← ask (·.getMouse)
  edit do
    CheckedHeader.setExtensionWord .mouseX x
    CheckedHeader.setExtensionWord .mouseY y

/-- Cuts the text of a buffer into lexemes and fills a parse buffer with them. -/
def tokenise (text parse dictionary : Nat) (skipUnknown : Bool) : CheckedPlay W Unit := do
  let codes ← look (CheckedBuffer.readText · text)
  let machine ← get
  let found ← CheckedHosted.compute <|
    CheckedDictionary.tokenise machine.dictionaries machine.memory.bytes machine.codec dictionary
      machine.memory.dynamicCeiling codes
  if let some keys := found.indexedKeys then
    note (.remark s!"indexed dictionary at {Numeral.marked 4 dictionary}: {keys} entries")
  change fun machine => { machine with dictionaries := found.dictionaries }
  edit (CheckedBuffer.writeLexemes parse found.lexemes
    (TextBuffer.textOffset machine.memory.version) skipUnknown)

/-- Stores a line that was read. -/
def finishLine (pending : LineRead) (text : String) (terminator : Word) : CheckedPlay W Unit := do
  let room ← look fun memory => inRange (TextBuffer.capacity memory pending.text)
  let machine ← get
  let codes ← CheckedHosted.compute (CheckedCodes.inputCodes machine.codec.unicode text room)
  onStreams (CheckedHosted.whole (Streams.recordInput text))
  edit (CheckedBuffer.writeText pending.text codes)
  if pending.parse ≠ 0 then
    let dictionary ← look fun memory => pure (memory.headerWord .dictionary)
    tokenise pending.text pending.parse dictionary.toNat false
  if Play.isMouseClick terminator then recordMouse
  storeTo pending.store terminator

/-- What is in the input line before the player types. -/
def initialText (pending : LineRead) : CheckedPlay W String := do
  if 5 ≤ (← look fun memory => pure memory.version) ∧ pending.typed.isEmpty then
    let machine ← get
    let codes ← look (CheckedBuffer.readText · pending.text)
    CheckedHosted.compute (CheckedCodes.decode machine.codec.unicode codes)
  else return pending.typed

/-- Reads a line, from a record of commands or else from the player. -/
def lineRead (pending : LineRead) : CheckedPlay W Unit := do
  showStatus
  let room ← look fun memory => inRange (TextBuffer.capacity memory pending.text)
  let initial ← initialText pending
  let terminators ← edit CheckedBuffer.terminators
  let input ← match ← onStreams (CheckedHosted.whole Streams.replayLine) with
    | some line => do
      ask (·.print line)
      ask (·.print "\n")
      pure (.done line 13)
    | none =>
      ask (·.readLine initial room (Play.timeLimit pending.routine pending.time) terminators)
  match input with
  | .done text terminator => finishLine pending text terminator
  | .timedOut typed =>
    if pending.routine = 0 then finishLine pending typed 0
    else
      note (.remark s!"line read timed out with {Quoted.quote typed}")
      interrupt pending.routine (.line { pending with typed })

/-- Reads a key. -/
def charRead (pending : CharRead) : CheckedPlay W Unit := do
  match ← ask (·.readChar (Play.timeLimit pending.routine pending.time)) with
  | .key code =>
    if Play.isMouseClick code then recordMouse
    storeTo pending.store code
  | .timedOut =>
    if pending.routine = 0 then storeTo pending.store 0
    else interrupt pending.routine (.char pending)

/-- Goes on with a read after its routine has returned a value. -/
def resumeRead (value : Word) : PendingRead → CheckedPlay W Unit
  | .line pending => do
    if value = 0 then lineRead pending
    else
      note (.remark "line read abandoned by interrupt routine")
      edit (CheckedBuffer.writeText pending.text [])
      storeTo pending.store 0
  | .char pending =>
    if value = 0 then charRead pending else storeTo pending.store 0

/-- The place of the mouse is written with addresses in their range. -/
theorem accompanies_recordMouse :
    Accompanies (Machine.upkeep b cost) (recordMouse : CheckedPlay W Unit) Play.recordMouse :=
  (accompanies_ask _).bind fun (x, y) _ =>
    accompanies_edit ((CheckedHeader.follows_setExtensionWord .mouseX x).bind fun _ _ =>
      CheckedHeader.follows_setExtensionWord .mouseY y)

/-- A buffer holds no more text than it has room for. -/
theorem length_le_of_readText {memory : Memory} {text : Nat} {codes : List Word}
    (h : TextBuffer.readText memory text = .ok codes) : codes.length ≤ 255 := by
  obtain ⟨bytes, rfl, hlength, -⟩ := TextBuffer.holds_of_readText h
  rw [List.length_map]
  exact Nat.le_trans hlength (TextBuffer.roomAt_le memory text)

/-- Text is cut into words between buffers with addresses in their range. -/
theorem accompanies_tokenise {text parse dictionary : Nat} (htext : text < 0x10000)
    (hparse : parse < 0x10000) (hdictionary : dictionary < 0x10000) (skipUnknown : Bool) :
    Accompanies (Machine.upkeep b cost)
      (tokenise text parse dictionary skipUnknown : CheckedPlay W Unit)
      (Play.tokenise text parse dictionary skipUnknown) := by
  refine .bind (accompanies_look (fun memory _ => CheckedBuffer.readText_eq (by omega))
    fun memory codes _ hread => length_le_of_readText hread) fun codes hcodes => ?_
  refine Accompanies.get.bind fun machine hroomy => ?_
  refine .bind (.compute (P := fun _ => True) (CheckedDictionary.tokenise_eq _
    (size_lt hroomy.memory) _ (by omega) _ (by omega)) fun _ _ => trivial) fun found _ => ?_
  have hrest : Accompanies (Machine.upkeep b cost)
      (do
        change fun machine => { machine with dictionaries := found.dictionaries }
        edit (CheckedBuffer.writeLexemes parse found.lexemes
          (TextBuffer.textOffset machine.memory.version) skipUnknown) : CheckedPlay W Unit)
      (do
        modify fun machine => { machine with dictionaries := found.dictionaries }
        Play.edit (TextBuffer.writeLexemes parse found.lexemes
          (TextBuffer.textOffset machine.memory.version) skipUnknown)) := by
    refine .bind (accompanies_change fun machine hroomy => ?_) fun _ _ => ?_
    · exact { hroomy with }
    · exact accompanies_edit (CheckedBuffer.follows_writeLexemes (by omega) _
        (CheckedBuffer.textOffset_le _) skipUnknown)
  dsimp only
  cases found.indexedKeys with
  | none => exact hrest
  | some keys => exact (accompanies_note _).bind fun _ _ => hrest

/-- A typed line is put into the buffers with addresses in their range. -/
theorem accompanies_finishLine {pending : LineRead} (hsteady : (PendingRead.line pending).Steady)
    (text : String) (terminator : Word) :
    Accompanies (Machine.upkeep b 2) (finishLine pending text terminator : CheckedPlay W Unit)
      (Play.finishLine pending text terminator) := by
  obtain ⟨htext, hparse⟩ := hsteady
  have hend : Accompanies (Machine.upkeep b 2)
      (do
        if Play.isMouseClick terminator then recordMouse
        storeTo pending.store terminator : CheckedPlay W Unit)
      (do
        if Play.isMouseClick terminator then Play.recordMouse
        Play.storeTo pending.store terminator) :=
    .ite (fun _ => accompanies_recordMouse.bind fun _ _ => accompanies_storeTo _ _) fun _ =>
      accompanies_storeTo _ _
  refine .bind (accompanies_look (fun memory _ => rfl) fun memory room _ hroom =>
    CheckedBuffer.capacity_le hroom) fun room hroom => ?_
  refine Accompanies.get.bind fun machine hroomy => ?_
  refine .computed (CheckedCodes.inputCodes_eq hroomy.extras text room) ?_
  refine (accompanies_onStreams (.maintained (CheckedStreams.maintains_recordInput text))).bind
    fun _ _ => ?_
  have hcodes : (TextBuffer.inputCodes machine.codec.unicode text room).length ≤ 255 :=
    Nat.le_trans (List.length_take_le _ _) hroom
  refine (accompanies_edit (CheckedBuffer.follows_writeText (by omega) hcodes)).bind fun _ _ => ?_
  refine .ite (fun _ => ?_) fun _ => hend
  refine (accompanies_view fun _ _ => rfl).bind fun dictionary _ => ?_
  exact (accompanies_tokenise htext hparse dictionary.toNat_lt false).bind fun _ _ => hend

/-- The text in a buffer is read with its addresses in their range. -/
theorem accompanies_initialText {pending : LineRead} (hsteady : (PendingRead.line pending).Steady) :
    Accompanies (Machine.upkeep b cost) (initialText pending : CheckedPlay W String)
      (Play.initialText pending) := by
  refine (accompanies_view fun _ _ => rfl).bind fun version _ => ?_
  refine .ite (fun _ => ?_) fun _ => .pure trivial
  refine Accompanies.get.bind fun machine _ => ?_
  refine (accompanies_read fun memory _ =>
    CheckedBuffer.readText_eq (by have := hsteady.1; omega)).bind
    fun codes _ => ?_
  have hdecode : CheckedCodes.decode machine.codec.unicode codes = inRange (.ok _) :=
    CheckedCodes.decode_eq machine.codec.unicode codes
  exact .compute hdecode fun _ _ => trivial

/-- A line is read with the addresses of its buffers in their range. -/
theorem accompanies_lineRead {pending : LineRead} (hsteady : (PendingRead.line pending).Steady) :
    Accompanies (Machine.upkeep b 2) (lineRead pending : CheckedPlay W Unit)
      (Play.lineRead pending) := by
  refine accompanies_showStatus.bind fun _ _ => ?_
  refine (accompanies_read fun memory _ => rfl).bind fun room _ => ?_
  refine (accompanies_initialText hsteady).bind fun initial _ => ?_
  refine (accompanies_edit CheckedBuffer.follows_terminators).bind fun terminators _ => ?_
  have hinput (input : LineInput) : Accompanies (Machine.upkeep b 2)
      (match input with
        | .done text terminator => finishLine pending text terminator
        | .timedOut typed =>
          if pending.routine = 0 then finishLine pending typed 0
          else do
            note (.remark s!"line read timed out with {Quoted.quote typed}")
            interrupt pending.routine (.line { pending with typed }) : CheckedPlay W Unit)
      (match input with
        | .done text terminator => Play.finishLine pending text terminator
        | .timedOut typed =>
          if pending.routine = 0 then Play.finishLine pending typed 0
          else do
            Play.note (.remark s!"line read timed out with {Quoted.quote typed}")
            Play.interrupt pending.routine (.line { pending with typed })) := by
    cases input with
    | done text terminator => exact accompanies_finishLine hsteady text terminator
    | timedOut typed =>
        refine .ite (fun _ => accompanies_finishLine hsteady typed 0) fun _ => ?_
        exact (accompanies_note _).bind fun _ _ => accompanies_interrupt _ hsteady
  refine (accompanies_onStreams (.maintained CheckedStreams.maintains_replayLine)).bind
    fun line _ => ?_
  cases line with
  | some line =>
      refine (accompanies_ask _).bind fun _ _ => (accompanies_ask _).bind fun _ _ => ?_
      exact hinput (.done line 13)
  | none => exact (accompanies_ask _).bind fun input _ => hinput input

/-- A key is read, or its routine entered with the frames counted. -/
theorem accompanies_charRead (pending : CharRead) :
    Accompanies (Machine.upkeep b cost) (charRead pending : CheckedPlay W Unit)
      (Play.charRead pending) := by
  refine (accompanies_ask _).bind fun input _ => ?_
  cases input with
  | key code =>
      exact .ite (fun _ => accompanies_recordMouse.bind fun _ _ => accompanies_storeTo _ _)
        fun _ => accompanies_storeTo _ _
  | timedOut =>
      exact .ite (fun _ => accompanies_storeTo _ _) fun _ => accompanies_interrupt _ trivial

/-- A read goes on with the addresses of its buffers in their range. -/
theorem accompanies_resumeRead (value : Word) {pending : PendingRead} (hsteady : pending.Steady) :
    Accompanies (Machine.upkeep b 2) (resumeRead value pending : CheckedPlay W Unit)
      (Play.resumeRead value pending) := by
  cases pending with
  | line pending =>
      refine .ite (fun _ => accompanies_lineRead hsteady) fun _ => ?_
      have htext : pending.text < 0x10000 := hsteady.1
      refine (accompanies_note _).bind fun _ _ => ?_
      refine (accompanies_edit (CheckedBuffer.follows_writeText (by omega) (by decide))).bind
        fun _ _ => ?_
      exact accompanies_storeTo _ _
  | char pending =>
      exact .ite (fun _ => accompanies_charRead pending) fun _ => accompanies_storeTo _ _

end StoryMachine.CheckedPlay
