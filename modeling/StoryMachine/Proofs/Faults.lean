import StoryMachine.Proofs.HeaderSetUp
import StoryMachine.Proofs.InstructionMoves
import StoryMachine.Proofs.RejectedSnapshot

/-!
# Which faults there can be

A fault that halts the machine is not the same as one that only makes an operation
fail, and neither is the same as arithmetic that leaves its range.  Which of the three
a piece of work can stop with is decided at its leaves: reading and writing memory, the
stack, the tables, text.  This file goes through all of them, and through everything
that is put together from them up to the streams.

`Reported` says of an outcome that its fault, if there is one, halts the machine and is
told to the player.  `Work.Reports` and `StreamWork.Reports` say it of work on a state
and of work with a host.  One part does not have it: selecting the output stream with
the lowest number there is (`Streams.reports_select`).
-/

namespace StoryMachine

variable {W σ α β : Type}

/-- The faults that halt the machine and are told to the player. -/
def FaultKind.isReported (kind : FaultKind) : Bool :=
  kind.isFatal && kind != .arithmeticOverflow

/-- An outcome whose fault, if there is one, is reported. -/
abbrev Reported (outcome : Except Fault α) : Prop :=
  FailsAs (fun kind => kind.isReported = true) outcome

/-- A choice fails as both its sides do. -/
theorem FailsAs.ite {P : FaultKind → Prop} {c : Prop} [Decidable c] {outcome other : Except Fault α}
    (h : FailsAs P outcome) (hother : FailsAs P other) :
    FailsAs P (if c then outcome else other) := by
  split
  · exact h
  · exact hother

/-- What is read entry by entry fails as its entries do. -/
theorem failsAs_mapM {P : FaultKind → Prop} {f : α → Except Fault β} (h : ∀ x, FailsAs P (f x))
    (xs : List α) : FailsAs P (xs.mapM f) := by
  induction xs with
  | nil => exact failsAs_ok []
  | cons x xs ih =>
      rw [List.mapM_cons]
      exact (h x).bind fun _ _ => ih.bind fun _ _ => failsAs_ok _

/-- A fold fails as its steps do. -/
theorem failsAs_foldlM {P : FaultKind → Prop} {f : β → α → Except Fault β}
    (h : ∀ b x, FailsAs P (f b x)) (b : β) (xs : List α) : FailsAs P (xs.foldlM f b) := by
  induction xs generalizing b with
  | nil => exact failsAs_ok b
  | cons x xs ih =>
      rw [List.foldlM_cons]
      exact (h b x).bind fun b _ => ih b

/-! ## Looking -/

namespace Memory

variable (memory : Memory)

/-- Reading a byte fails outside the image only, which is reported. -/
theorem reported_readByte (address : Nat) : Reported (memory.readByte address) :=
  .ite (failsAs_ok _) (failsAs_error rfl)

/-- Reading a word fails unless both its bytes lie in the image. -/
theorem reported_readWord (address : Nat) : Reported (memory.readWord address) :=
  .ite (failsAs_ok _) (failsAs_error rfl)

/-- Bytes that reach beyond the image are out of bounds. -/
theorem reported_slice (address length : Nat) : Reported (memory.slice address length) :=
  .ite (failsAs_ok _) (failsAs_error rfl)

/-- A write that is not allowed halts the machine, whether it is outside the image or in static
memory. -/
theorem isReported_writeFault (address : Nat) :
    (memory.writeFault address).kind.isReported = true := by
  unfold writeFault
  split <;> rfl

/-- Dynamic memory of another size is an internal fault, which is reported too. -/
theorem reported_setDynamic (data : List UInt8) : Reported (memory.setDynamic data) := by
  unfold setDynamic
  split
  · exact failsAs_ok _
  · exact failsAs_error rfl

end Memory

namespace Word

/-- Dividing by zero is reported. -/
theorem reported_divide (lhs rhs : Word) : Reported (lhs.divide rhs) :=
  .ite (failsAs_error rfl) (failsAs_ok _)

/-- So is taking a remainder by zero. -/
theorem reported_modulo (lhs rhs : Word) : Reported (lhs.modulo rhs) :=
  .ite (failsAs_error rfl) (failsAs_ok _)

end Word

namespace ObjectTable

variable (table : ObjectTable) (memory : Memory)

/-- Object zero has no entry, nor has one beyond those of version 3. -/
theorem reported_entry (object : Word) : Reported (table.entry object) :=
  .ite (failsAs_error rfl) (failsAs_ok _)

/-- Following a link fails at the entry or at memory. -/
theorem reported_link (object : Word) (link : Link) : Reported (table.link memory object link) :=
  (table.reported_entry object).bind fun _ _ => .ite
    ((memory.reported_readByte _).bind fun _ _ => failsAs_ok _) (memory.reported_readWord _)

/-- An attribute that is not numbered is a fault of the operands. -/
theorem reported_attributePlace (object number : Word) :
    Reported (table.attributePlace object number) :=
  .ite (failsAs_error rfl) ((table.reported_entry object).bind fun _ _ => failsAs_ok _)

/-- Testing an attribute fails where its place does, or outside the image. -/
theorem reported_testAttribute (object number : Word) :
    Reported (table.testAttribute memory object number) :=
  (table.reported_attributePlace object number).bind fun _ _ =>
    (memory.reported_readByte _).bind fun _ _ => failsAs_ok _

/-- A walk along siblings ends at the object, at a chain without it, or at a bound: the last two
are reported. -/
theorem reported_elder (object parent : Word) (visits : Nat) (current : Word) :
    Reported (table.elder memory object parent visits current) := by
  induction visits generalizing current with
  | zero => exact failsAs_error rfl
  | succ visits ih =>
      exact .ite (failsAs_error rfl) <| (table.reported_link memory current _).bind fun next _ =>
        .ite (failsAs_ok _) (ih next)

/-- A description is read from the entry of an object. -/
theorem reported_description (object : Word) : Reported (table.description memory object) :=
  (table.reported_entry object).bind fun _ _ =>
    (memory.reported_readWord _).bind fun _ _ => failsAs_ok _

/-- The name stands behind its length in the description. -/
theorem reported_name (object : Word) : Reported (table.name memory object) :=
  (table.reported_description memory object).bind fun _ _ => failsAs_ok _

/-- Whether there is a name is told by the length. -/
theorem reported_nameIsEmpty (object : Word) : Reported (table.nameIsEmpty memory object) :=
  (table.reported_description memory object).bind fun _ _ =>
    (memory.reported_readByte _).bind fun _ _ => failsAs_ok _

/-- A property header is read from one or two bytes of memory. -/
theorem reported_property (address : Nat) : Reported (table.property memory address) :=
  (memory.reported_readByte _).bind fun _ _ => .ite (failsAs_ok _) <|
    .ite ((memory.reported_readByte _).bind fun _ _ => failsAs_ok _) (failsAs_ok _)

/-- The first property stands behind the name. -/
theorem reported_firstProperty (object : Word) : Reported (table.firstProperty memory object) :=
  (table.reported_description memory object).bind fun _ _ =>
    (memory.reported_readByte _).bind fun _ _ => failsAs_ok _

/-- A list that runs to the end of memory has no header there to read. -/
theorem reported_findFrom (number : Word) (left address : Nat) :
    Reported (table.findFrom memory number left address) := by
  induction left generalizing address with
  | zero => exact failsAs_error rfl
  | succ left ih =>
      exact (table.reported_property memory address).bind fun _ _ =>
        .ite (failsAs_ok _) (.ite (failsAs_ok _) (ih _))

/-- Looking for a property fails at its list only. -/
theorem reported_find? (object number : Word) : Reported (table.find? memory object number) :=
  .ite (failsAs_ok _) <| (table.reported_firstProperty memory object).bind fun _ _ =>
    table.reported_findFrom memory number _ _

/-- A property that no object can have has no default. -/
theorem reported_defaultValue (number : Word) : Reported (table.defaultValue memory number) :=
  .ite (failsAs_error rfl) (memory.reported_readWord _)

/-- The value of a property is read from its data or from the defaults. -/
theorem reported_getProperty (object number : Word) :
    Reported (table.getProperty memory object number) := by
  refine (table.reported_find? memory object number).bind fun found _ => ?_
  cases found with
  | none => exact (table.reported_defaultValue memory number).bind fun _ _ => failsAs_ok _
  | some found =>
      exact .ite ((memory.reported_readByte _).bind fun _ _ => failsAs_ok _)
        ((memory.reported_readWord _).bind fun _ _ => failsAs_ok _)

/-- The address of a property is found by its list. -/
theorem reported_propertyAddress (object number : Word) :
    Reported (table.propertyAddress memory object number) := by
  refine (table.reported_find? memory object number).bind fun found _ => ?_
  cases found with
  | none => exact failsAs_ok _
  | some found => exact failsAs_ok _

/-- The length of a property is read off the byte before its data. -/
theorem reported_propertyLength (data : Nat) : Reported (table.propertyLength memory data) :=
  .ite (failsAs_ok _) <| (memory.reported_readByte _).bind fun _ _ =>
    .ite (failsAs_ok _) (.ite (failsAs_ok _) (failsAs_ok _))

/-- The property after another one is read where the other ends. -/
theorem reported_nextProperty (object number : Word) :
    Reported (table.nextProperty memory object number) := by
  refine .ite ?_ ((table.reported_find? memory object number).bind fun found _ => ?_)
  · exact (table.reported_firstProperty memory object).bind fun _ _ =>
      (table.reported_property memory _).bind fun _ _ => failsAs_ok _
  · cases found with
    | none => exact failsAs_ok _
    | some found => exact (table.reported_property memory _).bind fun _ _ => failsAs_ok _

end ObjectTable

/-- A branch is decoded from one or two bytes. -/
theorem Branch.reported_decode (memory : Memory) (address : Nat) :
    Reported (Branch.decode memory address) :=
  (memory.reported_readByte _).bind fun _ _ => .ite (failsAs_ok _)
    ((memory.reported_readByte _).bind fun _ _ => failsAs_ok _)

/-- An operand is decoded from as many bytes as its kind has. -/
theorem Operand.reported_decode (memory : Memory) (address : Nat) (kind : OperandKind) :
    Reported (Operand.decode memory address kind) := by
  cases kind with
  | large => exact (memory.reported_readWord _).bind fun _ _ => failsAs_ok _
  | small => exact (memory.reported_readByte _).bind fun _ _ => failsAs_ok _
  | var => exact (memory.reported_readByte _).bind fun _ _ => failsAs_ok _

/-- So are all operands of an instruction, one after another. -/
theorem Operand.reported_decodeAll (memory : Memory) (address : Nat) (kinds : List OperandKind) :
    Reported (Operand.decodeAll memory address kinds) := by
  induction kinds generalizing address with
  | nil => exact failsAs_ok _
  | cons kind kinds ih =>
      exact (Operand.reported_decode memory address kind).bind fun _ _ =>
        (ih _).bind fun _ _ => failsAs_ok _

namespace Instruction

variable (memory : Memory)

/-- The kinds of operands are read from their type bytes. -/
theorem reported_readKinds (address count : Nat) : Reported (readKinds memory address count) :=
  (failsAs_mapM (fun _ => memory.reported_readByte _) _).bind fun _ _ => failsAs_ok _

/-- The opening of an instruction is read byte by byte. -/
theorem reported_readHead (pc : Nat) : Reported (readHead memory pc) := by
  refine (memory.reported_readByte pc).bind fun byte _ =>
    .ite (failsAs_ok _) (.ite ?_ (.ite ?_ (.ite ?_ ?_)))
  · exact (memory.reported_readByte _).bind fun _ _ =>
      (reported_readKinds memory _ _).bind fun _ _ => failsAs_ok _
  · cases OperandKind.ofBits? (byte >>> 4) with
    | none => exact failsAs_ok _
    | some kind => exact failsAs_ok _
  · exact (reported_readKinds memory _ _).bind fun _ _ => failsAs_ok _
  · exact (reported_readKinds memory _ _).bind fun _ _ => failsAs_ok _

/-- A text without an end runs out of memory. -/
theorem reported_textEnd (left address : Nat) : Reported (textEnd memory left address) := by
  induction left generalizing address with
  | zero => exact failsAs_error rfl
  | succ left ih =>
      exact (memory.reported_readWord address).bind fun _ _ => .ite (ih _) (failsAs_ok _)

/-- **Decoding fails with a reported fault only**, whatever stands at an address. -/
theorem reported_decode (pc : Nat) : Reported (Instruction.decode memory pc) := by
  refine (reported_readHead memory pc).bind fun head _ => ?_
  dsimp only
  cases Opcode.decode? head.count head.number memory.version with
  | none => exact failsAs_error rfl
  | some opcode =>
      refine (Operand.reported_decodeAll memory _ _).bind fun operands _ => .bind ?_ fun store _ =>
        .bind ?_ fun branch _ => .bind ?_ fun text _ => failsAs_ok _
      · exact .ite ((memory.reported_readByte _).bind fun _ _ => failsAs_ok _) (failsAs_ok _)
      · exact .ite ((Branch.reported_decode memory _).bind fun _ _ => failsAs_ok _) (failsAs_ok _)
      · exact .ite (((reported_textEnd memory _ _).bind fun _ _ => failsAs_ok _).bind
          fun _ _ => failsAs_ok _) (failsAs_ok _)

end Instruction

namespace Codec

variable (codec : Codec)

/-- A word of text has to lie in the image. -/
theorem reported_textWord (bytes : Array UInt8) (address : Nat) :
    Reported (textWord bytes address) := by
  unfold textWord
  split
  · exact failsAs_ok _
  · exact failsAs_error rfl

/-- A five bit character is turned down if it names an abbreviation where there may be none, and
otherwise fails as the expansion does. -/
theorem reported_accept {expand : Option (Nat → Except Fault (Array Word))}
    (h : ∀ f, expand = some f → ∀ index, Reported (f index)) (address : Nat) (reading : Reading)
    (zchar : UInt8) : Reported (codec.accept expand address reading zchar) := by
  unfold accept
  cases reading.expecting with
  | character =>
      refine .ite (failsAs_ok _) (.ite ?_ (.ite (failsAs_ok _) (.ite (failsAs_ok _)
        (.ite (failsAs_ok _) (failsAs_ok _)))))
      cases expand with
      | none => exact failsAs_error rfl
      | some f => exact failsAs_ok _
  | abbreviation bank =>
      cases expand with
      | none => exact failsAs_error rfl
      | some f => exact (h f rfl _).bind fun _ _ => failsAs_ok _
  | escapeHigh => exact failsAs_ok _
  | escapeLow high => exact failsAs_ok _

/-- Words of text are read until the last one, or to the end of the image. -/
theorem reported_readWords {expand : Option (Nat → Except Fault (Array Word))}
    (h : ∀ f, expand = some f → ∀ index, Reported (f index)) (bytes : Array UInt8)
    (left address : Nat) (reading : Reading) :
    Reported (codec.readWords expand bytes left address reading) := by
  induction left generalizing address reading with
  | zero => exact (reported_textWord bytes address).bind fun _ _ => failsAs_error rfl
  | succ left ih =>
      exact (reported_textWord bytes address).bind fun _ _ =>
        (failsAs_foldlM (codec.reported_accept h address) _ _).bind fun _ _ =>
          .ite (ih _ _) (failsAs_ok _)

/-- An abbreviation that names another is reported. -/
theorem reported_expandAbbreviation (bytes : Array UInt8) (index : Nat) :
    Reported (codec.expandAbbreviation bytes index) :=
  (reported_textWord bytes _).bind fun _ _ =>
    (codec.reported_readWords (fun f (h : none = some f) => nomatch h) bytes _ _ _).bind fun _ _ => failsAs_ok _

/-- **Reading text fails with a reported fault only**, whatever stands at its address. -/
theorem reported_decode (bytes : Array UInt8) (address : Nat) :
    Reported (codec.decode bytes address) := by
  refine FailsAs.bind (codec.reported_readWords ?_ bytes _ _ _) fun _ _ => failsAs_ok _
  rintro f ⟨⟩ index
  exact codec.reported_expandAbbreviation bytes index

end Codec

namespace Dictionary

/-- A byte of a dictionary has to lie in the image. -/
theorem reported_byteAt (bytes : Array UInt8) (address : Nat) : Reported (byteAt bytes address) := by
  unfold byteAt
  split
  · exact failsAs_ok _
  · exact failsAs_error rfl

/-- A dictionary with entries that are too short, or that lie outside the image, is reported. -/
theorem reported_load (bytes : Array UInt8) (address keyBytes : Nat) :
    Reported (load bytes address keyBytes) :=
  (reported_byteAt bytes _).bind fun _ _ =>
    (failsAs_mapM (fun _ => reported_byteAt bytes _) _).bind fun _ _ =>
      (reported_byteAt bytes _).bind fun _ _ => (reported_byteAt bytes _).bind fun _ _ =>
        (reported_byteAt bytes _).bind fun _ _ =>
          .ite (failsAs_error rfl) (.ite (failsAs_error rfl) (failsAs_ok _))

end Dictionary

/-- Text is cut into words unless the dictionary cannot be loaded. -/
theorem Dictionaries.reported_tokenise (dictionaries : Dictionaries) (bytes : Array UInt8)
    (codec : Codec) (address ceiling : Nat) (text : List Word) :
    Reported (dictionaries.tokenise bytes codec address ceiling text) := by
  unfold Dictionaries.tokenise
  cases dictionaries.known.lookup address with
  | some indexed => exact failsAs_ok _
  | none =>
      exact (Dictionary.reported_load bytes address _).bind fun _ _ =>
        .ite (failsAs_ok _) (failsAs_ok _)

namespace TextBuffer

variable (memory : Memory)

/-- The room of a text buffer is read from its first byte. -/
theorem reported_capacity (address : Nat) : Reported (capacity memory address) :=
  (memory.reported_readByte _).bind fun _ _ => failsAs_ok _

/-- Text that ends with a zero is read byte by byte. -/
theorem reported_readUntilZero (left address : Nat) :
    Reported (readUntilZero memory left address) := by
  induction left generalizing address with
  | zero => exact failsAs_ok _
  | succ left ih =>
      exact (memory.reported_readByte _).bind fun _ _ => .ite (failsAs_ok _)
        ((ih _).bind fun _ _ => failsAs_ok _)

/-- The text of a buffer is read in both layouts. -/
theorem reported_readText (address : Nat) : Reported (readText memory address) :=
  (reported_capacity memory address).bind fun _ _ => .ite (reported_readUntilZero memory _ _) <|
    (memory.reported_readByte _).bind fun _ _ =>
      (failsAs_mapM (fun _ => memory.reported_readByte _) _).bind fun _ _ => failsAs_ok _

end TextBuffer

namespace Table

variable (memory : Memory)

/-- An entry of a table is a byte or a word of memory. -/
theorem reported_entryAt (isWord : Bool) (address : Nat) :
    Reported (entryAt memory isWord address) :=
  .ite (memory.reported_readWord _) ((memory.reported_readByte _).bind fun _ _ => failsAs_ok _)

/-- A table that reaches beyond memory is out of bounds where no entry before has the value. -/
theorem reported_find? (value : Word) (isWord : Bool) (step count address : Nat) :
    Reported (find? memory value isWord step count address) := by
  induction count generalizing address with
  | zero => exact failsAs_ok _
  | succ count ih =>
      exact (reported_entryAt memory isWord address).bind fun _ _ => .ite (failsAs_ok _) (ih _)

end Table

namespace CallStack

/-- There is no top word in a frame that owns none. -/
theorem reported_peek (stack : CallStack) : Reported stack.peek := by
  unfold peek
  split
  · exact .ite (failsAs_ok _) (failsAs_error rfl)
  · exact failsAs_error rfl

/-- A local that the frame does not have is a bad variable. -/
theorem reported_localValue (stack : CallStack) (number : UInt8) :
    Reported (stack.localValue number) := by
  refine .ite (failsAs_error rfl) ?_
  split
  · exact failsAs_ok _
  · exact failsAs_error rfl

/-- The initial values of locals are read from the header of a routine. -/
theorem reported_initialLocals (memory : Memory) (address count : Nat) :
    Reported (initialLocals memory address count) :=
  .ite (failsAs_mapM (fun _ => memory.reported_readWord _) _) (failsAs_ok _)

end CallStack

/-! ## Work on a state -/

/-- Work whose faults are all reported. -/
def Work.Reports (work : Work σ α) : Prop :=
  ∀ s, Reported (work.on s).1

namespace Work.Reports

/-- Work that only gives a value does not fail. -/
theorem pure (a : α) : Work.Reports (pure a : Work σ α) := fun _ => failsAs_ok a

/-- Looking at the state does not fail. -/
theorem get : Work.Reports (get : Work σ σ) := fun s => failsAs_ok s

/-- Replacing the state does not fail. -/
theorem set (s : σ) : Work.Reports (set s : Work σ PUnit) := fun _ => failsAs_ok _

/-- Changing the state does not fail. -/
theorem modify (f : σ → σ) : Work.Reports (modify f : Work σ PUnit) := fun _ => failsAs_ok _

/-- Work that takes over an outcome fails as the outcome does. -/
theorem ofExcept {outcome : Except Fault α} (h : Reported outcome) :
    Work.Reports (MonadExcept.ofExcept outcome : Work σ α) := by
  intro s
  rw [Work.on_ofExcept]
  exact h

/-- Work that stops with a fault reports it if it is one that is reported. -/
theorem throw {fault : Fault} (h : fault.kind.isReported = true) :
    Work.Reports (throw fault : Work σ α) := fun _ => failsAs_error h

/-- **Work done in turn** reports if each of its parts does. -/
theorem bind {work : Work σ α} {next : α → Work σ β} (h : work.Reports)
    (hnext : ∀ a, (next a).Reports) : Work.Reports (work >>= next) := by
  intro s
  have hwork := h s
  rw [Work.on_bind]
  rcases hrun : work.on s with ⟨fault | a, middle⟩ <;> rw [hrun] at hwork
  · exact failsAs_error (hwork fault rfl)
  · exact hnext a middle

/-- A choice of work reports if both sides do. -/
theorem ite {c : Prop} [Decidable c] {work other : Work σ α} (h : work.Reports)
    (hother : other.Reports) : Work.Reports (if c then work else other) := by
  split
  · exact h
  · exact hother

end Work.Reports

/-- Work on memory whose faults are all reported. -/
abbrev Edit.Reports (edit : Edit α) : Prop := Work.Reports edit

namespace Edit

/-- Looking at memory does not fail. -/
theorem reports_view (f : Memory → α) : (view f).Reports := fun _ => failsAs_ok _

/-- Reading memory in a way that can fail reports if every such reading does. -/
theorem reports_look {f : Memory → Except Fault α} (h : ∀ memory, Reported (f memory)) :
    (look f).Reports := .bind .get fun draft => .ofExcept (h draft.memory)

/-- Making a notice does not fail. -/
theorem reports_note (notice : Notice) : (note notice).Reports := .modify _

/-- Nor does making one if there is one to make. -/
theorem reports_noteIf (notice : Option Notice) : (noteIf notice).Reports := by
  cases notice with
  | none => exact .pure ()
  | some notice => exact reports_note notice

/-- Changing memory as a whole does not fail. -/
theorem reports_change (f : Memory → Memory) : (change f).Reports := .modify _

/-- A byte can be written to dynamic memory only; anywhere else that is reported. -/
theorem reports_writeByte (address : Nat) (value : UInt8) : (writeByte address value).Reports := by
  intro draft
  by_cases h : address < draft.memory.dynamicCeiling
  · rw [on_writeByte_of_lt h]
    exact failsAs_ok _
  · rw [on_writeByte_of_le (Nat.not_lt.mp h)]
    exact failsAs_error (draft.memory.isReported_writeFault address)

/-- A word can be written if both its bytes can; else that is reported. -/
theorem reports_writeWord (address : Nat) (value : Word) : (writeWord address value).Reports := by
  intro draft
  by_cases h : address + 1 < draft.memory.dynamicCeiling
  · rw [on_writeWord_of_lt h]
    exact failsAs_ok _
  · by_cases hfirst : address < draft.memory.dynamicCeiling
    · have hon : Work.on (writeWord address value) draft
          = (.error (draft.memory.writeFault (address + 1)), draft) :=
        (dif_neg h).trans (if_pos hfirst)
      rw [hon]
      exact failsAs_error (draft.memory.isReported_writeFault _)
    · have hon : Work.on (writeWord address value) draft
          = (.error (draft.memory.writeFault address), draft) :=
        (dif_neg h).trans (if_neg hfirst)
      rw [hon]
      exact failsAs_error (draft.memory.isReported_writeFault _)

/-- Writing bytes stops at the first that cannot be written. -/
theorem reports_writeBytes (address : Nat) (bytes : List UInt8) :
    (writeBytes address bytes).Reports := by
  induction bytes generalizing address with
  | nil => exact .pure ()
  | cons b rest ih => exact .bind (reports_writeByte address b) fun _ => ih (address + 1)

end Edit

namespace ObjectTable

open Edit

variable (table : ObjectTable)

/-- Setting a link fails at the entry or at the write. -/
theorem reports_setLink (object : Word) (link : Link) (value : Word) :
    (table.setLink object link value).Reports :=
  .bind (reports_look fun _ => table.reported_entry object) fun _ =>
    .ite (reports_writeByte _ _) (reports_writeWord _ _)

/-- Setting an attribute fails at its place, at the byte read or at the write. -/
theorem reports_setAttribute (object number : Word) (on : Bool) :
    (table.setAttribute object number on).Reports :=
  .bind (reports_look fun _ => table.reported_attributePlace object number) fun _ =>
    .bind (reports_look fun memory => memory.reported_readByte _) fun _ => reports_writeByte _ _

/-- Taking an object out of the tree fails at a link or on the way along its siblings. -/
theorem reports_remove (object : Word) : (table.remove object).Reports := by
  have hend : Edit.Reports (do
      table.setLink object .parent 0
      table.setLink object .sibling 0) :=
    .bind (table.reports_setLink _ _ _) fun _ => table.reports_setLink _ _ _
  have hlink (object : Word) (link : Link) : Edit.Reports (Edit.look (table.link · object link)) :=
    reports_look fun memory => table.reported_link memory object link
  refine .bind (hlink _ _) fun parent => .ite ?_ (.pure ())
  refine .bind (hlink _ _) fun sibling => .bind (hlink _ _) fun first => .ite ?_ ?_
  · exact .bind (table.reports_setLink _ _ _) fun _ => hend
  · exact .bind (reports_look fun memory => table.reported_elder memory _ _ _ _) fun _ =>
      .bind (table.reports_setLink _ _ _) fun _ => hend

/-- Inserting an object fails as taking it out does, or at a link. -/
theorem reports_insert (object destination : Word) : (table.insert object destination).Reports :=
  .bind (table.reports_remove object) fun _ =>
    .bind (reports_look fun memory => table.reported_link memory _ _) fun _ =>
      .bind (table.reports_setLink _ _ _) fun _ =>
        .bind (table.reports_setLink _ _ _) fun _ => table.reports_setLink _ _ _

/-- Setting a property fails on the way to it or at the write. -/
theorem reports_putProperty (object number value : Word) :
    (table.putProperty object number value).Reports := by
  refine .bind (reports_look fun memory => table.reported_find? memory _ _) fun found => ?_
  cases found with
  | none => exact .pure false
  | some found =>
      exact .ite (.bind (reports_writeByte _ _) fun _ => .pure true)
        (.bind (reports_writeWord _ _) fun _ => .pure true)

end ObjectTable

namespace Table

open Edit

/-- Copying byte by byte fails at a read or at a write. -/
theorem reports_copyForward (count source destination : Nat) :
    (copyForward count source destination).Reports := by
  induction count generalizing source destination with
  | zero => exact .pure ()
  | succ count ih =>
      exact .bind (reports_look fun memory => memory.reported_readByte source) fun b =>
        .bind (reports_writeByte destination b) fun _ => ih (source + 1) (destination + 1)

/-- Copying a table fails at a read or at a write, whichever way it goes. -/
theorem reports_copy (first second size : Word) : (copy first second size).Reports :=
  .ite (reports_writeBytes _ _) <| .ite (reports_copyForward _ _ _) <|
    .bind (reports_look fun memory => memory.reported_slice _ _) fun _ => reports_writeBytes _ _

/-- Pushing onto a stack in memory fails at its words only. -/
theorem reports_pushOnto (stack : Nat) (value : Word) : (pushOnto stack value).Reports :=
  .bind (reports_look fun memory => memory.reported_readWord _) fun _ => .ite (.pure false) <|
    .bind (reports_writeWord _ _) fun _ => .bind (reports_writeWord _ _) fun _ => .pure true

/-- Pulling from a stack in memory fails at its words only. -/
theorem reports_pullFrom (stack : Nat) : (pullFrom stack).Reports :=
  .bind (reports_look fun memory => memory.reported_readWord _) fun _ =>
    .bind (reports_look fun memory => memory.reported_readWord _) fun _ =>
      .bind (reports_writeWord _ _) fun _ => .pure _

end Table

namespace TextBuffer

open Edit

/-- A table of terminating keys without an end runs out of memory. -/
theorem reports_listedKeys (left address : Nat) : (listedKeys left address).Reports := by
  induction left generalizing address with
  | zero => exact reports_look fun _ => failsAs_error rfl
  | succ left ih =>
      refine .bind (reports_look fun memory => memory.reported_readByte _) fun code =>
        .ite (.pure []) <| .ite ?_ <| .ite ?_ ?_
      · exact .bind (ih (address + 1)) fun _ => .pure _
      · exact .bind (ih (address + 1)) fun _ => .pure _
      · exact .bind (reports_note _) fun _ => ih (address + 1)

/-- The terminating keys are a new line and what such a table lists. -/
theorem reports_terminators : terminators.Reports := by
  refine .bind (reports_view _) fun _ => .bind (reports_view _) fun _ => .ite (.pure _) ?_
  exact .bind (reports_view _) fun _ => .bind (reports_listedKeys _ _) fun _ => .pure _

/-- Text is put into a buffer by writes. -/
theorem reports_writeText (address : Nat) (codes : List Word) :
    (writeText address codes).Reports :=
  .bind (reports_view _) fun _ => .bind (reports_writeBytes _ _) fun _ =>
    .ite (reports_writeByte _ _) (reports_writeByte _ _)

/-- Records of words are put into a parse buffer by writes. -/
theorem reports_writeRecords (offset : Nat) (skipUnknown : Bool) (address : Nat)
    (lexemes : List Lexeme) : (writeRecords offset skipUnknown address lexemes).Reports := by
  induction lexemes generalizing address with
  | nil => exact .pure ()
  | cons lexeme rest ih =>
      refine .ite ?_ (ih (address + 4))
      exact .bind (reports_writeWord _ _) fun _ => .bind (reports_writeByte _ _) fun _ =>
        .bind (reports_writeByte _ _) fun _ => ih (address + 4)

/-- A parse buffer is filled by reading its room and by writes. -/
theorem reports_writeLexemes (address : Nat) (lexemes : List Lexeme) (offset : Nat)
    (skipUnknown : Bool) : (writeLexemes address lexemes offset skipUnknown).Reports := by
  have hwrite (count : UInt8) (kept : List Lexeme) : Edit.Reports (do
      writeByte (address + 1) count
      writeRecords offset skipUnknown (address + 2) kept) :=
    .bind (reports_writeByte _ _) fun _ => reports_writeRecords _ _ _ _
  refine .bind (reports_look fun memory => memory.reported_readByte _) fun room =>
    .ite ?_ (hwrite _ _)
  exact .bind (reports_note _) fun _ => hwrite _ _

end TextBuffer

namespace Header

open Edit

/-- A field of the header extension is written as any word is, if there is such a field. -/
theorem reports_setExtensionWord (field : ExtensionField) (value : Word) :
    (setExtensionWord field value).Reports := by
  refine .bind (reports_view _) fun _ => .bind (reports_noteIf _) fun _ =>
    .bind (reports_view _) fun place => ?_
  cases place with
  | none => exact .pure ()
  | some address =>
      exact .bind (reports_view _) fun _ => .ite (reports_writeWord _ _) (.pure ())

/-- The header is set up by writing bytes and extension fields. -/
theorem reports_setUp (info : HostInfo) (options : Options) : (setUp info options).Reports :=
  setUp_of_parts info options (fun h => .bind (reports_view _) h)
    (fun h hnext => .bind h fun _ => hnext) .ite (fun _ => reports_change _)
    reports_setExtensionWord

end Header

namespace CallStack

/-- Work on the words of the stack reports on the call stack as it does on them. -/
theorem reports_onWords {work : Work WordStack α} (h : work.Reports) :
    Work.Reports (onWords work : StackWork α) := fun stack => h stack.values

/-- A word too many is a stack overflow. -/
theorem reports_push (word : Word) : Work.Reports (push word) := by
  have hpush : Work.Reports (WordStack.tryPush fullDetail word) :=
    .bind (.modify _) fun _ => .bind .get fun _ => .ite (.throw rfl) (.pure ())
  exact .bind (reports_onWords hpush) fun _ => .modify _

/-- A word that the frame does not own is an underflow. -/
theorem reports_pop : Work.Reports pop := by
  have hpop : Work.Reports WordStack.tryPop := by
    refine .bind .get fun stack => ?_
    cases stack.words with
    | nil => exact .throw rfl
    | cons word rest => exact .bind (.set _) fun _ => .pure _
  exact .bind .get fun _ => .ite (.throw rfl) <|
    .bind (reports_onWords hpop) fun _ => .bind (.modify _) fun _ => .pure _

/-- Words can be taken if there are as many. -/
theorem reports_tryPopMany (n : Nat) : Work.Reports (WordStack.tryPopMany n) :=
  .bind .get fun _ => .ite (.throw rfl) <| .bind (.set _) fun _ => .pure _

/-- Words can be dropped if the frame owns as many. -/
theorem reports_popMany (count : Nat) : Work.Reports (popMany count) :=
  .bind .get fun _ => .ite (.throw rfl) <|
    .bind (reports_onWords (reports_tryPopMany count)) fun _ => .modify _

/-- The top word can be replaced if the frame owns one. -/
theorem reports_poke (word : Word) : Work.Reports (poke word) := by
  refine .bind .get fun stack => ?_
  cases stack.values.words with
  | nil => exact .throw rfl
  | cons top rest => exact .ite (.throw rfl) (.set _)

/-- A local can be set if the frame has it. -/
theorem reports_setLocal (number : UInt8) (value : Word) : Work.Reports (setLocal number value) :=
  .bind .get fun _ => .ite (.throw rfl) (.set _)

/-- A call fails if there are too many frames already, or at the header of the routine. -/
theorem reports_call (memory : Memory) (address : Nat) (arguments : List Word) (returnPc : Nat)
    (store : Option UInt8) (pending : Option PendingRead) :
    Work.Reports (call memory address arguments returnPc store pending) := by
  have henter (stack : CallStack) (count : Nat) : Work.Reports (do
      let locals ← MonadExcept.ofExcept (initialLocals memory (address + 1) count)
      set { stack with
        current := { returnPc, store, locals := withArguments locals arguments,
                     arguments := min arguments.length 7, size := 0, pending }
        callers := stack.current :: stack.callers }
      return if memory.version ≤ 4 then address + 1 + 2 * count else address + 1 : StackWork Nat) :=
    .bind (.ofExcept (reported_initialLocals memory _ _)) fun _ => .bind (.set _) fun _ => .pure _
  have hcount (stack : CallStack) : Work.Reports (do
      let count := (← MonadExcept.ofExcept (memory.readByte address)).toNat
      if 15 < count then
        throw { kind := .corruptImage,
                detail := "ROUTINE " ++ Numeral.marked 4 address ++ s!" HAS {count} LOCALS" }
      let locals ← MonadExcept.ofExcept (initialLocals memory (address + 1) count)
      set { stack with
        current := { returnPc, store, locals := withArguments locals arguments,
                     arguments := min arguments.length 7, size := 0, pending }
        callers := stack.current :: stack.callers }
      return if memory.version ≤ 4 then address + 1 + 2 * count else address + 1 : StackWork Nat) :=
    .bind (.ofExcept (memory.reported_readByte _)) fun count =>
      .ite (.bind (.throw rfl) fun _ => henter stack _) (henter stack _)
  exact .bind .get fun stack => .ite (.bind (.throw rfl) fun _ => hcount stack) (hcount stack)

/-- The main routine cannot return. -/
theorem reports_ret : Work.Reports ret := by
  refine .bind .get fun stack => ?_
  cases stack.callers with
  | nil => exact .throw rfl
  | cons caller older =>
      exact .bind (.set _) fun _ =>
        .bind (reports_onWords (reports_tryPopMany _)) fun _ => .pure _

/-- Leaving several routines fails where the main routine would be left. -/
theorem reports_leave (n : Nat) : Work.Reports (leave n) := by
  induction n with
  | zero => exact .pure ()
  | succ n ih => exact .bind reports_ret fun _ => ih

/-- Unwinding asks for a frame that is there. -/
theorem reports_unwind (depth : Nat) : Work.Reports (unwind depth) :=
  .bind .get fun _ => .ite (.throw rfl) (reports_leave _)

end CallStack

namespace MemoryStream

/-- A stream fails on memory as the work on memory does. -/
theorem reports_onMemory {edit : Edit α} (h : edit.Reports) : Work.Reports (onMemory edit) :=
  fun recording => h recording.draft

/-- Changing a stream does not fail. -/
theorem reports_change (f : MemoryStream → MemoryStream) : Work.Reports (change f) := .modify _

/-- A code is put into a record by two writes. -/
theorem reports_writeCode (code : Word) : Work.Reports (writeCode code) :=
  .bind .get fun _ => .bind (reports_onMemory (Edit.reports_writeByte _ _)) fun _ =>
    .bind (reports_change _) fun _ => reports_onMemory (Edit.reports_writeWord _ _)

/-- Codes are put into a record one after another. -/
theorem reports_writeCodes (codes : List Word) : Work.Reports (writeCodes codes) := by
  induction codes with
  | nil => exact .pure ()
  | cons code rest ih => exact .bind (reports_writeCode code) fun _ => ih

/-- A line is put into a record, and the next record is begun. -/
theorem reports_emitLine (line : List Word) : Work.Reports (emitLine line) :=
  .bind (reports_writeCodes line) fun _ => .bind (reports_change _) fun _ =>
    .bind .get fun _ => reports_onMemory (Edit.reports_writeWord _ _)

/-- A code of broken text waits in a line, or sends a line off. -/
theorem reports_takeCode (width : Nat) (code : Word) : Work.Reports (takeCode width code) := by
  refine .ite ?_ ?_
  · exact .bind .get fun _ => .bind (reports_change _) fun _ => reports_emitLine _
  · refine .bind .get fun _ => .ite ?_ (reports_change _)
    exact .bind (reports_change _) fun _ => .bind (reports_emitLine _) fun _ => reports_change _

/-- Codes of broken text are taken one after another. -/
theorem reports_takeCodes (width : Nat) (codes : List Word) :
    Work.Reports (takeCodes width codes) := by
  induction codes with
  | nil => exact .pure ()
  | cons code rest ih => exact .bind (reports_takeCode width code) fun _ => ih

/-- A stream prints codes with or without breaking lines. -/
theorem reports_print (codes : List Word) : Work.Reports (print codes) := by
  refine .bind .get fun recording => ?_
  cases recording.stream.width with
  | none => exact reports_writeCodes codes
  | some width => exact reports_takeCodes width codes

/-- Closing a stream sends off what waits and writes the end of its table. -/
theorem reports_close : Work.Reports close := by
  have hnote (text : String) : Work.Reports (onMemory (Edit.note (.remark text))) :=
    reports_onMemory (Edit.reports_note _)
  have hend (text : String) : Work.Reports (do
      onMemory (Edit.writeWord (← get).stream.record 0)
      onMemory (Edit.note (.remark text)) : Capture Unit) :=
    .bind .get fun _ => .bind (reports_onMemory (Edit.reports_writeWord _ _)) fun _ => hnote text
  refine .bind .get fun recording => .ite (.ite ?_ (hend _)) (hnote _)
  exact .bind (reports_change _) fun _ => .bind (reports_emitLine _) fun _ => hend _

end MemoryStream

/-! ## Work of the streams -/

/-- Work of the streams whose faults are all reported, whatever the host answers. -/
def StreamWork.Reports (work : StreamWork (StateM W) α) : Prop :=
  ∀ (host : Host (StateM W)) (desk : Desk) (w : W),
    Reported (StateT.run (ExceptT.run (work host)) desk w).1.1

namespace StreamWork

/-- Work that only gives a value does not fail with any host. -/
theorem reports_pure (a : α) : Reports (pure a : StreamWork (StateM W) α) :=
  fun _ _ _ => failsAs_ok a

/-- Work that stops with a reported fault reports it with any host. -/
theorem reports_throw {fault : Fault} (h : fault.kind.isReported = true) :
    Reports (throw fault : StreamWork (StateM W) α) := fun _ _ _ => failsAs_error h

/-- Looking at the streams does not fail. -/
theorem reports_get : Reports (get : StreamWork (StateM W) Desk) := fun _ _ _ => failsAs_ok _

/-- Asking the host does not fail: what it answers is not a fault. -/
theorem reports_ask (f : Host (StateM W) → StateM W α) : Reports (ask f) :=
  fun _ _ _ => failsAs_ok _

/-- Changing the streams does not fail. -/
theorem reports_change (f : Streams → Streams) :
    Reports (change f : StreamWork (StateM W) Unit) := fun _ _ _ => failsAs_ok _

/-- The streams fail on memory as the work on memory does. -/
theorem reports_edit {work : Edit α} (h : work.Reports) :
    Reports (edit work : StreamWork (StateM W) α) := fun _ desk _ => h { memory := desk.memory }

/-- Taking over an outcome fails as the outcome does. -/
theorem reports_ofExcept {outcome : Except Fault α} (h : Reported outcome) :
    Reports (MonadExcept.ofExcept outcome : StreamWork (StateM W) α) := by
  intro host desk w
  cases outcome with
  | ok a => exact failsAs_ok a
  | error fault => exact failsAs_error (h fault rfl)

/-- **Work with a host done in turn** reports if each of its parts does. -/
theorem reports_bind {work : StreamWork (StateM W) α} {next : α → StreamWork (StateM W) β}
    (h : work.Reports) (hnext : ∀ a, (next a).Reports) : Reports (work >>= next) := by
  intro host desk w
  have hwork : Reported (on work host desk w).1.1 := h host desk w
  show Reported (on (work >>= next) host desk w).1.1
  rw [on_bind]
  rcases hrun : on work host desk w with ⟨⟨fault | a, middle⟩, v⟩ <;> rw [hrun] at hwork
  · exact failsAs_error (hwork fault rfl)
  · exact hnext a host middle v

/-- A choice of work with a host reports if both sides do. -/
theorem reports_ite {c : Prop} [Decidable c] {work other : StreamWork (StateM W) α}
    (h : work.Reports) (hother : other.Reports) : Reports (if c then work else other) := by
  split
  · exact h
  · exact hother

/-- What a memory stream does cannot fail by itself: its outcome comes back as a value. -/
theorem reports_run_bind {stream : MemoryStream} {work : Capture α} (h : Work.Reports work)
    {next : Except Fault α × MemoryStream → StreamWork (StateM W) β}
    (hnext : ∀ outcome after, Reported outcome → (next (outcome, after)).Reports) :
    Reports (edit (stream.run work) >>= next) := by
  intro host desk w
  exact hnext _ _ (h { stream, draft := { memory := desk.memory } }) host _ _

end StreamWork

namespace Streams

open StreamWork

/-- A transcript that cannot be opened is a warning, not a fault. -/
theorem reports_openTranscript : (openTranscript : StreamWork (StateM W) Bool).Reports := by
  refine reports_bind reports_get fun desk => reports_ite (reports_pure true) ?_
  refine reports_bind (reports_ask _) fun file => ?_
  cases file with
  | none => exact reports_bind (reports_ask _) fun _ => reports_pure false
  | some file =>
      refine reports_bind (reports_ask _) fun stamp =>
        reports_bind (reports_ask _) fun written => ?_
      cases written with
      | error text => exact reports_bind (reports_ask _) fun _ => reports_pure false
      | ok _ => exact reports_bind (reports_change _) fun _ => reports_pure true

/-- Nor is one that cannot be written. -/
theorem reports_writeTranscript (text : String) :
    (writeTranscript text : StreamWork (StateM W) Unit).Reports := by
  refine reports_bind reports_get fun desk => ?_
  dsimp only
  cases desk.streams.transcript with
  | none => exact reports_pure ()
  | some file =>
      refine reports_ite (reports_bind (reports_ask _) fun written => ?_) (reports_pure ())
      cases written with
      | error text => exact reports_bind (reports_ask _) fun _ => reports_change _
      | ok _ => exact reports_pure ()

/-- A stream into memory cannot be opened if there are too many, without a table or where its
length cannot be written. -/
theorem reports_openTable (table : Option Word) (width : Option Int) :
    (openTable table width : StreamWork (StateM W) Unit).Reports := by
  refine reports_bind reports_get fun desk => ?_
  cases table with
  | none =>
      exact reports_ite (reports_bind (reports_throw rfl) fun _ => reports_throw rfl)
        (reports_throw rfl)
  | some table =>
      have hopen (streams : Streams → Streams) : StreamWork.Reports (W := W) (do
          edit (Edit.writeWord table.toNat 0)
          change streams) :=
        reports_bind (reports_edit (Edit.reports_writeWord _ _)) fun _ => reports_change streams
      exact reports_ite (reports_bind (reports_throw rfl) fun _ => hopen _) (hopen _)

/-- Closing the innermost table fails at its writes. -/
theorem reports_closeTable : (closeTable : StreamWork (StateM W) Bool).Reports := by
  refine reports_bind reports_get fun desk => ?_
  cases desk.streams.tables with
  | nil => exact reports_pure false
  | cons stream outer =>
      refine reports_bind (reports_change _) fun _ =>
        reports_run_bind MemoryStream.reports_close fun outcome after houtcome => ?_
      exact reports_bind (reports_ofExcept houtcome) fun _ => reports_pure true

/-- A record of commands that cannot be opened is a warning, not a fault. -/
theorem reports_openCommands : (openCommands : StreamWork (StateM W) Unit).Reports := by
  have hend : StreamWork.Reports (W := W) (do
      change fun streams => { streams with commandsOn := streams.commands.isSome }
      if !(← get).streams.commandsOn then
        note (.warning "command record could not be opened")) :=
    reports_bind (reports_change _) fun _ => reports_bind reports_get fun _ =>
      reports_ite (reports_ask _) (reports_pure ())
  refine reports_bind reports_get fun desk => reports_ite ?_ hend
  exact reports_bind (reports_ask _) fun _ => reports_bind (reports_change _) fun _ => hend

/-- The flag in the header is shown without a fault. -/
theorem reports_showTranscriptFlag :
    (showTranscriptFlag : StreamWork (StateM W) Unit).Reports :=
  reports_bind reports_get fun _ => reports_edit (Edit.reports_change _)

/-- Every number but the lowest can be selected, or comes back as a warning or a reported
fault. -/
theorem reports_select {number : Int} (hnumber : number ≠ -32768) (table : Option Word)
    (width : Option Int) :
    (select number table width : StreamWork (StateM W) (Option String)).Reports := by
  unfold select
  split
  · exact reports_pure none
  · exact reports_bind (reports_change _) fun _ => reports_pure none
  · exact reports_bind (reports_change _) fun _ => reports_pure none
  · exact reports_bind reports_openTranscript fun _ => reports_bind (reports_change _)
      fun _ => reports_bind reports_showTranscriptFlag fun _ => reports_pure none
  · exact reports_bind (reports_change _) fun _ =>
      reports_bind reports_showTranscriptFlag fun _ => reports_pure none
  · exact reports_bind (reports_openTable _ _) fun _ => reports_pure none
  · exact reports_bind reports_closeTable fun _ =>
      reports_ite (reports_pure _) (reports_pure none)
  · exact reports_bind reports_openCommands fun _ => reports_pure none
  · exact reports_bind (reports_change _) fun _ => reports_pure none
  · exact absurd rfl hnumber
  · exact reports_pure _

/-- Printing fails at the writes into a table only. -/
theorem reports_print (unicode : UnicodeTable) (codes : List Word) :
    (print unicode codes : StreamWork (StateM W) Unit).Reports := by
  refine reports_bind reports_get fun desk => ?_
  cases desk.streams.tables with
  | nil =>
      refine reports_bind reports_get fun _ => reports_ite ?_ (reports_writeTranscript _)
      exact reports_bind (reports_ask _) fun _ => reports_writeTranscript _
  | cons stream outer =>
      refine reports_run_bind (MemoryStream.reports_print codes) fun outcome after houtcome => ?_
      exact reports_bind (reports_change _) fun _ => reports_ofExcept houtcome

/-- Recording a typed line does not fail. -/
theorem reports_recordInput (text : String) :
    (recordInput text : StreamWork (StateM W) Unit).Reports := by
  refine reports_bind reports_get fun desk => reports_ite (reports_pure ()) ?_
  refine reports_bind (reports_writeTranscript _) fun _ =>
    reports_bind (reports_writeTranscript _) fun _ => reports_bind reports_get fun desk => ?_
  dsimp only
  cases desk.streams.commands with
  | none => exact reports_pure ()
  | some file =>
      refine reports_ite (reports_bind (reports_ask _) fun written => ?_) (reports_pure ())
      cases written with
      | error text => exact reports_bind (reports_ask _) fun _ => reports_change _
      | ok _ => exact reports_pure ()

/-- An input stream that does not exist is a warning. -/
theorem reports_selectInput (number : Word) :
    (selectInput number : StreamWork (StateM W) (Option String)).Reports := by
  refine reports_ite (reports_bind (reports_change _) fun _ => reports_pure none) ?_
  refine reports_ite (reports_bind (reports_ask _) fun file => ?_) (reports_pure _)
  cases file with
  | none => exact reports_bind (reports_ask _) fun _ => reports_pure none
  | some file => exact reports_bind (reports_change _) fun _ => reports_pure none

/-- Replaying stops where the record cannot be read, without a fault. -/
theorem reports_replayLine : (replayLine : StreamWork (StateM W) (Option String)).Reports := by
  refine reports_bind reports_get fun desk => ?_
  cases desk.streams.replay with
  | none => exact reports_pure none
  | some file =>
      refine reports_bind (reports_ask _) fun read => ?_
      exact reports_ite (reports_bind (reports_change _) fun _ => reports_pure _) (reports_pure _)

end Streams

end StoryMachine
