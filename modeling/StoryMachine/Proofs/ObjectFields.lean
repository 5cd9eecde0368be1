import StoryMachine.Proofs.ObjectTree

/-!
# The fields of objects

What an instruction sets in an object is one of its fields: an attribute or a link.  A field that has
been set reads as what it was set to, and nothing else in the table reads differently: no other field
of any object, no address of properties, no default value (`field_set_alone`).

**A field has bytes of its own, but for attributes.**  The entries of objects lie behind the default
values and one behind the other (`entryAt_disjoint`), and in an entry the attributes come first, then
the links, then the address of the properties.  Eight attributes share a byte, and there each has a
bit of its own (`set_mask_other`).
-/

namespace StoryMachine

/-- What can be set in an object. -/
inductive Field where
  | attr (number : Word)
  | link (link : Link)
  deriving DecidableEq

/-- What a field can be set to. -/
abbrev Field.Value : Field → Type
  | attr _ => Bool
  | link _ => Word

namespace ObjectTable

variable (table : ObjectTable)

/-- What is read of a field. -/
def readField (memory : Memory) (object : Word) : (field : Field) → Except Fault field.Value
  | .attr number => table.testAttribute memory object number
  | .link link => table.link memory object link

/-- Sets a field. -/
def setField (object : Word) : (field : Field) → field.Value → Edit Unit
  | .attr number, on => table.setAttribute object number on
  | .link link, value => table.setLink object link value

/-- Whether objects of the layout have a field. -/
def HasField : Field → Prop
  | .attr number => number.toNat < table.attributes
  | .link _ => True

/-- Whether there is room in a field for a value. -/
def HasRoom : (field : Field) → field.Value → Prop
  | .attr _, _ => True
  | .link _, value => table.isSmall = true → value.toNat ≤ 255

/-- Where a field lies in an entry. -/
def fieldOffset : Field → Nat
  | .attr number => number.toNat / 8
  | .link link => (if table.isSmall then 4 else 6) + table.linkSize * link.index

/-- How many bytes a field has a part in. -/
def fieldSize : Field → Nat
  | .attr _ => 1
  | .link _ => table.linkSize

/-- Where the address of the properties lies in an entry. -/
def descriptionOffset : Nat := if table.isSmall then 7 else 12

/-- The places of a field. -/
def InField (object : Word) (field : Field) (address : Nat) : Prop :=
  table.entryAt object + table.fieldOffset field ≤ address ∧
    address < table.entryAt object + table.fieldOffset field + table.fieldSize field

/-- The bit of an attribute in its byte. -/
def mask (number : Word) : UInt8 := 0x80 >>> (number.toNat % 8).toUInt8

/-- A byte in which an attribute is set. -/
def setMask (old : UInt8) (number : Word) (on : Bool) : UInt8 :=
  if on then old ||| mask number else old &&& ~~~mask number

variable {table} {memory after : Memory} {object other number : Word} {field otherField : Field}
  {link : Link}

/-! ## Bits of a byte -/

/-- Bits are taken from each of two bytes. -/
theorem or_and (a b c : UInt8) : (a ||| b) &&& c = (a &&& c) ||| (b &&& c) := by
  apply UInt8.toBitVec_inj.mp
  rw [UInt8.toBitVec_and, UInt8.toBitVec_or, UInt8.toBitVec_or, UInt8.toBitVec_and,
    UInt8.toBitVec_and, BitVec.and_comm, BitVec.and_or_distrib_left, BitVec.and_comm c.toBitVec,
    BitVec.and_comm c.toBitVec]

/-- The mask of an attribute has its bit. -/
theorem mask_ne_zero (number : Word) : mask number ≠ 0 := by
  have hall : ∀ i : Fin 8, (0x80 : UInt8) >>> i.val.toUInt8 ≠ 0 := by decide
  exact hall ⟨number.toNat % 8, Nat.mod_lt _ (by decide)⟩

/-- Attributes of one byte have different bits. -/
theorem mask_and_mask {another : Word} (h : number.toNat % 8 ≠ another.toNat % 8) :
    mask number &&& mask another = 0 := by
  have hall : ∀ i j : Fin 8, i ≠ j →
      (0x80 : UInt8) >>> i.val.toUInt8 &&& 0x80 >>> j.val.toUInt8 = 0 := by decide
  exact hall ⟨number.toNat % 8, Nat.mod_lt _ (by decide)⟩
    ⟨another.toNat % 8, Nat.mod_lt _ (by decide)⟩ fun heq => h (Fin.val_eq_of_eq heq)

/-- The bit of an attribute that is set. -/
theorem set_mask_self (old : UInt8) (number : Word) (on : Bool) :
    (setMask old number on &&& mask number != 0) = on := by
  cases on with
  | true =>
      have hbits : setMask old number true &&& mask number
          = (old &&& mask number) ||| mask number := by
        rw [setMask, if_pos rfl, or_and, UInt8.and_self]
      rw [hbits, bne_iff_ne]
      intro hzero
      exact mask_ne_zero number (UInt8.or_eq_zero_iff.mp hzero).2
  | false =>
      have hbits : setMask old number false &&& mask number = 0 := by
        rw [setMask, if_neg Bool.false_ne_true, UInt8.and_assoc, UInt8.not_and_self, UInt8.and_zero]
      rw [hbits]
      rfl

/-- The bit of another attribute of the byte. -/
theorem set_mask_other (old : UInt8) (on : Bool) {another : Word}
    (h : number.toNat % 8 ≠ another.toNat % 8) :
    setMask old number on &&& mask another = old &&& mask another := by
  have hapart := mask_and_mask h
  cases on with
  | true =>
      rw [setMask, if_pos rfl, or_and, hapart, UInt8.or_zero]
  | false =>
      have hnot : ~~~mask number &&& mask another = mask another := by
        rw [← UInt8.or_zero (a := ~~~mask number &&& mask another), ← hapart, ← or_and,
          UInt8.not_or_self, UInt8.neg_one_and]
      rw [setMask, if_neg Bool.false_ne_true, UInt8.and_assoc, hnot]

/-! ## Places in an entry -/

/-- No two entries share a byte. -/
theorem entryAt_disjoint (hobject : table.Numbers object) (hother : table.Numbers other)
    (hne : other ≠ object) :
    table.entryAt object + table.entrySize ≤ table.entryAt other ∨
      table.entryAt other + table.entrySize ≤ table.entryAt object := by
  have hpos := hobject.ne_zero
  have hpos' := hother.ne_zero
  have hdistinct : other.toNat ≠ object.toNat := fun heq => hne (UInt16.toNat_inj.mp heq)
  unfold entryAt entrySize
  split <;> omega

/-- Default values come before all entries. -/
theorem defaults_le_entryAt (table : ObjectTable) (object : Word) :
    table.address + 2 * table.defaults ≤ table.entryAt object :=
  Nat.le_add_right _ _

/-- Attributes and links come before the address of the properties, and all of them have room in an
entry. -/
theorem fieldOffset_le (h : table.HasField field) :
    table.fieldOffset field + table.fieldSize field ≤ table.descriptionOffset := by
  cases field with
  | attr number =>
      have hnumber : number.toNat < table.attributes := h
      revert hnumber
      simp only [attributes, fieldOffset, fieldSize, descriptionOffset]
      split <;> omega
  | link link =>
      have hindex := index_le_two link
      simp only [fieldOffset, fieldSize, descriptionOffset, linkSize]
      split <;> omega

/-- The address of the properties lies in the entry. -/
theorem descriptionOffset_le (table : ObjectTable) :
    table.descriptionOffset + 2 ≤ table.entrySize := by
  unfold descriptionOffset entrySize
  split <;> decide

/-- A link lies at its offset in the entry. -/
theorem linkPlace_eq_fieldOffset (table : ObjectTable) (object : Word) (link : Link) :
    table.linkPlace object link = table.entryAt object + table.fieldOffset (.link link) := by
  rw [linkPlace_eq, fieldOffset, Nat.add_assoc]

/-- **Two fields of an object** share a byte only if they are attributes. -/
theorem fieldOffset_disjoint (hne : otherField ≠ field)
    (hattrs : ∀ number another, field = .attr number → otherField = .attr another →
      number.toNat / 8 ≠ another.toNat / 8)
    (hfield : table.HasField field) (hother : table.HasField otherField) :
    table.fieldOffset field + table.fieldSize field ≤ table.fieldOffset otherField ∨
      table.fieldOffset otherField + table.fieldSize otherField ≤ table.fieldOffset field := by
  cases field with
  | attr number =>
      cases otherField with
      | attr another =>
          have hplaces := hattrs number another rfl rfl
          simp only [fieldOffset, fieldSize]
          omega
      | link link =>
          have hnumber : number.toNat < table.attributes := hfield
          revert hnumber
          simp only [attributes, fieldOffset, fieldSize]
          split <;> omega
  | link link =>
      cases otherField with
      | attr another =>
          have hanother : another.toNat < table.attributes := hother
          revert hanother
          simp only [attributes, fieldOffset, fieldSize]
          split <;> omega
      | link otherLink =>
          have hindices : otherLink.index ≠ link.index :=
            fun heq => hne (congrArg Field.link (index_inj heq))
          simp only [fieldOffset, fieldSize, linkSize]
          split <;> omega

/-! ## Reading -/

/-- An attribute that objects have is in its byte of the entry. -/
theorem attributePlace_eq (hobject : table.Numbers object)
    (hnumber : number.toNat < table.attributes) :
    table.attributePlace object number
      = .ok (table.entryAt object + number.toNat / 8, mask number) := by
  unfold attributePlace
  rw [if_neg (Nat.not_le.mpr hnumber), entry_eq hobject]
  rfl

/-- An attribute is tested by its byte and mask. -/
theorem testAttribute_eq (hobject : table.Numbers object)
    (hnumber : number.toNat < table.attributes) :
    table.testAttribute memory object number
      = (memory.readByte (table.entryAt object + number.toNat / 8)).map
          (· &&& mask number != 0) := by
  unfold testAttribute
  rw [attributePlace_eq hobject hnumber]
  show memory.readByte _ >>= _ = _
  cases memory.readByte (table.entryAt object + number.toNat / 8) <;> rfl

/-- **A field is read off its own bytes.**  What is no field of the layout, or of no object, cannot be
read of any memory. -/
theorem readField_congr (hstory : after.story = memory.story)
    (hbytes : table.Numbers other → table.HasField otherField → ∀ address,
      table.InField other otherField address → after.byteAt address = memory.byteAt address) :
    table.readField after other otherField = table.readField memory other otherField := by
  have hsize := Memory.size_congr hstory
  by_cases hother : table.Numbers other
  case neg =>
    cases otherField with
    | attr number =>
        show table.testAttribute after other number = table.testAttribute memory other number
        unfold testAttribute attributePlace
        rw [entry_eq_error hother]
        split <;> rfl
    | link link =>
        show table.link after other link = table.link memory other link
        unfold ObjectTable.link
        rw [entry_eq_error hother]
        rfl
  case pos =>
    have hbytes := hbytes hother
    cases otherField with
    | attr number =>
        show table.testAttribute after other number = table.testAttribute memory other number
        by_cases hnumber : number.toNat < table.attributes
        · have hbyte := hbytes hnumber _ ⟨Nat.le_refl _, Nat.lt_succ_self _⟩
          rw [testAttribute_eq hother hnumber, testAttribute_eq hother hnumber]
          exact congrArg _ (Memory.readByte_congr hsize hbyte)
        · unfold testAttribute attributePlace
          rw [if_pos (Nat.not_lt.mp hnumber)]
          rfl
    | link link =>
        have hbytes := hbytes trivial
        simp only [InField, fieldSize, linkSize, ← linkPlace_eq_fieldOffset] at hbytes
        show table.link after other link = table.link memory other link
        rw [link_eq hother, link_eq hother]
        split
        case isTrue hsmall =>
          rw [if_pos hsmall] at hbytes
          rw [Memory.readByte_congr hsize (hbytes _ ⟨Nat.le_refl _, Nat.lt_succ_self _⟩)]
        case isFalse hlarge =>
          rw [if_neg hlarge] at hbytes
          exact Memory.readWord_congr hsize (hbytes _ ⟨Nat.le_refl _, by omega⟩)
            (hbytes _ ⟨Nat.le_succ _, by omega⟩)

/-- The address of the properties is read off its own bytes. -/
theorem description_congr (hstory : after.story = memory.story)
    (hbytes : table.Numbers other → ∀ address,
      table.entryAt other + table.descriptionOffset ≤ address →
      address < table.entryAt other + table.descriptionOffset + 2 →
        after.byteAt address = memory.byteAt address) :
    table.description after other = table.description memory other := by
  by_cases hother : table.Numbers other
  case neg =>
    unfold description
    rw [entry_eq_error hother]
    rfl
  case pos =>
    have hbytes := hbytes hother
    have hplace : (if table.isSmall then table.entryAt other + 7 else table.entryAt other + 12)
        = table.entryAt other + table.descriptionOffset := by
      unfold descriptionOffset
      split <;> rfl
    have hread : after.readWord (table.entryAt other + table.descriptionOffset)
        = memory.readWord (table.entryAt other + table.descriptionOffset) :=
      Memory.readWord_congr (Memory.size_congr hstory) (hbytes _ (Nat.le_refl _) (by omega))
        (hbytes _ (Nat.le_succ _) (by omega))
    unfold description
    rw [entry_eq hother]
    show after.readWord (if _ then _ else _) >>= _ = memory.readWord (if _ then _ else _) >>= _
    rw [hplace, hread]

/-- Default values are read off the beginning of the table. -/
theorem defaultValue_congr (hstory : after.story = memory.story)
    (hbytes : ∀ address, address < table.address + 2 * table.defaults →
      after.byteAt address = memory.byteAt address) (number : Word) :
    table.defaultValue after number = table.defaultValue memory number := by
  unfold defaultValue
  split
  · rfl
  case isFalse hdefault =>
    have hpos : number.toNat ≠ 0 := fun hzero => hdefault (.inl (UInt16.toNat_inj.mp hzero))
    have hle : ¬table.defaults < number.toNat := fun hlt => hdefault (.inr hlt)
    exact Memory.readWord_congr (Memory.size_congr hstory) (hbytes _ (by omega))
      (hbytes _ (by omega))

/-! ## Setting -/

variable {draft : Draft}

/-- Setting an attribute changes its byte, in which the bits of the others stay. -/
theorem on_setAttribute (hobject : table.Numbers object)
    (hnumber : number.toNat < table.attributes) {place : Nat}
    (hplace : table.entryAt object + number.toNat / 8 = place)
    (hlt : place < draft.memory.dynamicCeiling) (on : Bool) :
    Work.on (table.setAttribute object number on) draft
      = (.ok (), { draft with
          memory := draft.memory.set place (setMask (draft.memory.byteAt place) number on) hlt }) := by
  have hread : draft.memory.readByte place = .ok (draft.memory.byteAt place) :=
    if_pos (Nat.lt_of_lt_of_le hlt draft.memory.ceiling_le_size)
  unfold setAttribute
  rw [Work.on_bind, Edit.on_look, attributePlace_eq hobject hnumber, hplace]
  dsimp only
  rw [Work.on_bind, Edit.on_look, hread]
  exact Edit.on_writeByte_of_lt hlt _

/-- A link is a field. -/
theorem inField_link (object : Word) (link : Link) :
    table.InField object (.link link) = table.InLink object link := by
  funext address
  rw [InField, InLink, fieldSize, ← linkPlace_eq_fieldOffset]

/-- What a field was set to, where it is, and that nothing else has changed: an attribute that shares
a byte with the field reads as before. -/
structure SetAlone (table : ObjectTable) (object : Word) (field : Field) (value : field.Value)
    (memory after : Memory) : Prop where
  same : Memory.SameOff (table.InField object field) memory after
  read_eq : table.HasRoom field value → table.readField after object field = .ok value
  beside : ∀ number another, field = .attr number → another ≠ number →
    number.toNat / 8 = another.toNat / 8 →
      table.testAttribute after object another = table.testAttribute memory object another

/-- Setting a field of an object in dynamic memory goes well. -/
theorem on_setField (hobject : table.Numbers object) (hfield : table.HasField field)
    (hdynamic : table.entryAt object + table.entrySize ≤ draft.memory.dynamicCeiling)
    (value : field.Value) :
    ∃ after, Work.on (table.setField object field value) draft
        = (.ok (), { draft with memory := after }) ∧
      table.SetAlone object field value draft.memory after := by
  have hoffset := fieldOffset_le hfield
  have hdescription := table.descriptionOffset_le
  have hceiling := draft.memory.ceiling_le_size
  cases field with
  | attr number =>
      simp only [fieldOffset, fieldSize] at hoffset
      obtain ⟨place, hplace⟩ : ∃ place, table.entryAt object + number.toNat / 8 = place := ⟨_, rfl⟩
      have hlt : place < draft.memory.dynamicCeiling := by omega
      have hin : table.InField object (.attr number) place := by
        rw [InField, fieldOffset, fieldSize, hplace]
        exact ⟨Nat.le_refl _, Nat.lt_succ_self _⟩
      have hreads {another : Word} (hanother : another.toNat < table.attributes)
          (hbyte : number.toNat / 8 = another.toNat / 8) (memory : Memory)
          (hsize : place < memory.size) :
          table.testAttribute memory object another
            = .ok (memory.byteAt place &&& mask another != 0) := by
        rw [testAttribute_eq hobject hanother, ← hbyte, hplace,
          Memory.readByte_eq_ok.mpr ⟨hsize, rfl⟩]
        rfl
      have hsize : place < draft.memory.size := Nat.lt_of_lt_of_le hlt hceiling
      refine ⟨_, on_setAttribute hobject hfield hplace hlt value, Memory.sameOff_set _ hlt hin,
        fun _ => ?_, ?_⟩
      · refine (hreads hfield rfl _ (by rw [Memory.size_set]; exact hsize)).trans ?_
        rw [Memory.byteAt_set_self, set_mask_self]
      · rintro _ another ⟨⟩ hne hbyte
        have hanother : another.toNat < table.attributes := by
          have hnumber : number.toNat < table.attributes := hfield
          revert hnumber
          unfold attributes
          split <;> omega
        have hbits : number.toNat % 8 ≠ another.toNat % 8 :=
          fun heq => hne (UInt16.toNat_inj.mp (by omega))
        rw [hreads hanother hbyte _ (by rw [Memory.size_set]; exact hsize),
          hreads hanother hbyte _ hsize, Memory.byteAt_set_self, set_mask_other _ _ hbits]
  | link link =>
      have hplace : table.linkPlace object link + table.linkSize ≤ draft.memory.dynamicCeiling := by
        rw [linkPlace_eq_fieldOffset]
        simp only [fieldSize] at hoffset
        omega
      obtain ⟨after, hset, hsame, hread⟩ := on_setLink_alone hobject hplace value
      rw [← inField_link] at hsame
      exact ⟨after, hset, hsame, hread, fun _ _ h => nomatch h⟩

/-- Every other field reads as before. -/
theorem SetAlone.readField_eq {value : field.Value}
    (h : table.SetAlone object field value memory after) (hobject : table.Numbers object)
    (hfield : table.HasField field) (hne : other = object → otherField ≠ field) :
    table.readField after other otherField = table.readField memory other otherField := by
  by_cases hbeside : other = object ∧ ∃ number another, field = .attr number ∧
      otherField = .attr another ∧ number.toNat / 8 = another.toNat / 8
  case pos =>
    obtain ⟨rfl, number, another, rfl, rfl, hbyte⟩ := hbeside
    exact h.beside number another rfl (fun heq => hne rfl (congrArg Field.attr heq)) hbyte
  case neg =>
    refine readField_congr h.same.story_eq fun hother hotherField address hin =>
      h.same.byteAt_eq address fun hset => ?_
    have hoffset := fieldOffset_le hfield
    have hoffset' := fieldOffset_le hotherField
    have hdescription := table.descriptionOffset_le
    unfold InField at hin hset
    by_cases hsame : other = object
    · subst hsame
      have hattrs : ∀ number another, field = .attr number → otherField = .attr another →
          number.toNat / 8 ≠ another.toNat / 8 :=
        fun number another hnumber hanother hbyte =>
          hbeside ⟨rfl, number, another, hnumber, hanother, hbyte⟩
      have hdisjoint := fieldOffset_disjoint (hne rfl) hattrs hfield hotherField
      omega
    · have hdisjoint := entryAt_disjoint hobject hother hsame
      omega

/-- Every object has its properties where it had them. -/
theorem SetAlone.description_eq {value : field.Value}
    (h : table.SetAlone object field value memory after) (hobject : table.Numbers object)
    (hfield : table.HasField field) (other : Word) :
    table.description after other = table.description memory other := by
  refine description_congr h.same.story_eq fun hother address hle hlt =>
    h.same.byteAt_eq address fun hset => ?_
  have hoffset := fieldOffset_le hfield
  have hdescription := table.descriptionOffset_le
  unfold InField at hset
  by_cases hsame : other = object
  · subst hsame
    omega
  · have hdisjoint := entryAt_disjoint hobject hother hsame
    omega

/-- The default values are what they were. -/
theorem SetAlone.defaultValue_eq {value : field.Value}
    (h : table.SetAlone object field value memory after) (number : Word) :
    table.defaultValue after number = table.defaultValue memory number := by
  refine defaultValue_congr h.same.story_eq (fun address hlt =>
    h.same.byteAt_eq address fun hset => ?_) number
  have hdefaults := table.defaults_le_entryAt object
  unfold InField at hset
  omega

/-- **A field that is set changes nothing else.**  An attribute or a link of an object in dynamic
memory can be set, and reads as what it was set to if there is room for that: links of the small
layout hold no more than 255.  Every other field, of the object and of any other, the address of the
properties of any object, and all default values read as before; and no byte changes but those of the
field. -/
theorem field_set_alone (hobject : table.Numbers object) (hfield : table.HasField field)
    (hdynamic : table.entryAt object + table.entrySize ≤ draft.memory.dynamicCeiling)
    (value : field.Value) :
    ∃ after, Work.on (table.setField object field value) draft
        = (.ok (), { draft with memory := after }) ∧
      (table.HasRoom field value → table.readField after object field = .ok value) ∧
      (∀ other otherField, (other = object → otherField ≠ field) →
        table.readField after other otherField = table.readField draft.memory other otherField) ∧
      (∀ other, table.description after other = table.description draft.memory other) ∧
      (∀ number, table.defaultValue after number = table.defaultValue draft.memory number) ∧
      Memory.SameOff (table.InField object field) draft.memory after := by
  obtain ⟨after, hset, halone⟩ := on_setField hobject hfield hdynamic value
  refine ⟨after, hset, halone.read_eq, ?others, ?descriptions, ?defaults, halone.same⟩
  case others =>
    intro other otherField hne
    exact halone.readField_eq hobject hfield hne
  case descriptions =>
    intro other
    exact halone.description_eq hobject hfield other
  case defaults =>
    intro number
    exact halone.defaultValue_eq number

/-- Work on the memory of the family that has not begun. -/
def familyDraft : Draft := { memory := familyMemory }

/-- An attribute of the third of the family is set, and others of the same byte are not. -/
theorem field_set_alone_third :
    family.Numbers 3 ∧ family.HasField (.attr 5) ∧
      family.entryAt 3 + family.entrySize ≤ familyDraft.memory.dynamicCeiling ∧
      ∃ after, Work.on (family.setAttribute 3 5 true) familyDraft
          = (.ok (), { familyDraft with memory := after }) ∧
        family.testAttribute after 3 5 = .ok true ∧
        family.testAttribute after 3 4 = .ok false ∧
        family.testAttribute after 3 6 = .ok false ∧
        family.link after 3 .child = .ok 5 ∧
        family.link after 4 .parent = .ok 1 := by
  have hobject : family.Numbers 3 := by
    unfold Numbers
    decide
  have hfield : family.HasField (.attr 5) := by
    unfold HasField
    decide
  have hdynamic : family.entryAt 3 + family.entrySize ≤ familyDraft.memory.dynamicCeiling := by
    decide +kernel
  obtain ⟨after, hset, hread, hothers, -⟩ := field_set_alone hobject hfield hdynamic true
  refine ⟨hobject, hfield, hdynamic, after, hset, hread trivial, ?_, ?_, ?_, ?_⟩
  · exact (hothers 3 (.attr 4) fun _ => by decide).trans (eq_ok_of_toOption (by decide +kernel))
  · exact (hothers 3 (.attr 6) fun _ => by decide).trans (eq_ok_of_toOption (by decide +kernel))
  · exact (hothers 3 (.link .child) fun _ => by decide).trans
      (eq_ok_of_toOption (by decide +kernel))
  · exact (hothers 4 (.link .parent) fun h => absurd h (by decide)).trans
      (eq_ok_of_toOption (by decide +kernel))

end ObjectTable

end StoryMachine
