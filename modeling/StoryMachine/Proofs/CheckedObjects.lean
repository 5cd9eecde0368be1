import StoryMachine.ObjectTable
import StoryMachine.Proofs.CheckedMemory

/-!
# Objects with checked addresses

The entry of an object is found by its number, a link and an attribute by their place in
the entry, and a property by walking from header to header.  Here all of these addresses
are computed in 64 bits, with the number of an object or of a property taken down by one.

A table begins below 2^16 and has at most that many objects, so entries stay below 2^21
(`lt_of_entry`).  A walk along a list of properties only goes on from a header that it has
read, so it never is far from memory (`property_lt`).
-/

namespace StoryMachine.CheckedObjects

open Checked CheckedEdit

/-- The address of the entry of an object. -/
def entry (table : ObjectTable) (object : Word) : Checked Nat :=
  if object = 0 ∨ (table.isSmall ∧ 255 < object) then
    throw { kind := .badOperands, detail := s!"OBJECT {object}" }
  else do
    let size := if table.isSmall then 9 else 14
    let first ← sum table.address (2 * table.defaults)
    let before ← difference object.toNat 1
    let far ← product size before
    sum first far

/-- The address of a link within an entry. -/
def linkAddress {m : Type → Type} [Monad m] [Breaks m] (table : ObjectTable) (entry : Nat)
    (link : Link) : m Nat := do
  if table.isSmall then
    let first ← sum entry 4
    sum first link.index
  else
    let first ← sum entry 6
    let far ← product 2 link.index
    sum first far

/-- Follows a link. -/
def link (table : ObjectTable) (memory : Memory) (object : Word) (link : Link) : Checked Word := do
  let entry ← entry table object
  let address ← linkAddress table entry link
  if table.isSmall then
    let b ← inRange (memory.readByte address)
    return b.toUInt16
  else memory.readWordAt address

/-- Sets a link. -/
def setLink (table : ObjectTable) (object : Word) (link : Link) (value : Word) :
    CheckedWork Draft Unit := do
  let entry ← look fun _ => entry table object
  let address ← linkAddress table entry link
  if table.isSmall then writeByte address value.toUInt8 else writeWord address value

/-- The address and mask of an attribute. -/
def attributePlace (table : ObjectTable) (object number : Word) : Checked (Nat × UInt8) :=
  if table.attributes ≤ number.toNat then
    throw { kind := .badOperands, detail := s!"ATTRIBUTE {number}" }
  else do
    let entry ← entry table object
    let address ← sum entry (number.toNat / 8)
    return (address, 0x80 >>> (number.toNat % 8).toUInt8)

/-- Whether an object has an attribute. -/
def testAttribute (table : ObjectTable) (memory : Memory) (object number : Word) :
    Checked Bool := do
  let (address, mask) ← attributePlace table object number
  let b ← inRange (memory.readByte address)
  return b &&& mask != 0

/-- Gives an attribute to an object or takes it away. -/
def setAttribute (table : ObjectTable) (object number : Word) (on : Bool) :
    CheckedWork Draft Unit := do
  let (address, mask) ← look fun _ => attributePlace table object number
  let old ← look fun memory => inRange (memory.readByte address)
  writeByte address (if on then old ||| mask else old &&& ~~~mask)

/-- The sibling before an object. -/
def elder (table : ObjectTable) (memory : Memory) (object parent : Word) :
    (visits : Nat) → (current : Word) → Checked Word
  | 0, _ => throw { kind := .endlessChain, detail := s!"CHILDREN OF OBJECT {parent}" }
  | visits + 1, current =>
    if current = 0 then
      throw { kind := .corruptImage,
              detail := s!"OBJECT {object} NOT AMONG CHILDREN OF {parent}" }
    else do
      let next ← link table memory current .sibling
      if next = object then return current
      else elder table memory object parent visits next

/-- Takes an object out of the tree, with its children. -/
def remove (table : ObjectTable) (object : Word) : CheckedWork Draft Unit := do
  let parent ← look (link table · object .parent)
  if parent ≠ 0 then
    let sibling ← look (link table · object .sibling)
    let first ← look (link table · parent .child)
    if first = object then
      setLink table parent .child sibling
    else
      let elder ← look (elder table · object parent ObjectTable.maxChildren first)
      setLink table elder .sibling sibling
    setLink table object .parent 0
    setLink table object .sibling 0

/-- Makes an object the first child of another. -/
def insert (table : ObjectTable) (object destination : Word) : CheckedWork Draft Unit := do
  remove table object
  let first ← look (link table · destination .child)
  setLink table object .sibling first
  setLink table object .parent destination
  setLink table destination .child object

/-- The address of the name and properties of an object. -/
def description (table : ObjectTable) (memory : Memory) (object : Word) : Checked Nat := do
  let entry ← entry table object
  let place ← sum entry (if table.isSmall then 7 else 12)
  let word ← memory.readWordAt place
  return word.toNat

/-- The address of the short name of an object. -/
def name (table : ObjectTable) (memory : Memory) (object : Word) : Checked Nat := do
  let address ← description table memory object
  sum address 1

/-- Whether an object has no short name. -/
def nameIsEmpty (table : ObjectTable) (memory : Memory) (object : Word) : Checked Bool := do
  let address ← description table memory object
  let b ← inRange (memory.readByte address)
  return b == 0

/-- The property whose header is at an address. -/
def property (table : ObjectTable) (memory : Memory) (address : Nat) : Checked Property := do
  let size ← inRange (memory.readByte address)
  if table.isSmall then
    let data ← sum address 1
    let length ← sum (size >>> 5).toNat 1
    return ⟨(size &&& 0x1f).toUInt16, data, length⟩
  else if size &&& 0x80 ≠ 0 then
    let next ← sum address 1
    let second ← inRange (memory.readByte next)
    let data ← sum address 2
    return ⟨(size &&& 0x3f).toUInt16, data, ObjectTable.longLength second⟩
  else
    let data ← sum address 1
    return ⟨(size &&& 0x3f).toUInt16, data, if size &&& 0x40 ≠ 0 then 2 else 1⟩

/-- The address of the first property header of an object. -/
def firstProperty (table : ObjectTable) (memory : Memory) (object : Word) : Checked Nat := do
  let address ← description table memory object
  let nameWords ← inRange (memory.readByte address)
  let first ← sum address 1
  let length ← product 2 nameWords.toNat
  sum first length

/-- Looks for a property in the list at an address. -/
def findFrom (table : ObjectTable) (memory : Memory) (number : Word) : (left address : Nat) →
    Checked (Option Property)
  | 0, address => throw (memory.outOfBounds address)
  | left + 1, address => do
    let found ← property table memory address
    if found.number = number then return some found
    else if found.number < number then return none
    else
      let next ← sum found.data found.length
      findFrom table memory number left next

/-- Looks for a property of an object. -/
def find? (table : ObjectTable) (memory : Memory) (object number : Word) :
    Checked (Option Property) :=
  if number = 0 then pure none
  else do
    let address ← firstProperty table memory object
    findFrom table memory number (memory.size - address) address

/-- The default value of a property. -/
def defaultValue (table : ObjectTable) (memory : Memory) (number : Word) : Checked Word :=
  if number = 0 ∨ table.defaults < number.toNat then
    throw { kind := .badOperands, detail := s!"PROPERTY {number}" }
  else do
    let before ← difference number.toNat 1
    let far ← product 2 before
    let address ← sum table.address far
    memory.readWordAt address

/-- The value of a property and its length. -/
def getProperty (table : ObjectTable) (memory : Memory) (object number : Word) :
    Checked (Word × Nat) := do
  match ← find? table memory object number with
  | some found =>
    if found.length = 1 then
      let b ← inRange (memory.readByte found.data)
      return (b.toUInt16, 1)
    else
      let word ← memory.readWordAt found.data
      return (word, found.length)
  | none =>
    let word ← defaultValue table memory number
    return (word, 0)

/-- Sets the value of a property. -/
def putProperty (table : ObjectTable) (object number value : Word) : CheckedWork Draft Bool := do
  match ← look (find? table · object number) with
  | some found =>
    if found.length = 1 then writeByte found.data value.toUInt8
    else writeWord found.data value
    return true
  | none => return false

/-- The address of the data of a property. -/
def propertyAddress (table : ObjectTable) (memory : Memory) (object number : Word) :
    Checked Word := do
  match ← find? table memory object number with
  | some found => return found.data.toUInt16
  | none => return 0

/-- The length of the property whose data starts at an address. -/
def propertyLength (table : ObjectTable) (memory : Memory) (data : Nat) : Checked Word :=
  if data = 0 then pure 0
  else do
    let header ← difference data 1
    let size ← inRange (memory.readByte header)
    if table.isSmall then
      let length ← fitting 16 ((size >>> 5).toNat + 1)
      return length.toUInt16
    else if size &&& 0x80 ≠ 0 then return (ObjectTable.longLength size).toUInt16
    else return if size &&& 0x40 ≠ 0 then 2 else 1

/-- The number of the property after a given one, or of the first after zero. -/
def nextProperty (table : ObjectTable) (memory : Memory) (object number : Word) :
    Checked (Option Word) := do
  if number = 0 then
    let address ← firstProperty table memory object
    let next ← property table memory address
    return some next.number
  else
    match ← find? table memory object number with
    | some found =>
      let address ← sum found.data found.length
      let next ← property table memory address
      return some next.number
    | none => return none

/-! ## Entries -/

variable {table : ObjectTable} {memory : Memory}

/-- A table begins below 2^16, and no object has an entry above 2^21. -/
theorem lt_of_entry (htable : table.address < 0x10000) {object : Word} {address : Nat}
    (h : table.entry object = .ok address) : address < 0x200000 := by
  have hobject := object.toNat_lt
  have hdefaults : table.defaults ≤ 63 := by
    unfold ObjectTable.defaults
    split <;> decide
  unfold ObjectTable.entry at h
  split at h
  · exact nomatch h
  · obtain rfl := Except.ok.inj h
    split <;> omega

/-- The entry of an object has its address in its range. -/
theorem entry_eq (htable : table.address < 0x10000) (object : Word) :
    entry table object = inRange (table.entry object) := by
  have hobject := object.toNat_lt
  have hdefaults : table.defaults ≤ 63 := by
    unfold ObjectTable.defaults
    split <;> decide
  unfold entry ObjectTable.entry
  split
  · rfl
  · rename_i hnumber
    have hpos : 1 ≤ object.toNat := Nat.pos_of_ne_zero fun hzero =>
      hnumber (.inl (UInt16.toNat.inj hzero))
    have hsize : (if table.isSmall then 9 else 14) ≤ 14 := by split <;> decide
    have hbefore := Nat.lt_of_le_of_lt (Nat.sub_le object.toNat 1) hobject
    have hfar := Nat.mul_le_mul hsize (Nat.le_of_lt hbefore)
    rw [sum_of_lt (by omega), pure_bind, difference_of_le hpos, pure_bind,
      product_of_lt (by omega), pure_bind, sum_of_lt (by omega)]
    rfl

/-- A link has its address in its range. -/
theorem linkAddress_eq {m : Type → Type} [Monad m] [LawfulMonad m] [Breaks m] {entry : Nat}
    (hentry : entry < 0x200000) (link : Link) :
    (linkAddress table entry link : m Nat) = pure (table.linkAddress entry link) := by
  have hindex : link.index ≤ 2 := by cases link <;> decide
  unfold linkAddress ObjectTable.linkAddress
  split
  · rw [sum_of_lt (by omega), pure_bind, sum_of_lt (by omega)]
  · rw [sum_of_lt (by omega), pure_bind, product_of_lt (by omega), pure_bind,
      sum_of_lt (by omega)]

/-- A link lies just behind the beginning of an entry. -/
theorem linkAddress_lt {entry : Nat} (hentry : entry < 0x200000) (link : Link) :
    table.linkAddress entry link < 0x200010 := by
  have hindex : link.index ≤ 2 := by cases link <;> decide
  unfold ObjectTable.linkAddress
  split <;> omega

/-- A link is followed with its address in its range. -/
theorem link_eq (htable : table.address < 0x10000) (object : Word) (link : Link) :
    CheckedObjects.link table memory object link = inRange (table.link memory object link) := by
  rw [CheckedObjects.link, entry_eq htable]
  refine bind_congr_inRange fun entry hentry => ?_
  have hlt := lt_of_entry htable hentry
  have hplace := @linkAddress_lt table entry hlt link
  rw [linkAddress_eq hlt, pure_bind]
  split
  · exact bind_congr_inRange fun b _ => rfl
  · exact Memory.readWordAt_eq (by omega)

/-- Work that follows a link checked follows the work that follows it. -/
theorem follows_link (htable : table.address < 0x10000) (object : Word) (link : Link) :
    Follows Draft.upkeep (look (CheckedObjects.link table · object link))
      (Edit.look (table.link · object link)) :=
  follows_look (fun _ _ => link_eq htable object link) fun _ _ _ _ => trivial

/-- A link is set with its address in its range. -/
theorem follows_setLink (htable : table.address < 0x10000) (object : Word) (link : Link)
    (value : Word) :
    Follows Draft.upkeep (setLink table object link value) (table.setLink object link value) := by
  refine .bind (follows_look (fun _ _ => entry_eq htable object)
    (P := fun entry => entry < 0x200000) fun _ _ _ => lt_of_entry htable) fun entry hentry => ?_
  have hplace := @linkAddress_lt table entry hentry link
  rw [linkAddress_eq hentry link, pure_bind]
  exact .ite (fun _ => (follows_writeByte _ _).imp fun _ _ => trivial)
    fun _ => (follows_writeWord (by omega) _).imp fun _ _ => trivial

/-! ## Attributes -/

/-- An attribute lies in the first bytes of an entry. -/
theorem attributePlace_eq (htable : table.address < 0x10000) (object number : Word) :
    attributePlace table object number = inRange (table.attributePlace object number) := by
  have hnumber := number.toNat_lt
  unfold attributePlace ObjectTable.attributePlace
  split
  · rfl
  · rw [entry_eq htable]
    refine bind_congr_inRange fun entry hentry => ?_
    have hlt := lt_of_entry htable hentry
    rw [sum_of_lt (by omega)]
    rfl

/-- An attribute is tested with its place in its range. -/
theorem testAttribute_eq (htable : table.address < 0x10000) (object number : Word) :
    testAttribute table memory object number
      = inRange (table.testAttribute memory object number) := by
  rw [testAttribute, attributePlace_eq htable]
  exact bind_congr_inRange fun place _ => bind_congr_inRange fun b _ => rfl

/-- An attribute is set with its place in its range. -/
theorem follows_setAttribute (htable : table.address < 0x10000) (object number : Word) (on : Bool) :
    Follows Draft.upkeep (setAttribute table object number on)
      (table.setAttribute object number on) := by
  refine .bind (P := fun _ => True) (follows_look (fun _ _ => attributePlace_eq htable _ _)
    fun _ _ _ _ => trivial) fun place _ => ?_
  exact (follows_readByte _).bind fun old _ => (follows_writeByte _ _).imp fun _ _ => trivial

/-! ## The tree -/

/-- The elder sibling is looked for with addresses in their range, step by step. -/
theorem elder_eq (htable : table.address < 0x10000) (object parent : Word) (visits : Nat)
    (current : Word) :
    elder table memory object parent visits current
      = inRange (table.elder memory object parent visits current) := by
  induction visits generalizing current with
  | zero => rfl
  | succ visits ih =>
      rw [elder, ObjectTable.elder]
      split
      · rfl
      · rw [link_eq htable]
        refine bind_congr_inRange fun next _ => ?_
        split
        · rfl
        · exact ih next

/-- An object is taken out with addresses in their range. -/
theorem follows_remove (htable : table.address < 0x10000) (object : Word) :
    Follows Draft.upkeep (remove table object) (table.remove object) := by
  have hend : Follows Draft.upkeep (do
      setLink table object .parent 0
      setLink table object .sibling 0) (do
      table.setLink object .parent 0
      table.setLink object .sibling 0) :=
    (follows_setLink htable _ _ _).bind fun _ _ => follows_setLink htable _ _ _
  refine (follows_link htable _ _).bind fun parent _ => .ite (fun _ => ?_) fun _ => .pure trivial
  refine (follows_link htable _ _).bind fun sibling _ => (follows_link htable _ _).bind
    fun first _ => .ite (fun _ => ?_) fun _ => ?_
  · exact (follows_setLink htable _ _ _).bind fun _ _ => hend
  · exact .bind (P := fun _ => True) (follows_look (fun _ _ => elder_eq htable _ _ _ _)
      fun _ _ _ _ => trivial) fun elder _ => (follows_setLink htable _ _ _).bind fun _ _ => hend

/-- An object is inserted with addresses in their range. -/
theorem follows_insert (htable : table.address < 0x10000) (object destination : Word) :
    Follows Draft.upkeep (insert table object destination) (table.insert object destination) :=
  (follows_remove htable object).bind fun _ _ => (follows_link htable _ _).bind fun _ _ =>
    (follows_setLink htable _ _ _).bind fun _ _ => (follows_setLink htable _ _ _).bind
      fun _ _ => follows_setLink htable _ _ _

/-! ## Descriptions -/

/-- The description of an object is read with its address in its range. -/
theorem description_eq (htable : table.address < 0x10000) (object : Word) :
    description table memory object = inRange (table.description memory object) := by
  rw [description, entry_eq htable]
  refine bind_congr_inRange fun entry hentry => ?_
  have hlt := lt_of_entry htable hentry
  have hplace : entry + (if table.isSmall then 7 else 12)
      = if table.isSmall then entry + 7 else entry + 12 := by split <;> rfl
  have hword : (if table.isSmall then entry + 7 else entry + 12) < 0x200010 := by split <;> omega
  rw [sum_of_lt (by omega), pure_bind, hplace, Memory.readWordAt_eq (by omega)]
  exact bind_congr_inRange fun word _ => rfl

/-- A description is where a word says. -/
theorem lt_of_description {object : Word} {address : Nat}
    (h : table.description memory object = .ok address) : address < 0x10000 := by
  obtain ⟨entry, -, h⟩ := bind_eq_ok.mp h
  obtain ⟨word, -, h⟩ := bind_eq_ok.mp h
  obtain rfl := Except.ok.inj h
  exact word.toNat_lt

/-- The name of an object has its address in its range. -/
theorem name_eq (htable : table.address < 0x10000) (object : Word) :
    name table memory object = inRange (table.name memory object) := by
  rw [name, description_eq htable]
  refine bind_congr_inRange fun address haddress => ?_
  have hlt := lt_of_description haddress
  exact sum_of_lt (by omega)

/-- A name is near its description. -/
theorem lt_of_name {object : Word} {address : Nat} (h : table.name memory object = .ok address) :
    address < 0x10001 := by
  obtain ⟨description, hdescription, h⟩ := bind_eq_ok.mp h
  have hlt := lt_of_description hdescription
  obtain rfl := Except.ok.inj h
  omega

/-- The length of a name is read with its address in its range. -/
theorem nameIsEmpty_eq (htable : table.address < 0x10000) (object : Word) :
    nameIsEmpty table memory object = inRange (table.nameIsEmpty memory object) := by
  rw [nameIsEmpty, description_eq htable]
  exact bind_congr_inRange fun address _ => bind_congr_inRange fun b _ => rfl

/-! ## Properties -/

/-- A size byte tells at most 64. -/
theorem longLength_le (size : UInt8) : ObjectTable.longLength size ≤ 64 := by
  unfold ObjectTable.longLength
  split
  · exact Nat.le_refl _
  · have hmask : (size &&& 0x3f).toNat ≤ 0x3f := by
      rw [UInt8.toNat_and]
      exact Nat.and_le_right
    omega

section

variable (hroom : memory.Addressable)
include hroom

/-- A property header is read with its addresses in their range. -/
theorem property_eq (address : Nat) :
    property table memory address = inRange (table.property memory address) := by
  refine bind_congr_inRange fun size hsize => ?_
  have hle := Nat.le_of_lt (Memory.lt_of_readByte hsize)
  have hlength := (size >>> 5).toNat_lt
  split
  · rw [hroom.sum_eq hle (by decide), pure_bind, sum_of_lt (by omega)]
    rfl
  split
  · rw [hroom.sum_eq hle (by decide), pure_bind]
    refine bind_congr_inRange fun second _ => ?_
    rw [hroom.sum_eq hle (by decide)]
    rfl
  · rw [hroom.sum_eq hle (by decide)]
    rfl

/-- A property that has a header in memory is not far from memory. -/
theorem property_lt {address : Nat} {found : Property}
    (h : table.property memory address = .ok found) : found.data + found.length < 2 ^ 63 := by
  have hsize : memory.size + 0x8000 ≤ 2 ^ 63 := hroom
  obtain ⟨size, hread, h⟩ := bind_eq_ok.mp h
  have hlt := Memory.lt_of_readByte hread
  have hlength := (size >>> 5).toNat_lt
  split at h
  · obtain rfl := Except.ok.inj h
    dsimp only
    omega
  split at h
  · obtain ⟨second, -, h⟩ := bind_eq_ok.mp h
    have hlong := longLength_le second
    obtain rfl := Except.ok.inj h
    dsimp only
    omega
  · obtain rfl := Except.ok.inj h
    dsimp only
    split <;> omega

/-- A property is looked for with addresses in their range, header by header. -/
theorem findFrom_eq (number : Word) (left address : Nat) :
    findFrom table memory number left address
      = inRange (table.findFrom memory number left address) := by
  induction left generalizing address with
  | zero => rfl
  | succ left ih =>
      rw [findFrom, ObjectTable.findFrom, property_eq hroom]
      refine bind_congr_inRange fun found hfound => ?_
      have hlt := property_lt hroom hfound
      split
      · rfl
      split
      · rfl
      · rw [sum_of_lt (by omega), pure_bind]
        exact ih _

/-- What is found on the walk is a property with a header in memory. -/
theorem findFrom_lt {number : Word} {left address : Nat} {found : Property}
    (h : table.findFrom memory number left address = .ok (some found)) :
    found.data + found.length < 2 ^ 63 := by
  induction left generalizing address with
  | zero => exact nomatch h
  | succ left ih =>
      rw [ObjectTable.findFrom] at h
      obtain ⟨here, hhere, h⟩ := bind_eq_ok.mp h
      split at h
      · obtain rfl := Option.some.inj (Except.ok.inj h)
        exact property_lt hroom hhere
      split at h
      · exact nomatch h
      · exact ih h

variable (htable : table.address < 0x10000)
include htable

omit hroom in
/-- The first property has its address in its range. -/
theorem firstProperty_eq (object : Word) :
    firstProperty table memory object = inRange (table.firstProperty memory object) := by
  rw [firstProperty, description_eq htable]
  refine bind_congr_inRange fun address haddress => bind_congr_inRange fun nameWords _ => ?_
  have hlt := lt_of_description haddress
  have hwords := nameWords.toNat_lt
  rw [sum_of_lt (by omega), pure_bind, product_of_lt (by omega), pure_bind]
  exact sum_of_lt (by omega)

/-- A property is found with addresses in their range. -/
theorem find?_eq (object number : Word) :
    find? table memory object number = inRange (table.find? memory object number) := by
  unfold find? ObjectTable.find?
  split
  · rfl
  · rw [firstProperty_eq htable]
    exact bind_congr_inRange fun address _ => findFrom_eq hroom number _ address

omit htable in
/-- A property that is found ends where its address is in its range. -/
theorem find?_lt {object number : Word} {found : Property}
    (h : table.find? memory object number = .ok (some found)) :
    found.data + found.length < 2 ^ 63 := by
  unfold ObjectTable.find? at h
  split at h
  · exact nomatch h
  · obtain ⟨address, -, h⟩ := bind_eq_ok.mp h
    exact findFrom_lt hroom h

omit hroom in
/-- A default is read with its address in its range. -/
theorem defaultValue_eq (number : Word) :
    defaultValue table memory number = inRange (table.defaultValue memory number) := by
  have hnumber := number.toNat_lt
  unfold defaultValue ObjectTable.defaultValue
  split
  · rfl
  · rename_i hzero
    have hpos : 1 ≤ number.toNat := Nat.pos_of_ne_zero fun h => hzero (.inl (UInt16.toNat.inj h))
    rw [difference_of_le hpos, pure_bind, product_of_lt (by omega), pure_bind,
      sum_of_lt (by omega), pure_bind]
    exact Memory.readWordAt_eq (by omega)

/-- The value of a property is read with its addresses in their range. -/
theorem getProperty_eq (object number : Word) :
    getProperty table memory object number = inRange (table.getProperty memory object number) := by
  rw [getProperty, find?_eq hroom htable]
  refine bind_congr_inRange fun found? hfound => ?_
  cases found? with
  | none =>
      dsimp only
      rw [defaultValue_eq htable]
      exact bind_congr_inRange fun word _ => rfl
  | some found =>
      have hlt := find?_lt hroom hfound
      dsimp only
      split
      · exact bind_congr_inRange fun b _ => rfl
      · rw [Memory.readWordAt_eq (by omega)]
        exact bind_congr_inRange fun word _ => rfl

/-- The address of a property is computed in its range. -/
theorem propertyAddress_eq (object number : Word) :
    propertyAddress table memory object number
      = inRange (table.propertyAddress memory object number) := by
  rw [propertyAddress, find?_eq hroom htable]
  refine bind_congr_inRange fun found? _ => ?_
  cases found? <;> rfl

/-- The next property is read with its address in its range. -/
theorem nextProperty_eq (object number : Word) :
    nextProperty table memory object number
      = inRange (table.nextProperty memory object number) := by
  unfold nextProperty ObjectTable.nextProperty
  split
  · rw [firstProperty_eq htable]
    refine bind_congr_inRange fun address _ => ?_
    rw [property_eq hroom]
    exact bind_congr_inRange fun next _ => rfl
  · rw [find?_eq hroom htable]
    refine bind_congr_inRange fun found? hfound => ?_
    cases found? with
    | none => rfl
    | some found =>
        have hlt := find?_lt hroom hfound
        dsimp only
        rw [sum_of_lt (by omega), pure_bind, property_eq hroom]
        exact bind_congr_inRange fun next _ => rfl

end

/-- The length of a property is read off the byte before its data. -/
theorem propertyLength_eq (data : Nat) :
    propertyLength table memory data = inRange (table.propertyLength memory data) := by
  unfold propertyLength ObjectTable.propertyLength
  split
  · rfl
  · rw [difference_of_le (by omega), pure_bind]
    refine bind_congr_inRange fun size _ => ?_
    have hlength := (size >>> 5).toNat_lt
    split
    · have hsame : ((size >>> 5).toNat + 1).toUInt16 = (size >>> 5).toUInt16 + 1 := by
        apply UInt16.toNat.inj
        simp
      rw [fitting_of_lt (by omega), pure_bind, hsame]
      rfl
    split <;> rfl

/-- A property is set with its addresses in their range. -/
theorem follows_putProperty (htable : table.address < 0x10000) (object number value : Word) :
    Follows Draft.upkeep (putProperty table object number value)
      (table.putProperty object number value) := by
  refine .bind (follows_look (fun _ hroom => find?_eq hroom htable object number)
    (P := fun found? => ∀ found, found? = some found → found.data + found.length < 2 ^ 63)
    fun memory found? hroom hfound found hsome => ?_) fun found? hfound => ?_
  · rw [hsome] at hfound
    exact find?_lt hroom hfound
  · cases found? with
    | none => exact .pure trivial
    | some found =>
        have hlt := hfound found rfl
        exact .ite (fun _ => (follows_writeByte _ _).bind fun _ _ => .pure trivial)
          fun _ => (follows_writeWord (by omega) _).bind fun _ _ => .pure trivial

end StoryMachine.CheckedObjects
