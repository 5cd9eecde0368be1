import StoryMachine.Edit

/-!
# Objects

A story's objects form a forest.  Each object has a parent, a next sibling and a
first child, a set of attributes, and a list of properties in descending order.
Version 3 uses nine byte entries with byte sized links and 32 attributes, later
versions fourteen byte entries with word sized links and 48 attributes.  A table
of default property values comes before the entries.

The story can write all of this, so nothing is assumed about it: a chain of
siblings may lead anywhere or into a circle.  The walk along it is bounded by
the number of objects there can be, and one that goes beyond has no end.
-/

namespace StoryMachine

/-- Where the objects of a story are, and in which layout. -/
structure ObjectTable where
  version : Nat
  address : Nat
  deriving DecidableEq

/-- The links of an object. -/
inductive Link where
  | parent
  | sibling
  | child
  deriving DecidableEq

/-- The place of a link among the links of an entry. -/
def Link.index : Link → Nat
  | parent => 0
  | sibling => 1
  | child => 2

/-- A property as it stands in a list: number, address of its data, length. -/
structure Property where
  number : Word
  data : Nat
  length : Nat
  deriving DecidableEq

namespace ObjectTable

variable (table : ObjectTable)

/-- Whether the table has the layout of version 3. -/
def isSmall : Bool := table.version ≤ 3

/-- How many default property values there are. -/
def defaults : Nat := if table.isSmall then 31 else 63

/-- How many attributes an object has. -/
def attributes : Nat := if table.isSmall then 32 else 48

/-- The address of the entry of an object. -/
def entry (object : Word) : Except Fault Nat :=
  if object = 0 ∨ (table.isSmall ∧ 255 < object) then
    .error { kind := .badOperands, detail := s!"OBJECT {object}" }
  else
    let size := if table.isSmall then 9 else 14
    .ok (table.address + 2 * table.defaults + size * (object.toNat - 1))

/-- The address of a link within an entry. -/
def linkAddress (entry : Nat) (link : Link) : Nat :=
  if table.isSmall then entry + 4 + link.index else entry + 6 + 2 * link.index

/-- Follows a link. -/
def link (memory : Memory) (object : Word) (link : Link) : Except Fault Word := do
  let address := table.linkAddress (← table.entry object) link
  if table.isSmall then return (← memory.readByte address).toUInt16
  else memory.readWord address

/-- Sets a link. -/
def setLink (object : Word) (link : Link) (value : Word) : Edit Unit := do
  let entry ← Edit.look fun _ => table.entry object
  let address := table.linkAddress entry link
  if table.isSmall then Edit.writeByte address value.toUInt8
  else Edit.writeWord address value

/-- The address and mask of an attribute.  Attributes are numbered from the top
bit of the first byte. -/
def attributePlace (object number : Word) : Except Fault (Nat × UInt8) :=
  if table.attributes ≤ number.toNat then
    .error { kind := .badOperands, detail := s!"ATTRIBUTE {number}" }
  else do
    let entry ← table.entry object
    return (entry + number.toNat / 8, 0x80 >>> (number.toNat % 8).toUInt8)

/-- Whether an object has an attribute. -/
def testAttribute (memory : Memory) (object number : Word) : Except Fault Bool := do
  let (address, mask) ← table.attributePlace object number
  return (← memory.readByte address) &&& mask != 0

/-- Gives an attribute to an object or takes it away. -/
def setAttribute (object number : Word) (on : Bool) : Edit Unit := do
  let (address, mask) ← Edit.look fun _ => table.attributePlace object number
  let old ← Edit.look (·.readByte address)
  Edit.writeByte address (if on then old ||| mask else old &&& ~~~mask)

/-- The sibling before an object, looking at no more than `visits` children of
`parent` from `current` on. -/
def elder (memory : Memory) (object parent : Word) : (visits : Nat) → (current : Word) →
    Except Fault Word
  | 0, _ =>
    .error { kind := .endlessChain, detail := s!"CHILDREN OF OBJECT {parent}" }
  | visits + 1, current =>
    if current = 0 then
      .error { kind := .corruptImage,
               detail := s!"OBJECT {object} NOT AMONG CHILDREN OF {parent}" }
    else do
      let next ← table.link memory current .sibling
      if next = object then return current
      else elder memory object parent visits next

/-- More children than any object can have. -/
def maxChildren : Nat := 65536

/-- Takes an object out of the tree, with its children. -/
def remove (object : Word) : Edit Unit := do
  let parent ← Edit.look (table.link · object .parent)
  if parent ≠ 0 then
    let sibling ← Edit.look (table.link · object .sibling)
    let first ← Edit.look (table.link · parent .child)
    if first = object then
      table.setLink parent .child sibling
    else
      let elder ← Edit.look (table.elder · object parent maxChildren first)
      table.setLink elder .sibling sibling
    table.setLink object .parent 0
    table.setLink object .sibling 0

/-- Makes an object the first child of another. -/
def insert (object destination : Word) : Edit Unit := do
  table.remove object
  let first ← Edit.look (table.link · destination .child)
  table.setLink object .sibling first
  table.setLink object .parent destination
  table.setLink destination .child object

/-- The address of the name and properties of an object. -/
def description (memory : Memory) (object : Word) : Except Fault Nat := do
  let entry ← table.entry object
  return (← memory.readWord (if table.isSmall then entry + 7 else entry + 12)).toNat

/-- The address of the short name of an object. -/
def name (memory : Memory) (object : Word) : Except Fault Nat := do
  return (← table.description memory object) + 1

/-- Whether an object has no short name. -/
def nameIsEmpty (memory : Memory) (object : Word) : Except Fault Bool := do
  let address ← table.description memory object
  return (← memory.readByte address) == 0

/-- The length in a size byte, where zero stands for 64. -/
def longLength (size : UInt8) : Nat :=
  if size &&& 0x3f = 0 then 64 else (size &&& 0x3f).toNat

/-- The property whose header is at an address.  Number zero ends a list. -/
def property (memory : Memory) (address : Nat) : Except Fault Property := do
  let size ← memory.readByte address
  if table.isSmall then
    return ⟨(size &&& 0x1f).toUInt16, address + 1, (size >>> 5).toNat + 1⟩
  else if size &&& 0x80 ≠ 0 then
    let second ← memory.readByte (address + 1)
    return ⟨(size &&& 0x3f).toUInt16, address + 2, longLength second⟩
  else
    return ⟨(size &&& 0x3f).toUInt16, address + 1, if size &&& 0x40 ≠ 0 then 2 else 1⟩

/-- The address of the first property header of an object. -/
def firstProperty (memory : Memory) (object : Word) : Except Fault Nat := do
  let address ← table.description memory object
  let nameWords ← memory.readByte address
  return address + 1 + 2 * nameWords.toNat

/-- Looks for a property in the list at an address.  The list is in descending
order, so a smaller number ends the search.  The count is of the bytes left to
look at: where it is zero there is no header to read. -/
def findFrom (memory : Memory) (number : Word) : (left address : Nat) →
    Except Fault (Option Property)
  | 0, address => .error (memory.outOfBounds address)
  | left + 1, address => do
    let found ← table.property memory address
    if found.number = number then return some found
    else if found.number < number then return none
    else findFrom memory number left (found.data + found.length)

/-- Looks for a property of an object.  No object has a property zero. -/
def find? (memory : Memory) (object number : Word) : Except Fault (Option Property) :=
  if number = 0 then .ok none
  else do
    let address ← table.firstProperty memory object
    table.findFrom memory number (memory.size - address) address

/-- The default value of a property. -/
def defaultValue (memory : Memory) (number : Word) : Except Fault Word :=
  if number = 0 ∨ table.defaults < number.toNat then
    .error { kind := .badOperands, detail := s!"PROPERTY {number}" }
  else memory.readWord (table.address + 2 * (number.toNat - 1))

/-- The value of a property and its length.  A property longer than two bytes
reads as its first word; a missing one as its default, with length zero. -/
def getProperty (memory : Memory) (object number : Word) : Except Fault (Word × Nat) := do
  match ← table.find? memory object number with
  | some found =>
    if found.length = 1 then return ((← memory.readByte found.data).toUInt16, 1)
    else return (← memory.readWord found.data, found.length)
  | none => return (← table.defaultValue memory number, 0)

/-- Sets the value of a property.  False if the object does not have it. -/
def putProperty (object number value : Word) : Edit Bool := do
  match ← Edit.look (table.find? · object number) with
  | some found =>
    if found.length = 1 then Edit.writeByte found.data value.toUInt8
    else Edit.writeWord found.data value
    return true
  | none => return false

/-- The address of the data of a property, zero if the object does not have it. -/
def propertyAddress (memory : Memory) (object number : Word) : Except Fault Word := do
  match ← table.find? memory object number with
  | some found => return found.data.toUInt16
  | none => return 0

/-- The length of the property whose data starts at an address, read off the byte
before it; zero for address zero. -/
def propertyLength (memory : Memory) (data : Nat) : Except Fault Word :=
  if data = 0 then .ok 0
  else do
    let size ← memory.readByte (data - 1)
    if table.isSmall then return (size >>> 5).toUInt16 + 1
    else if size &&& 0x80 ≠ 0 then return (longLength size).toUInt16
    else return if size &&& 0x40 ≠ 0 then 2 else 1

/-- The number of the property after a given one, or of the first after zero.
None if the object does not have the given one. -/
def nextProperty (memory : Memory) (object number : Word) : Except Fault (Option Word) := do
  if number = 0 then
    let address ← table.firstProperty memory object
    return some (← table.property memory address).number
  else
    match ← table.find? memory object number with
    | some found => return some (← table.property memory (found.data + found.length)).number
    | none => return none

end ObjectTable

end StoryMachine
