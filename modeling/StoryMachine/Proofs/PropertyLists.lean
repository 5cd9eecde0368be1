import Mathlib.Data.List.Pairwise
import StoryMachine.Proofs.InstructionLayout
import StoryMachine.Proofs.TableCapture

/-!
# Property lists

A property list stands in memory as headers with descending numbers, each with the data of its
property behind it, up to a header of number zero (`Listed`).  A header has one byte or two, and
says what it says in three ways (`Header`).

**The walk along a list finds what is in it** (`findFrom_of_listed`): it may stop at the first
number that is too small, since all that follow are smaller still.  What is read backwards, from
the data of a property, is the last byte of the header alone; that is why the second byte of a
long header has its top bit set (`propertyLength_of_header`).

**A value that is written hits the data of its property only**, so that the list stands there
as before (`Listed.of_sameOff`), and the values of all other properties do too.
-/

namespace StoryMachine.ObjectTable

/-- What the bytes of a property header say. -/
inductive Header : (small : Bool) → List UInt8 → (number length : Nat) → Prop
  | small (size : UInt8) : Header true [size] (size.toNat % 32) (size.toNat / 32 + 1)
  | short (size : UInt8) (h : size.toNat < 128) :
      Header false [size] (size.toNat % 64) (if size.toNat < 64 then 1 else 2)
  | long (size second : UInt8) (h : 128 ≤ size.toNat) :
      Header false [size, second] (size.toNat % 64)
        (if second.toNat % 64 = 0 then 64 else second.toNat % 64)

/-- The second byte of a header has its top bit set, if there is one. -/
def Marked (bytes : List UInt8) : Prop :=
  ∀ second, bytes[1]? = some second → 128 ≤ second.toNat

/-- From an address on stands a list of properties that ends at another. -/
inductive Listed (table : ObjectTable) (memory : Memory) (stop : Nat) :
    (address : Nat) → List Property → Prop
  | last {address length : Nat} {bytes : List UInt8} (hholds : memory.Holds address bytes)
      (hheader : Header table.isSmall bytes 0 length) (hstop : address + bytes.length = stop) :
      Listed table memory stop address []
  | property {address : Nat} {found : Property} {rest : List Property} {bytes : List UInt8}
      (hholds : memory.Holds address bytes)
      (hheader : Header table.isSmall bytes found.number.toNat found.length)
      (hmarked : Marked bytes) (hdata : found.data = address + bytes.length)
      (hnumber : 0 < found.number) (hsmaller : ∀ later ∈ rest, later.number < found.number)
      (hrest : Listed table memory stop (found.data + found.length) rest) :
      Listed table memory stop address (found :: rest)

variable {table : ObjectTable} {memory after : Memory} {stop address number length : Nat}
  {properties : List Property} {bytes : List UInt8} {small : Bool}

/-! ## Headers -/

/-- A property header takes a byte at least. -/
theorem Header.bytes_pos (h : Header small bytes number length) : 0 < bytes.length := by
  cases h <;> exact Nat.zero_lt_succ _

/-- A property has a byte at least. -/
theorem Header.length_pos (h : Header small bytes number length) : 0 < length := by
  cases h with
  | small size => exact Nat.succ_pos _
  | short size => split <;> decide
  | long size second => split <;> omega

/-- A property has 64 bytes at most. -/
theorem Header.length_le (h : Header small bytes number length) : length ≤ 64 := by
  cases h with
  | small size =>
      have hlt := size.toNat_lt
      omega
  | short size => split <;> decide
  | long size second => split <;> omega

/-- A size byte of version 3 has the number in five bits and the length in three. -/
theorem small_size (size : UInt8) :
    (size &&& 0x1f).toUInt16 = (size.toNat % 32).toUInt16 ∧
      (size >>> 5).toNat = size.toNat / 32 ∧
      (size >>> 5).toUInt16 + 1 = (size.toNat / 32 + 1).toUInt16 := by
  revert size
  exact forall_byte (by decide +kernel)

/-- A later size byte has the number in six bits and says by its top bit whether another byte
follows. -/
theorem large_size (size : UInt8) :
    (size &&& 0x3f).toUInt16 = (size.toNat % 64).toUInt16 ∧
      (size &&& 0x80 ≠ 0 ↔ 128 ≤ size.toNat) ∧
      (size.toNat < 128 → (size &&& 0x40 ≠ 0 ↔ ¬size.toNat < 64)) := by
  revert size
  exact forall_byte (by decide +kernel)

/-- The length in a second size byte is in six bits, and zero stands for 64. -/
theorem longLength_eq (size : UInt8) :
    longLength size = if size.toNat % 64 = 0 then 64 else size.toNat % 64 := by
  revert size
  exact forall_byte (by decide +kernel)

/-- A header is read as what it says. -/
theorem property_of_header (hholds : memory.Holds address bytes)
    (h : Header table.isSmall bytes number length) :
    table.property memory address = .ok ⟨number.toUInt16, address + bytes.length, length⟩ := by
  unfold property
  generalize table.isSmall = small at h
  cases h with
  | small size =>
      obtain ⟨hnumber, hlength, -⟩ := small_size size
      rw [Memory.holds_singleton.mp hholds, ← hnumber, ← hlength]
      rfl
  | short size hshort =>
      obtain ⟨hnumber, hlong, hkind⟩ := large_size size
      rw [Memory.holds_singleton.mp hholds, ← hnumber]
      simp only [bind, Except.bind, Bool.false_eq_true, if_false,
        if_neg (mt hlong.mp (Nat.not_le.mpr hshort)), hkind hshort, ite_not]
      rfl
  | long size second hsize =>
      obtain ⟨hnumber, hlong, -⟩ := large_size size
      rw [hholds.1, ← hnumber, ← longLength_eq]
      simp only [bind, Except.bind, Bool.false_eq_true, if_false, if_pos (hlong.mpr hsize),
        Memory.holds_singleton.mp hholds.2]
      rfl

/-- Read backwards from the data, the last byte of a header tells the length. -/
theorem propertyLength_of_header (hholds : memory.Holds address bytes)
    (h : Header table.isSmall bytes number length) (hmarked : Marked bytes) :
    table.propertyLength memory (address + bytes.length) = .ok length.toUInt16 := by
  have hpos := h.bytes_pos
  unfold propertyLength
  rw [if_neg (by omega)]
  generalize table.isSmall = small at h
  cases h with
  | small size =>
      obtain ⟨-, -, hlength⟩ := small_size size
      show (memory.readByte address >>= _) = _
      rw [Memory.holds_singleton.mp hholds, ← hlength]
      rfl
  | short size hshort =>
      obtain ⟨-, hlong, hkind⟩ := large_size size
      show (memory.readByte address >>= _) = _
      rw [Memory.holds_singleton.mp hholds]
      simp only [bind, Except.bind, Bool.false_eq_true, if_false,
        if_neg (mt hlong.mp (Nat.not_le.mpr hshort)), hkind hshort, ite_not]
      split <;> rfl
  | long size second hsize =>
      obtain ⟨-, hlong, -⟩ := large_size second
      show (memory.readByte (address + 1) >>= _) = _
      rw [Memory.holds_singleton.mp hholds.2, ← longLength_eq]
      simp only [bind, Except.bind, Bool.false_eq_true, if_false,
        if_pos (hlong.mpr (hmarked second rfl))]
      rfl

/-! ## Lists -/

/-- A list ends before its last address, and that is in memory. -/
theorem Listed.lt_stop (h : Listed table memory stop address properties) : address < stop := by
  induction h with
  | last hholds hheader hstop =>
      have hpos := hheader.bytes_pos
      omega
  | property hholds hheader hmarked hdata hnumber hsmaller hrest ih => omega

/-- A list of properties ends in memory. -/
theorem Listed.stop_le_size (h : Listed table memory stop address properties) :
    stop ≤ memory.size := by
  induction h with
  | last hholds hheader hstop =>
      have hpos := hheader.bytes_pos
      have hlast := (hholds.byteAt_eq (Nat.sub_one_lt (Nat.ne_of_gt hpos))).1
      omega
  | property hholds hheader hmarked hdata hnumber hsmaller hrest ih => exact ih

/-- The data of all properties of a list is inside of it. -/
theorem Listed.data_inside (h : Listed table memory stop address properties) :
    ∀ found ∈ properties, address < found.data ∧ 0 < found.length ∧ found.length ≤ 64 ∧
      found.data + found.length < stop := by
  induction h with
  | last => exact List.forall_mem_nil _
  | @property address found rest bytes hholds hheader hmarked hdata hnumber hsmaller hrest ih =>
      have hpos := hheader.bytes_pos
      have hstop := hrest.lt_stop
      refine List.forall_mem_cons.mpr
        ⟨⟨by omega, hheader.length_pos, hheader.length_le, hstop⟩, fun later hlater => ?_⟩
      obtain ⟨hafter, hrest⟩ := ih later hlater
      exact ⟨by omega, hrest⟩

/-- The properties of a list follow each other, with smaller and smaller numbers. -/
theorem Listed.pairwise (h : Listed table memory stop address properties) :
    properties.Pairwise fun found later =>
      later.number < found.number ∧ found.data + found.length ≤ later.data := by
  induction h with
  | last => exact .nil
  | property hholds hheader hmarked hdata hnumber hsmaller hrest ih =>
      refine .cons (fun later hlater => ⟨hsmaller later hlater, ?_⟩) ih
      exact Nat.le_of_lt (hrest.data_inside later hlater).1

/-- The header of a property that is listed is read as that property. -/
theorem property_of_listed {found : Property} (hholds : memory.Holds address bytes)
    (hheader : Header table.isSmall bytes found.number.toNat found.length)
    (hdata : found.data = address + bytes.length) : table.property memory address = .ok found := by
  rw [property_of_header hholds hheader, ← hdata]
  exact congrArg Except.ok (congrArg (fun number => Property.mk number _ _) UInt16.ofNat_toNat)

/-- The number that a list begins with, zero where it ends at once. -/
def firstNumber (properties : List Property) : Word :=
  (properties.head?.map (·.number)).getD 0

/-- The header at a list says the number that it begins with. -/
theorem Listed.property_eq (h : Listed table memory stop address properties) :
    ∃ found, table.property memory address = .ok found ∧ found.number = firstNumber properties := by
  cases h with
  | last hholds hheader hstop => exact ⟨_, property_of_header hholds hheader, rfl⟩
  | property hholds hheader hmarked hdata hnumber hsmaller hrest =>
      exact ⟨_, property_of_listed hholds hheader hdata, rfl⟩

/-- **The walk along a list** finds the property of a number, if there is one.  Where a smaller one
is met, all that follow are smaller still. -/
theorem findFrom_of_listed (h : Listed table memory stop address properties) {number : Word}
    (hnumber : 0 < number) {left : Nat} (hleft : stop - address ≤ left) :
    table.findFrom memory number left address
      = .ok (properties.find? fun found => found.number == number) := by
  induction h generalizing left with
  | @last address length bytes hholds hheader hstop =>
      have hpos := hheader.bytes_pos
      obtain ⟨left, rfl⟩ : ∃ n, left = n + 1 := ⟨left - 1, by omega⟩
      have hnumber : Nat.toUInt16 0 < number := hnumber
      unfold findFrom
      rw [property_of_header hholds hheader]
      simp only [bind, Except.bind]
      rw [if_neg (UInt16.ne_of_lt hnumber), if_pos hnumber]
      rfl
  | @property address found rest bytes hholds hheader hmarked hdata hpos hsmaller hrest ih =>
      have hlt := hrest.lt_stop
      have hbytes := hheader.bytes_pos
      obtain ⟨left, rfl⟩ : ∃ n, left = n + 1 := ⟨left - 1, by omega⟩
      unfold findFrom
      rw [property_of_listed hholds hheader hdata]
      simp only [bind, Except.bind]
      by_cases hfound : found.number = number
      · rw [if_pos hfound, List.find?, beq_iff_eq.mpr hfound]
        rfl
      · rw [if_neg hfound, List.find?, beq_eq_false_iff_ne.mpr hfound]
        by_cases hless : found.number < number
        · have hnone : rest.find? (fun found => found.number == number) = none := by
            refine List.find?_eq_none.mpr fun later hlater heq => ?_
            have hsmall := hsmaller later hlater
            rw [beq_iff_eq.mp heq] at hsmall
            exact UInt16.lt_irrefl _ (UInt16.lt_trans hless hsmall)
          rw [if_pos hless, hnone]
          rfl
        · rw [if_neg hless]
          exact ih (by omega)

/-- Headers stand apart from data: a list stands as before where at most the data of its
properties is touched, and what is not of the list. -/
theorem Listed.of_sameOff {touched : Nat → Prop} (h : Listed table memory stop address properties)
    (hsame : Memory.SameOff touched memory after)
    (htouched : ∀ place, touched place → place < address ∨ stop ≤ place ∨
      ∃ found ∈ properties, found.data ≤ place ∧ place < found.data + found.length) :
    Listed table after stop address properties := by
  induction h with
  | @last address length bytes hholds hheader hstop =>
      refine .last (hholds.of_sameOff hsame fun i hi htouch => ?_) hheader hstop
      rcases htouched _ htouch with hplace | hplace | ⟨found, hin, -⟩
      · omega
      · omega
      · exact nomatch hin
  | @property address found rest bytes hholds hheader hmarked hdata hnumber hsmaller hrest ih =>
      have hlt := hrest.lt_stop
      refine .property (hholds.of_sameOff hsame fun i hi htouch => ?_) hheader hmarked hdata hnumber
        hsmaller (ih fun place htouch => ?_)
      · rcases htouched _ htouch with hplace | hplace | ⟨other, hother, hle, -⟩
        · omega
        · omega
        · rcases List.mem_cons.mp hother with rfl | hother
          · omega
          · have hafter := (hrest.data_inside other hother).1
            omega
      · rcases htouched _ htouch with hplace | hplace | ⟨other, hother, hle, hplace⟩
        · exact .inl (by omega)
        · exact .inr (.inl hplace)
        · rcases List.mem_cons.mp hother with rfl | hother
          · exact .inl hplace
          · exact .inr (.inr ⟨other, hother, hle, hplace⟩)

/-- What is behind a property of a list is a list again. -/
theorem Listed.behind {before later : List Property} {found : Property}
    (h : Listed table memory stop address (before ++ found :: later)) :
    Listed table memory stop (found.data + found.length) later := by
  induction before generalizing address with
  | nil =>
      cases h with
      | property hholds hheader hmarked hdata hnumber hsmaller hrest => exact hrest
  | cons first before ih =>
      cases h with
      | property hholds hheader hmarked hdata hnumber hsmaller hrest => exact ih hrest

/-- Of a property that is listed, the number is not zero, and the length can be read off the byte
before its data. -/
theorem Listed.property_of_mem (h : Listed table memory stop address properties) :
    ∀ found ∈ properties, 0 < found.number ∧
      table.propertyLength memory found.data = .ok found.length.toUInt16 := by
  induction h with
  | last => exact List.forall_mem_nil _
  | property hholds hheader hmarked hdata hnumber hsmaller hrest ih =>
      refine List.forall_mem_cons.mpr ⟨⟨hnumber, ?_⟩, ih⟩
      rw [hdata]
      exact propertyLength_of_header hholds hheader hmarked

/-! ## The properties of an object -/

/-- Where the entry of an object has the address of its description. -/
def descriptionPlace (table : ObjectTable) (object : Word) : Nat :=
  table.entryAt object + if table.isSmall then 7 else 12

/-- Where the properties of an object begin, behind its name. -/
def listStart (table : ObjectTable) (memory : Memory) (object : Word) : Nat :=
  let description := (memory.wordAt (table.descriptionPlace object)).toNat
  description + 1 + 2 * (memory.byteAt description).toNat

/-- An object has a list of properties that ends at an address below 64K, apart from the entry
that leads to it. -/
structure PropertyList (table : ObjectTable) (memory : Memory) (object : Word)
    (properties : List Property) (stop : Nat) : Prop where
  numbers : table.Numbers object
  place_lt : table.descriptionPlace object + 1 < memory.size
  listed : table.Listed memory stop (table.listStart memory object) properties
  stop_le : stop ≤ 0x10000
  apart : stop ≤ table.descriptionPlace object ∨
    table.descriptionPlace object + 2 ≤ table.listStart memory object

/-- The value of a property, which is a byte or a word. -/
def valueAt (memory : Memory) (found : Property) : Word :=
  if found.length = 1 then (memory.byteAt found.data).toUInt16 else memory.wordAt found.data

variable {object : Word}

/-- The properties of an object begin behind its name. -/
theorem PropertyList.firstProperty_eq (h : table.PropertyList memory object properties stop) :
    table.firstProperty memory object = .ok (table.listStart memory object) := by
  have hplace : (if table.isSmall then table.entryAt object + 7 else table.entryAt object + 12)
      = table.descriptionPlace object := by
    unfold descriptionPlace
    split <;> rfl
  have hread : memory.readWord (table.descriptionPlace object)
      = .ok (memory.wordAt (table.descriptionPlace object)) := if_pos h.place_lt
  have hdescription : table.description memory object
      = .ok (memory.wordAt (table.descriptionPlace object)).toNat := by
    unfold description
    rw [entry_eq h.numbers]
    simp only [bind, Except.bind, hplace, hread]
    rfl
  have hname : (memory.wordAt (table.descriptionPlace object)).toNat < memory.size := by
    have hstop := h.listed.lt_stop
    have hsize := h.listed.stop_le_size
    unfold listStart at hstop
    dsimp only at hstop
    omega
  unfold firstProperty
  rw [hdescription]
  simp only [bind, Except.bind, Memory.readByte, if_pos hname]
  rfl

/-- **A property is found in the list** if it is there. -/
theorem PropertyList.find?_eq (h : table.PropertyList memory object properties stop) {number : Word}
    (hnumber : 0 < number) :
    table.find? memory object number
      = .ok (properties.find? fun found => found.number == number) := by
  unfold find?
  rw [if_neg (UInt16.ne_of_lt hnumber).symm, h.firstProperty_eq]
  have hsize := h.listed.stop_le_size
  exact findFrom_of_listed h.listed hnumber (by omega)

/-- A property that is listed is found under its number. -/
theorem PropertyList.find?_of_mem (h : table.PropertyList memory object properties stop)
    {found : Property} (hin : found ∈ properties) :
    table.find? memory object found.number = .ok (some found) := by
  rw [h.find?_eq (h.listed.property_of_mem found hin).1]
  obtain ⟨before, later, rfl⟩ := List.append_of_mem hin
  have hbefore := (List.pairwise_append.mp h.listed.pairwise).2.2
  refine congrArg Except.ok (List.find?_eq_some_iff_append.mpr
    ⟨beq_iff_eq.mpr rfl, before, later, rfl, fun earlier hearlier => ?_⟩)
  have hsmaller := (hbefore earlier hearlier found List.mem_cons_self).1
  rw [Bool.not_eq_true', beq_eq_false_iff_ne]
  exact (UInt16.ne_of_lt hsmaller).symm

/-- A property that is not in the list is not found. -/
theorem PropertyList.find?_of_notMem (h : table.PropertyList memory object properties stop)
    {number : Word} (hnumber : 0 < number) (hnot : ∀ found ∈ properties, found.number ≠ number) :
    table.find? memory object number = .ok none := by
  rw [h.find?_eq hnumber, List.find?_eq_none.mpr fun found hin heq =>
    hnot found hin (beq_iff_eq.mp heq)]

/-! ## What is read -/

/-- The numbers of a list come one after the other, and then zero. -/
theorem PropertyList.isChain_nextProperty (h : table.PropertyList memory object properties stop)
    {before rest : List Property} (hsplit : properties = before ++ rest) {number : Word}
    (hnext : table.nextProperty memory object number = .ok (some (firstNumber rest))) :
    List.IsChain (fun number next => table.nextProperty memory object number = .ok (some next))
      (number :: (rest.map (·.number) ++ [0])) := by
  induction rest generalizing before number with
  | nil => exact .cons_cons hnext (.singleton 0)
  | cons found rest ih =>
      have hsplit' : properties = (before ++ [found]) ++ rest := by
        rw [hsplit, List.append_assoc, List.singleton_append]
      have hin : found ∈ properties := hsplit ▸ List.mem_append_right before List.mem_cons_self
      obtain ⟨header, hheader, hfirst⟩ := (hsplit ▸ h.listed).behind.property_eq
      refine .cons_cons hnext (ih hsplit' ?_)
      have hpos := (h.listed.property_of_mem found hin).1
      unfold nextProperty
      rw [if_neg (UInt16.ne_of_lt hpos).symm, h.find?_of_mem hin]
      simp only [bind, Except.bind, hheader, hfirst]
      rfl

/-- The property after none is the first. -/
theorem PropertyList.nextProperty_zero (h : table.PropertyList memory object properties stop) :
    table.nextProperty memory object 0 = .ok (some (firstNumber properties)) := by
  obtain ⟨header, hheader, hfirst⟩ := h.listed.property_eq
  unfold nextProperty
  rw [if_pos rfl, h.firstProperty_eq]
  simp only [bind, Except.bind, hheader, hfirst]
  rfl

/-- A property in the list has its value and its length. -/
theorem PropertyList.getProperty_of_mem (h : table.PropertyList memory object properties stop)
    {found : Property} (hin : found ∈ properties) :
    table.getProperty memory object found.number = .ok (valueAt memory found, found.length) := by
  obtain ⟨-, hpos, -, hlast⟩ := h.listed.data_inside found hin
  have hsize := h.listed.stop_le_size
  unfold getProperty valueAt
  rw [h.find?_of_mem hin]
  by_cases hone : found.length = 1
  · have hread : memory.readByte found.data = .ok (memory.byteAt found.data) := if_pos (by omega)
    simp only [bind, Except.bind, hread, hone]
    rfl
  · have hread : memory.readWord found.data = .ok (memory.wordAt found.data) := if_pos (by omega)
    simp only [bind, Except.bind, if_neg hone, hread]
    rfl

/-- The address of a property, and the length that is read off it. -/
theorem PropertyList.propertyAddress_of_mem (h : table.PropertyList memory object properties stop)
    {found : Property} (hin : found ∈ properties) :
    table.propertyAddress memory object found.number = .ok found.data.toUInt16 ∧
      found.data.toUInt16.toNat = found.data := by
  have hlast := (h.listed.data_inside found hin).2.2.2
  have hstop := h.stop_le
  constructor
  · unfold propertyAddress
    rw [h.find?_of_mem hin]
    rfl
  · exact UInt16.toNat_ofNat_of_lt' (by
      show found.data < 65536
      omega)

/-- Properties that are not listed have default values. -/
theorem PropertyList.getProperty_of_notMem (h : table.PropertyList memory object properties stop)
    {number : Word} (hnumber : 0 < number) (hdefault : number.toNat ≤ table.defaults)
    (hnot : ∀ found ∈ properties, found.number ≠ number) :
    table.getProperty memory object number
      = .ok (memory.wordAt (table.address + 2 * (number.toNat - 1)), 0) := by
  have hvalue : table.defaultValue memory number
      = .ok (memory.wordAt (table.address + 2 * (number.toNat - 1))) := by
    have hplace := h.place_lt
    have hzero : ¬(number = 0 ∨ table.defaults < number.toNat) := by
      rintro (hzero | hlarge)
      · exact UInt16.ne_of_lt hnumber hzero.symm
      · omega
    unfold defaultValue
    rw [if_neg hzero, Memory.readWord, if_pos]
    unfold descriptionPlace entryAt at hplace
    omega
  unfold getProperty
  rw [h.find?_of_notMem hnumber hnot]
  simp only [bind, Except.bind, hvalue]
  rfl

/-! ## What is written -/

/-- The data of a property. -/
def InData (found : Property) (place : Nat) : Prop :=
  found.data ≤ place ∧ place < found.data + found.length

/-- Where the data of one property is touched, the list is as before. -/
theorem PropertyList.of_sameOff (h : table.PropertyList memory object properties stop)
    {found : Property} (hin : found ∈ properties)
    (hsame : Memory.SameOff (InData found) memory after) :
    table.PropertyList after object properties stop := by
  obtain ⟨hfirst, -, -, hlast⟩ := h.listed.data_inside found hin
  have hplace := h.place_lt
  have hapart := h.apart
  have hpointer : after.wordAt (table.descriptionPlace object)
      = memory.wordAt (table.descriptionPlace object) := by
    refine hsame.wordAt_eq ?_ ?_ <;> unfold InData <;> omega
  have hname : after.byteAt (memory.wordAt (table.descriptionPlace object)).toNat
      = memory.byteAt (memory.wordAt (table.descriptionPlace object)).toNat := by
    refine hsame.byteAt_eq _ ?_
    unfold listStart at hfirst
    dsimp only at hfirst
    unfold InData
    omega
  have hstart : table.listStart after object = table.listStart memory object := by
    rw [listStart, listStart, hpointer, hname]
  refine ⟨h.numbers, ?_, ?_, h.stop_le, ?_⟩
  · rw [Memory.size_congr hsame.story_eq]
    exact hplace
  · rw [hstart]
    exact h.listed.of_sameOff hsame fun place htouch => .inr (.inr ⟨found, hin, htouch⟩)
  · rw [hstart]
    exact hapart

/-- The data of one property ends where that of another begins, or comes behind it. -/
def Apart (found other : Property) : Prop :=
  found.data + found.length ≤ other.data ∨ other.data + other.length ≤ found.data

/-- Different properties of a list have nothing of their data in common. -/
theorem PropertyList.data_apart (h : table.PropertyList memory object properties stop)
    {found other : Property} (hfound : found ∈ properties) (hother : other ∈ properties)
    (hne : found ≠ other) : Apart found other := by
  have hsymm : Std.Symm Apart := ⟨fun _ _ => Or.symm⟩
  have hpairs : properties.Pairwise Apart := h.listed.pairwise.imp fun hpair => .inl hpair.2
  exact hpairs.forall hfound hother hne

/-- The value of a property is read off its data. -/
theorem PropertyList.valueAt_congr (h : table.PropertyList memory object properties stop)
    {found other : Property} (hfound : found ∈ properties) (hother : other ∈ properties)
    (hne : other ≠ found) (hsame : Memory.SameOff (InData found) memory after) :
    valueAt after other = valueAt memory other := by
  have hpos := (h.listed.data_inside other hother).2.1
  have hapart := h.data_apart hfound hother hne.symm
  unfold Apart at hapart
  have hfirst : ¬InData found other.data := by
    unfold InData
    omega
  unfold valueAt
  by_cases hone : other.length = 1
  · rw [if_pos hone, if_pos hone, hsame.byteAt_eq _ hfirst]
  · have hsecond : ¬InData found (other.data + 1) := by
      unfold InData
      omega
    rw [if_neg hone, if_neg hone, hsame.wordAt_eq hfirst hsecond]

/-- A property that is listed takes a value, or the low byte of it. -/
theorem PropertyList.on_putProperty {draft : Draft}
    (h : table.PropertyList draft.memory object properties stop)
    (hstop : stop ≤ draft.memory.dynamicCeiling) {found : Property} (hin : found ∈ properties)
    (value : Word) :
    ∃ memory, Work.on (table.putProperty object found.number value) draft
        = (.ok true, { draft with memory }) ∧
      Memory.SameOff (InData found) draft.memory memory ∧
      valueAt memory found = if found.length = 1 then value % 256 else value := by
  obtain ⟨-, hpos, -, hlast⟩ := h.listed.data_inside found hin
  unfold putProperty
  rw [Work.on_bind, Edit.on_look, h.find?_of_mem hin]
  dsimp only
  by_cases hone : found.length = 1
  · have hlt : found.data < draft.memory.dynamicCeiling := by omega
    rw [if_pos hone, if_pos hone, Work.on_bind_of_ok (Edit.on_writeByte_of_lt hlt _)]
    refine ⟨_, rfl, Memory.sameOff_set _ hlt ⟨Nat.le_refl _, by omega⟩, ?_⟩
    rw [valueAt, if_pos hone, Memory.byteAt_set_self, UInt16.toUInt16_toUInt8]
  · have hlt : found.data + 1 < draft.memory.dynamicCeiling := by omega
    rw [if_neg hone, if_neg hone, Work.on_bind_of_ok (Edit.on_writeWord_of_lt hlt _)]
    refine ⟨_, rfl, Memory.sameOff_setWord _ hlt ⟨Nat.le_refl _, by omega⟩
      ⟨Nat.le_succ _, by omega⟩, ?_⟩
    rw [valueAt, if_neg hone, Memory.wordAt_setWord]

/-- **The properties of an object**, if they are listed in memory.  Going from zero to the next
number and on gives the numbers of the list in order, and then zero.  A property that is listed
has its value, its address, and its length there, which can be told from the address.  If the list
is in dynamic memory, a value that is written is the value then; nothing else is different for the
other properties.  A number that is not listed is not there, and has a default value. -/
theorem property_list_laws (h : table.PropertyList memory object properties stop)
    (notices : Array Notice) :
    List.IsChain (fun number next => table.nextProperty memory object number = .ok (some next))
      (0 :: (properties.map (·.number) ++ [0])) ∧
    (∀ found ∈ properties,
      table.getProperty memory object found.number = .ok (valueAt memory found, found.length) ∧
        ∃ address, table.propertyAddress memory object found.number = .ok address ∧
          address.toNat = found.data ∧
          table.propertyLength memory address.toNat = .ok found.length.toUInt16) ∧
    (stop ≤ memory.dynamicCeiling → ∀ found ∈ properties, ∀ value, ∃ after,
      Work.on (table.putProperty object found.number value) { memory, notices }
          = (.ok true, { memory := after, notices }) ∧
        table.PropertyList after object properties stop ∧
        table.getProperty after object found.number
          = .ok (if found.length = 1 then value % 256 else value, found.length) ∧
        ∀ other ∈ properties, other ≠ found →
          table.getProperty after object other.number
              = table.getProperty memory object other.number ∧
            table.propertyAddress after object other.number
              = table.propertyAddress memory object other.number ∧
            table.propertyLength after other.data = table.propertyLength memory other.data) ∧
    (∀ number, 0 < number → number.toNat ≤ table.defaults →
      (∀ found ∈ properties, found.number ≠ number) →
        (∀ value, Work.on (table.putProperty object number value) { memory, notices }
          = (.ok false, { memory, notices })) ∧
        table.propertyAddress memory object number = .ok 0 ∧
        table.nextProperty memory object number = .ok none ∧
        table.getProperty memory object number
          = .ok (memory.wordAt (table.address + 2 * (number.toNat - 1)), 0)) := by
  refine ⟨h.isChain_nextProperty (List.nil_append properties).symm h.nextProperty_zero,
    fun found hin => ?_, fun hstop found hin value => ?_, fun number hnumber hdefault hnot => ?_⟩
  · obtain ⟨haddress, hdata⟩ := h.propertyAddress_of_mem hin
    refine ⟨h.getProperty_of_mem hin, found.data.toUInt16, haddress, hdata, ?_⟩
    rw [hdata]
    exact (h.listed.property_of_mem found hin).2
  · obtain ⟨after, hput, hsame, hvalue⟩ :=
      @PropertyList.on_putProperty _ _ _ _ { memory, notices } h hstop found hin value
    have hafter := h.of_sameOff hin hsame
    refine ⟨after, hput, hafter, ?_, fun other hother hne => ⟨?_, ?_, ?_⟩⟩
    · rw [hafter.getProperty_of_mem hin, hvalue]
    · rw [hafter.getProperty_of_mem hother, h.getProperty_of_mem hother,
        h.valueAt_congr hin hother hne hsame]
    · rw [(hafter.propertyAddress_of_mem hother).1, (h.propertyAddress_of_mem hother).1]
    · rw [(hafter.listed.property_of_mem other hother).2, (h.listed.property_of_mem other hother).2]
  · have hnone := h.find?_of_notMem hnumber hnot
    refine ⟨fun value => ?_, ?_, ?_, h.getProperty_of_notMem hnumber hdefault hnot⟩
    · unfold putProperty
      rw [Work.on_bind, Edit.on_look, hnone]
      rfl
    · unfold propertyAddress
      rw [hnone]
      rfl
    · unfold nextProperty
      rw [if_neg (UInt16.ne_of_lt hnumber).symm, hnone]
      rfl

/-- A table of version 5 right behind the header. -/
def bearer : ObjectTable := { version := 5, address := 64 }

/-- The first object has three properties: 5 with three bytes, 3 with two and 2 with one. -/
def bearerMemory : Memory :=
  ((Memory.ofImage ([5] ++ List.replicate 13 0 ++ [0, 216] ++ List.replicate 186 0
    ++ [0, 204, 0, 0x85, 0x83, 1, 2, 3, 0x43, 4, 5, 0x02, 6, 0] : List UInt8).toArray).toOption).get
    (by decide +kernel)

/-- The bearer's list is in memory. -/
theorem listed_bearer :
    bearer.Listed bearerMemory 216 205 [⟨5, 207, 3⟩, ⟨3, 211, 2⟩, ⟨2, 214, 1⟩] := by
  have hsingle (address : Nat) (size : UInt8)
      (h : address < bearerMemory.size ∧ bearerMemory.byteAt address = size) :
      bearerMemory.Holds address [size] ∧ Marked [size] :=
    ⟨Memory.holds_singleton.mpr (Memory.readByte_eq_ok.mpr h), fun _ hnone => nomatch hnone⟩
  have hmarked : Marked [0x85, 0x83] := fun second hsecond => by
    obtain rfl : 0x83 = second := Option.some.inj hsecond
    decide
  have hlong : bearerMemory.Holds 205 [0x85, 0x83] :=
    ⟨Memory.readByte_eq_ok.mpr (by decide +kernel), (hsingle 206 0x83 (by decide +kernel)).1⟩
  obtain ⟨hword, hwordMarked⟩ := hsingle 210 0x43 (by decide +kernel)
  obtain ⟨hbyte, hbyteMarked⟩ := hsingle 213 0x02 (by decide +kernel)
  obtain ⟨hlast, -⟩ := hsingle 215 0 (by decide +kernel)
  refine .property hlong (.long 0x85 0x83 (by decide)) hmarked rfl (by decide) (by decide) ?_
  refine .property hword (.short 0x43 (by decide)) hwordMarked rfl (by decide) (by decide) ?_
  refine .property hbyte (.short 0x02 (by decide)) hbyteMarked rfl (by decide) (by decide) ?_
  exact .last hlast (.short 0 (by decide)) rfl

/-- The bearer has its three properties. -/
theorem propertyList_bearer :
    bearer.PropertyList bearerMemory 1 [⟨5, 207, 3⟩, ⟨3, 211, 2⟩, ⟨2, 214, 1⟩] 216 := by
  have hstart : bearer.listStart bearerMemory 1 = 205 := by decide +kernel
  have hnumbers : ¬((1 : Word) = 0 ∨ (bearer.isSmall ∧ 255 < (1 : Word))) := by decide
  exact ⟨hnumbers, by decide +kernel, hstart ▸ listed_bearer, by decide, .inr (by decide +kernel)⟩

/-- The property of one byte takes the low byte of a value, and there is no property 4. -/
theorem property_list_laws_bearer :
    (∃ memory, Work.on (bearer.putProperty 1 2 0x1234) { memory := bearerMemory }
        = (.ok true, { memory }) ∧
      bearer.getProperty memory 1 2 = .ok (0x34, 1) ∧
      bearer.getProperty memory 1 3 = bearer.getProperty bearerMemory 1 3) ∧
    Work.on (bearer.putProperty 1 4 1) { memory := bearerMemory }
      = (.ok false, { memory := bearerMemory }) := by
  obtain ⟨-, -, hput, hnot⟩ := property_list_laws propertyList_bearer #[]
  obtain ⟨memory, hwrite, -, hvalue, hothers⟩ :=
    hput (by decide +kernel) ⟨2, 214, 1⟩ (by decide) 0x1234
  have hlow : (0x1234 : Word) % 256 = 0x34 := by decide
  rw [if_pos rfl, hlow] at hvalue
  exact ⟨⟨memory, hwrite, hvalue, (hothers ⟨3, 211, 2⟩ (by decide) (by decide)).1⟩,
    (hnot 4 (by decide) (by decide) (by decide)).1 1⟩

end StoryMachine.ObjectTable
