import Mathlib.Logic.Basic
import StoryMachine.Proofs.Decoding
import StoryMachine.Proofs.HeaderSetUp

/-!
# The links of objects as a function

`ObjectTable.linkAt` is what is read of a link, as a function of object and link.
Setting a link is seen here as an update of that function (`on_setLink`): the
entries lie one after the other and the links side by side in them, so in both
layouts no two links share a byte (`linkPlace_disjoint`), and no link shares one with
an attribute (`testAttribute_congr`).
-/

namespace StoryMachine

namespace Memory

/-- A word just written is the word read. -/
theorem wordAt_setWord {memory : Memory} {address : Nat} (value : Word)
    (h : address + 1 < memory.dynamicCeiling) :
    (memory.setWord address value h).wordAt address = value := by
  have hlow : address < memory.dynamicCeiling := Nat.lt_of_succ_lt h
  have hfirst : (memory.setWord address value h).byteAt address = value.high :=
    (byteAt_set_of_ne (memory.set address value.high hlow) _ _ _ h
      (Nat.ne_of_lt (Nat.lt_succ_self address))).trans (byteAt_set_self _ _ _ hlow)
  have hsecond : (memory.setWord address value h).byteAt (address + 1) = value.low :=
    byteAt_set_self (memory.set address value.high hlow) _ _ h
  rw [wordAt, hfirst, hsecond, Word.ofBytes_high_low]

end Memory

/-- Looking at memory leaves it. -/
theorem Edit.on_look (f : Memory → Except Fault α) (draft : Draft) :
    Work.on (Edit.look f) draft = (f draft.memory, draft) :=
  Work.on_ofExcept draft (f draft.memory)

/-- What the links of all objects say. -/
abbrev Links := Word → Link → Word

/-- One link changed. -/
def Links.set (links : Links) (object : Word) (link : Link) (value : Word) : Links :=
  fun other otherLink => if other = object ∧ otherLink = link then value else links other otherLink

namespace Links

variable (links : Links) (object other value : Word) (link otherLink : Link)

/-- A link that is set says what it was set to. -/
@[simp] theorem set_self : links.set object link value object link = value :=
  if_pos ⟨rfl, rfl⟩

variable {object other link otherLink}

/-- The links of other objects are left. -/
theorem set_of_ne_object (h : other ≠ object) :
    links.set object link value other otherLink = links other otherLink :=
  if_neg fun hsame => h hsame.1

/-- The other links are left. -/
theorem set_of_ne_link (h : otherLink ≠ link) :
    links.set object link value other otherLink = links other otherLink :=
  if_neg fun hsame => h hsame.2

end Links

namespace ObjectTable

variable (table : ObjectTable)

/-- How many bytes an entry has. -/
def entrySize : Nat := if table.isSmall then 9 else 14

/-- How many bytes a link has. -/
def linkSize : Nat := if table.isSmall then 1 else 2

/-- Where the entry of an object is, if there can be such an object. -/
def entryAt (object : Word) : Nat :=
  table.address + 2 * table.defaults + table.entrySize * (object.toNat - 1)

/-- Where a link of an object is. -/
def linkPlace (object : Word) (link : Link) : Nat :=
  table.linkAddress (table.entryAt object) link

/-- What is read of a link, zero where nothing can be read. -/
def linkAt (memory : Memory) : Links := fun object link =>
  ((table.link memory object link).toOption).getD 0

/-- Whether there can be an object with a number. -/
def Numbers (object : Word) : Prop :=
  ¬ (object = 0 ∨ (table.isSmall ∧ 255 < object))

variable {table} {memory after : Memory} {object other value : Word} {link otherLink : Link}

/-- Objects are numbered from one. -/
theorem Numbers.ne_zero (h : table.Numbers object) : 0 < object.toNat := by
  refine Nat.pos_of_ne_zero fun hzero => h (.inl ?_)
  exact UInt16.toNat_inj.mp hzero

/-- An object that there can be has an entry. -/
theorem entry_eq (h : table.Numbers object) : table.entry object = .ok (table.entryAt object) :=
  if_neg h

/-- An object that there cannot be has none, which is a fault of the operands. -/
theorem entry_eq_error (h : ¬ table.Numbers object) :
    table.entry object
      = .error { kind := .badOperands, detail := s!"OBJECT {object}" } :=
  if_pos (not_not.mp h)

/-- A link lies in its entry, behind the attributes and before the address of the properties. -/
theorem linkPlace_eq :
    table.linkPlace object link
      = table.entryAt object + (if table.isSmall then 4 else 6) + table.linkSize * link.index := by
  unfold linkPlace linkAddress linkSize
  split <;> simp

/-- There are three links. -/
theorem index_le_two (link : Link) : link.index ≤ 2 := by
  cases link <;> decide

/-- Links are told apart by their places. -/
theorem index_inj (h : link.index = otherLink.index) : link = otherLink := by
  cases link <;> cases otherLink <;> first | rfl | exact nomatch h

/-- No two links share a byte. -/
theorem linkPlace_disjoint (hobject : table.Numbers object) (hother : table.Numbers other)
    (hne : ¬ (other = object ∧ otherLink = link)) :
    table.linkPlace object link + table.linkSize ≤ table.linkPlace other otherLink ∨
      table.linkPlace other otherLink + table.linkSize ≤ table.linkPlace object link := by
  have hpos := hobject.ne_zero
  have hpos' := hother.ne_zero
  have hindex := index_le_two link
  have hindex' := index_le_two otherLink
  have hdistinct : other.toNat ≠ object.toNat ∨ otherLink.index ≠ link.index := by
    by_cases hsame : other.toNat = object.toNat
    · exact .inr fun hindices => hne ⟨UInt16.toNat_inj.mp hsame, index_inj hindices⟩
    · exact .inl hsame
  rw [linkPlace_eq, linkPlace_eq]
  unfold entryAt entrySize linkSize
  split <;> omega

/-- A link is followed by reading it: a byte in version 3, and later a word. -/
theorem link_eq (h : table.Numbers object) :
    table.link memory object link
      = if table.isSmall then (memory.readByte (table.linkPlace object link)).map UInt8.toUInt16
        else memory.readWord (table.linkPlace object link) := by
  unfold ObjectTable.link
  rw [entry_eq h]
  rfl

/-- A link is read off its own bytes. -/
theorem linkAt_congr (hstory : after.story = memory.story)
    (hbytes : table.Numbers object → ∀ address, table.linkPlace object link ≤ address →
      address < table.linkPlace object link + table.linkSize →
      after.byteAt address = memory.byteAt address) :
    table.linkAt after object link = table.linkAt memory object link := by
  have hsize := Memory.size_congr hstory
  suffices h : table.link after object link = table.link memory object link by
    rw [linkAt, linkAt, h]
  by_cases hnumbers : table.Numbers object
  · have hbytes := hbytes hnumbers
    rw [link_eq hnumbers, link_eq hnumbers]
    unfold linkSize at hbytes
    split
    case isTrue hsmall =>
      rw [if_pos hsmall] at hbytes
      rw [Memory.readByte_congr hsize (hbytes _ (Nat.le_refl _) (Nat.lt_succ_self _))]
    case isFalse hlarge =>
      rw [if_neg hlarge] at hbytes
      rw [Memory.readWord_congr hsize (hbytes _ (Nat.le_refl _) (by omega))
        (hbytes _ (Nat.le_succ _) (by omega))]
  · unfold ObjectTable.link
    rw [entry_eq_error hnumbers]
    rfl

/-! ## Tables with room for a number of objects -/

/-- Whether an object is one of the first `count`. -/
def Counted (count : Nat) (object : Word) : Prop := object ≠ 0 ∧ object.toNat ≤ count

/-- That the first `count` objects have numbers that links can hold, and entries that can be
written. -/
structure Roomy (table : ObjectTable) (memory : Memory) (count : Nat) : Prop where
  small : table.isSmall = true → count ≤ 255
  fits : table.address + 2 * table.defaults + table.entrySize * count ≤ memory.dynamicCeiling

/-- Whether a byte belongs to a link of one of the first `count` objects. -/
def IsLinkByte (table : ObjectTable) (count address : Nat) : Prop :=
  ∃ object link, Counted count object ∧ table.linkPlace object link ≤ address ∧
    address < table.linkPlace object link + table.linkSize

variable {count : Nat}

/-- There is as much room for objects in another memory of the story. -/
theorem Roomy.congr (h : table.Roomy memory count) (hstory : after.story = memory.story) :
    table.Roomy after count := by
  refine ⟨h.small, ?_⟩
  rw [Memory.dynamicCeiling, hstory]
  exact h.fits

/-- There can be objects that are counted. -/
theorem Roomy.numbers (h : table.Roomy memory count) (hobject : Counted count object) :
    table.Numbers object := by
  rintro (hzero | ⟨hsmall, hlarge⟩)
  · exact hobject.1 hzero
  · have hle := h.small hsmall
    have hlt : 255 < object.toNat := UInt16.lt_iff_toNat_lt.mp hlarge
    have := hobject.2
    omega

/-- The links of counted objects lie in dynamic memory. -/
theorem Roomy.place_le (h : table.Roomy memory count) (hobject : Counted count object)
    (link : Link) :
    table.linkPlace object link + table.linkSize ≤ memory.dynamicCeiling := by
  have hpos := (h.numbers hobject).ne_zero
  have hle := hobject.2
  have hfits := h.fits
  have hindex := index_le_two link
  rw [linkPlace_eq]
  revert hfits
  unfold entryAt entrySize linkSize
  split <;> omega

/-- The links of counted objects can be followed. -/
theorem Roomy.link_eq_ok (h : table.Roomy memory count) (hobject : Counted count object) :
    table.link memory object link
      = .ok (if table.isSmall then (memory.byteAt (table.linkPlace object link)).toUInt16
          else memory.wordAt (table.linkPlace object link)) := by
  have hplace := h.place_le hobject link
  have hceiling := memory.ceiling_le_size
  rw [link_eq (h.numbers hobject)]
  unfold linkSize at hplace
  unfold Memory.readByte Memory.readWord
  split
  case isTrue hsmall =>
    rw [if_pos hsmall] at hplace
    rw [if_pos (by omega)]
    rfl
  case isFalse hlarge =>
    rw [if_neg hlarge] at hplace
    rw [if_pos (by omega)]

/-- The links of counted objects are what memory has. -/
theorem Roomy.linkAt_eq (h : table.Roomy memory count) (hobject : Counted count object) :
    table.linkAt memory object link
      = if table.isSmall then (memory.byteAt (table.linkPlace object link)).toUInt16
        else memory.wordAt (table.linkPlace object link) := by
  rw [linkAt, h.link_eq_ok hobject]
  rfl

/-- The links of the first objects can be read. -/
theorem Roomy.link_eq_linkAt (h : table.Roomy memory count) (hobject : Counted count object)
    (link : Link) :
    table.link memory object link = .ok (table.linkAt memory object link) := by
  rw [h.linkAt_eq hobject, h.link_eq_ok hobject]

/-! ## Setting a link -/

/-- That memory has changed in links of the first `count` objects only, and which links there
are now. -/
structure Relinked (table : ObjectTable) (count : Nat) (memory after : Memory) (links : Links) :
    Prop where
  same : Memory.SameOff (table.IsLinkByte count) memory after
  links_eq : table.linkAt after = links

/-- Memory has the links that it has. -/
theorem Relinked.refl (table : ObjectTable) (count : Nat) (memory : Memory) :
    table.Relinked count memory memory (table.linkAt memory) :=
  ⟨.refl _ _, rfl⟩

/-- Memory that is relinked twice is relinked. -/
theorem Relinked.trans {middle : Memory} {links later : Links}
    (h : table.Relinked count memory middle links)
    (h' : table.Relinked count middle after later) : table.Relinked count memory after later :=
  ⟨h.same.trans h'.same, h'.links_eq⟩

/-- The places of one link. -/
def InLink (table : ObjectTable) (object : Word) (link : Link) (address : Nat) : Prop :=
  table.linkPlace object link ≤ address ∧ address < table.linkPlace object link + table.linkSize

/-- Where only the bytes of one link have changed, all others are as they were. -/
theorem relinked_of_sameOff (hroom : table.Roomy memory count) (hobject : Counted count object)
    (hsame : Memory.SameOff (table.InLink object link) memory after)
    (hvalue : table.linkAt after object link = value) :
    table.Relinked count memory after ((table.linkAt memory).set object link value) := by
  refine ⟨⟨hsame.story_eq, fun address hoff => hsame.byteAt_eq address fun hin => ?_⟩, ?_⟩
  · exact hoff ⟨object, link, hobject, hin⟩
  · funext other otherLink
    by_cases hthis : other = object ∧ otherLink = link
    · obtain ⟨rfl, rfl⟩ := hthis
      rw [hvalue, Links.set_self]
    · rw [Links.set, if_neg hthis]
      refine linkAt_congr hsame.story_eq fun hother address hle hlt => hsame.byteAt_eq address ?_
      have := linkPlace_disjoint (hroom.numbers hobject) hother hthis
      unfold InLink
      omega

/-- Setting a link in dynamic memory changes its bytes, and it is read again if there is room for
it. -/
theorem on_setLink_alone {draft : Draft} (hobject : table.Numbers object)
    (hplace : table.linkPlace object link + table.linkSize ≤ draft.memory.dynamicCeiling)
    (value : Word) :
    ∃ after, Work.on (table.setLink object link value) draft
        = (.ok (), { draft with memory := after }) ∧
      Memory.SameOff (table.InLink object link) draft.memory after ∧
      ((table.isSmall = true → value.toNat ≤ 255) → table.link after object link = .ok value) := by
  have hceiling := draft.memory.ceiling_le_size
  unfold setLink
  rw [Work.on_bind, Edit.on_look, entry_eq hobject]
  change ∃ after, Work.on (if table.isSmall then
    Edit.writeByte (table.linkPlace object link) value.toUInt8
    else Edit.writeWord (table.linkPlace object link) value) draft = _ ∧ _
  cases hsmall : table.isSmall with
  | true =>
      have hsize : table.linkSize = 1 := if_pos hsmall
      have hlt : table.linkPlace object link < draft.memory.dynamicCeiling := by omega
      refine ⟨_, Edit.on_writeByte_of_lt hlt _, Memory.sameOff_set _ hlt ⟨Nat.le_refl _, by omega⟩,
        fun hroom => ?_⟩
      have hvalue : value.toUInt8.toUInt16 = value := by
        have hle : value.toNat ≤ 255 := hroom rfl
        apply UInt16.toNat_inj.mp
        rw [UInt8.toNat_toUInt16, UInt16.toNat_toUInt8]
        omega
      have hread : (draft.memory.set (table.linkPlace object link) value.toUInt8 hlt).readByte
          (table.linkPlace object link) = .ok value.toUInt8 :=
        Memory.readByte_eq_ok.mpr ⟨by rw [Memory.size_set]; omega, Memory.byteAt_set_self _ _ _ hlt⟩
      rw [link_eq hobject, if_pos hsmall, hread]
      exact congrArg Except.ok hvalue
  | false =>
      have hlarge : ¬table.isSmall = true := Bool.eq_false_iff.mp hsmall
      have hsize : table.linkSize = 2 := if_neg hlarge
      have hlt : table.linkPlace object link + 1 < draft.memory.dynamicCeiling := by omega
      have hstory : (draft.memory.setWord (table.linkPlace object link) value hlt).story
          = draft.memory.story := rfl
      have hread : (draft.memory.setWord (table.linkPlace object link) value hlt).readWord
          (table.linkPlace object link) = .ok value :=
        (if_pos (by rw [Memory.size_congr hstory]; omega)).trans
          (congrArg Except.ok (Memory.wordAt_setWord value hlt))
      refine ⟨_, Edit.on_writeWord_of_lt hlt _,
        Memory.sameOff_setWord _ hlt ⟨Nat.le_refl _, by omega⟩ ⟨Nat.le_succ _, by omega⟩,
        fun _ => ?_⟩
      rw [link_eq hobject, if_neg hlarge, hread]

/-- Setting a link of one of the first objects goes well, and is an update of the links. -/
theorem on_setLink {draft : Draft} (hroom : table.Roomy draft.memory count)
    (hobject : Counted count object) (hvalue : value.toNat ≤ count) :
    ∃ after, Work.on (table.setLink object link value) draft
        = (.ok (), { draft with memory := after }) ∧
      table.Relinked count draft.memory after
        ((table.linkAt draft.memory).set object link value) := by
  obtain ⟨after, hon, hsame, hread⟩ :=
    on_setLink_alone (hroom.numbers hobject) (hroom.place_le hobject link) value
  have hlink : table.link after object link = .ok value :=
    hread fun hsmall => Nat.le_trans hvalue (hroom.small hsmall)
  rw [(hroom.congr hsame.story_eq).link_eq_linkAt hobject link] at hlink
  exact ⟨after, hon, relinked_of_sameOff hroom hobject hsame (Except.ok.inj hlink)⟩

/-! ## Attributes -/

/-- Attributes lie at the start of an entry. -/
theorem address_of_attributePlace {number : Word} {address : Nat} {mask : UInt8}
    (h : table.attributePlace object number = .ok (address, mask)) :
    table.Numbers object ∧ address = table.entryAt object + number.toNat / 8 ∧
      number.toNat / 8 < if table.isSmall then 4 else 6 := by
  unfold attributePlace at h
  split at h
  · exact nomatch h
  case isFalse hlimit =>
    obtain ⟨entry, hentry, h⟩ := bind_eq_ok.mp h
    obtain ⟨haddress, -⟩ := Prod.mk.inj (Except.ok.inj h)
    by_cases hnumbers : table.Numbers object
    · obtain rfl := Except.ok.inj ((entry_eq hnumbers).symm.trans hentry)
      refine ⟨hnumbers, haddress.symm, ?_⟩
      revert hlimit
      unfold attributes
      split <;> omega
    · rw [entry_eq_error hnumbers] at hentry
      exact nomatch hentry

/-- No attribute shares a byte with a link. -/
theorem not_isLinkByte {offset : Nat} (hobject : table.Numbers object)
    (hoffset : offset < if table.isSmall then 4 else 6) :
    ¬ table.IsLinkByte count (table.entryAt object + offset) := by
  rintro ⟨other, link, hother, hle, hlt⟩
  have hpos := hobject.ne_zero
  have hpos' : 0 < other.toNat := Nat.pos_of_ne_zero fun h => hother.1 (UInt16.toNat_inj.mp h)
  have hindex := index_le_two link
  rw [linkPlace_eq] at hle hlt
  revert hoffset hle hlt
  unfold entryAt entrySize linkSize
  split <;> omega

/-- What changes links leaves the attributes alone. -/
theorem testAttribute_congr (h : Memory.SameOff (table.IsLinkByte count) memory after)
    (object number : Word) :
    table.testAttribute after object number = table.testAttribute memory object number := by
  unfold testAttribute
  rcases hplace : table.attributePlace object number with fault | ⟨address, mask⟩
  · rfl
  · obtain ⟨hnumbers, rfl, hoffset⟩ := address_of_attributePlace hplace
    have hbyte := h.byteAt_eq _ (not_isLinkByte hnumbers hoffset)
    have hread := Memory.readByte_congr (Memory.size_congr h.story_eq) hbyte
    exact congrArg (· >>= fun b => pure (b &&& mask != 0)) hread

end ObjectTable

end StoryMachine
