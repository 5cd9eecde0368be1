import StoryMachine.Proofs.SnapshotRoundTrip
import StoryMachine.Proofs.StoryKept

/-!
# Which bytes setting up the header leaves alone

Setting up the header writes a few fields of the header, listed by `SetUpByte`, and
two words of the extension table, if the story has one.  It is taken apart once, in
`setUp_of_parts`, and what is said of it follows from what is said of its parts.

As long as the extension table does not reach into the header, everything else stays
(`sameOff_setUp`).  The ten bytes by which a story is told from others are not among
those that are set up; what leaves them alone keeps the identity (`identity_eq_iff`).
-/

namespace StoryMachine

namespace Memory

/-- The same story, and the same bytes except at the places in question. -/
structure SameOff (touched : Nat → Prop) (memory after : Memory) : Prop where
  story_eq : after.story = memory.story
  byteAt_eq : ∀ address, ¬touched address → after.byteAt address = memory.byteAt address

variable {touched : Nat → Prop} {memory middle after : Memory}

/-- Memory is the same as itself off any places. -/
theorem SameOff.refl (touched : Nat → Prop) (memory : Memory) : SameOff touched memory memory :=
  ⟨rfl, fun _ _ => rfl⟩

/-- Memory that stays the same off some places over two changes does so over both. -/
theorem SameOff.trans (h : SameOff touched memory middle) (h' : SameOff touched middle after) :
    SameOff touched memory after :=
  ⟨h'.story_eq.trans h.story_eq, fun address hoff =>
    (h'.byteAt_eq address hoff).trans (h.byteAt_eq address hoff)⟩

/-- Touching more places is no more than that. -/
theorem SameOff.mono {others : Nat → Prop} (h : SameOff touched memory after)
    (himp : ∀ address, touched address → others address) : SameOff others memory after :=
  ⟨h.story_eq, fun address hoff => h.byteAt_eq address fun htouched =>
    hoff (himp address htouched)⟩

/-- A word off the places is read as before. -/
theorem SameOff.wordAt_eq (h : SameOff touched memory after) {address : Nat}
    (hfirst : ¬touched address) (hsecond : ¬touched (address + 1)) :
    after.wordAt address = memory.wordAt address := by
  rw [wordAt, wordAt, h.byteAt_eq address hfirst, h.byteAt_eq (address + 1) hsecond]

/-- Dynamic memory ends where it ended. -/
theorem SameOff.dynamicCeiling_eq (h : SameOff touched memory after) :
    after.dynamicCeiling = memory.dynamicCeiling :=
  congrArg Story.dynamicCeiling h.story_eq

/-- A byte that is set changes memory at its place only. -/
theorem sameOff_set {address : Nat} (value : UInt8) (h : address < memory.dynamicCeiling)
    (htouched : touched address) : SameOff touched memory (memory.set address value h) := by
  refine ⟨rfl, fun other hoff => memory.byteAt_set_of_ne address other value h ?_⟩
  rintro rfl
  exact hoff htouched

/-- A word that is set changes memory at its two places only. -/
theorem sameOff_setWord {address : Nat} (value : Word) (h : address + 1 < memory.dynamicCeiling)
    (hfirst : touched address) (hsecond : touched (address + 1)) :
    SameOff touched memory (memory.setWord address value h) := by
  have hlow : address < memory.dynamicCeiling := Nat.lt_of_succ_lt h
  have hhigh : address + 1 < (memory.set address value.high hlow).dynamicCeiling := h
  exact (sameOff_set value.high hlow hfirst).trans (sameOff_set value.low hhigh hsecond)

/-- A header byte that is set changes memory at its place only. -/
theorem sameOff_setHeaderByte (field : HeaderField) (value : UInt8)
    (h : touched field.address) : SameOff touched memory (memory.setHeaderByte field value) :=
  sameOff_set value _ h

/-- A header word that is set changes memory at its two places only. -/
theorem sameOff_setHeaderWord (field : HeaderField) (value : Word) (h : touched field.address)
    (h' : touched (field.address + 1)) :
    SameOff touched memory (memory.setHeaderWord field value) :=
  sameOff_setWord value _ h h'

/-- A word with the same high byte is only a new low byte. -/
theorem sameOff_setHeaderWord_of_high (field : HeaderField) {value : Word}
    (h : value.high = (memory.headerWord field).high) :
    SameOff (· = field.address + 1) memory (memory.setHeaderWord field value) := by
  have hbound := field.address_lt
  have hceiling := memory.header_le_ceiling
  have hlow : field.address < memory.dynamicCeiling := by omega
  have hhigh : field.address + 1 < memory.dynamicCeiling := by omega
  refine ⟨rfl, fun address hoff => ?_⟩
  refine (byteAt_set_of_ne (memory.set field.address value.high hlow) _ address _ hhigh hoff).trans ?_
  by_cases hfirst : address = field.address
  · subst hfirst
    exact (byteAt_set_self _ _ _ hlow).trans (h.trans (Word.high_ofBytes _ _))
  · exact byteAt_set_of_ne _ _ _ _ hlow hfirst

/-- The second byte of a header word that is set is its low one. -/
theorem byteAt_setHeaderWord_low (memory : Memory) (field : HeaderField) (value : Word) :
    (memory.setHeaderWord field value).byteAt (field.address + 1) = value.low := by
  unfold setHeaderWord setWord
  exact byteAt_set_self _ _ _ _

/-- Whether an address lies in the extension table. -/
def InExtension (memory : Memory) (address : Nat) : Prop :=
  ∃ start words, memory.extension = .table start words ∧
    start ≤ address ∧ address < start + 2 + 2 * words

/-- A story whose extension table, if it has one, lies outside the header. -/
def ExtensionApart (memory : Memory) : Prop :=
  memory.version < 5 ∨ memory.headerWord .extensionTable = 0 ∨
    64 ≤ (memory.headerWord .extensionTable).toNat

/-- The table is where the header says. -/
theorem start_eq_of_extension {start words : Nat} (h : memory.extension = .table start words) :
    5 ≤ memory.version ∧ start ≠ 0 ∧ start = (memory.headerWord .extensionTable).toNat := by
  unfold extension at h
  simp only at h
  split at h
  case isTrue => exact nomatch h
  case isFalse hthere =>
    rw [not_or] at hthere
    split at h
    case isTrue => exact nomatch h
    case isFalse =>
      split at h
      case isTrue => exact nomatch h
      case isFalse =>
        obtain ⟨rfl, -⟩ := Extension.table.inj h
        exact ⟨Nat.not_lt.mp hthere.1, hthere.2, rfl⟩

/-- A story without an extension table has no byte in it. -/
theorem not_inExtension_of_eq_zero (h : memory.headerWord .extensionTable = 0) (address : Nat) :
    ¬memory.InExtension address := by
  rintro ⟨start, words, htable, -⟩
  obtain ⟨-, hzero, rfl⟩ := start_eq_of_extension htable
  rw [h] at hzero
  exact hzero rfl

/-- A table that lies apart begins behind the header. -/
theorem ExtensionApart.le_start (h : memory.ExtensionApart) {start words : Nat}
    (htable : memory.extension = .table start words) : 64 ≤ start := by
  obtain ⟨hversion, hzero, rfl⟩ := start_eq_of_extension htable
  rcases h with hold | hnone | hle
  · omega
  · rw [hnone] at hzero
    exact absurd rfl hzero
  · exact hle

/-- The extension table is found through its pointer and its length word. -/
theorem extension_congr (hstory : after.story = memory.story)
    (hpointer : after.headerWord .extensionTable = memory.headerWord .extensionTable)
    (hlength : after.wordAt (memory.headerWord .extensionTable).toNat
      = memory.wordAt (memory.headerWord .extensionTable).toNat) :
    after.extension = memory.extension := by
  have hversion : after.version = memory.version := by rw [version, version, hstory]
  have hsize : after.size = memory.size := size_congr hstory
  simp only [extension, hversion, hsize, hpointer, hlength]

end Memory

namespace Header

open Memory

/-- The bytes of the header that are set up. -/
def SetUpByte (address : Nat) : Prop :=
  address = 0x01 ∨ (0x10 ≤ address ∧ address ≤ 0x11) ∨ (0x1e ≤ address ∧ address ≤ 0x27) ∨
    (0x2c ≤ address ∧ address ≤ 0x2d) ∨ (0x32 ≤ address ∧ address ≤ 0x33)

instance (address : Nat) : Decidable (SetUpByte address) :=
  inferInstanceAs (Decidable (_ ∨ _))

/-- The bytes that are set up lie in the header. -/
theorem SetUpByte.lt {address : Nat} (h : SetUpByte address) : address < 64 := by
  unfold SetUpByte at h
  omega

/-- The places that setting up the header of a memory may change: these bytes, and the
fields of the extension table. -/
def Touched (memory : Memory) (address : Nat) : Prop :=
  SetUpByte address ∨ ∃ start words, memory.extension = .table start words ∧
    start + 2 ≤ address ∧ address < start + 2 + 2 * words

variable {memory : Memory}

/-- Behind the header only the extension table is touched. -/
theorem not_touched_of_le {address : Nat} (hle : 64 ≤ address)
    (hout : ¬memory.InExtension address) : ¬Touched memory address := by
  rintro (hbyte | ⟨start, words, htable, hstart, hlt⟩)
  · have := hbyte.lt
    omega
  · exact hout ⟨start, words, htable, by omega, hlt⟩

/-- In the header only these bytes are touched, if the table lies apart. -/
theorem not_touched_of_lt (hapart : memory.ExtensionApart) {address : Nat} (hlt : address < 64)
    (hbyte : ¬SetUpByte address) : ¬Touched memory address := by
  rintro (hset | ⟨start, words, htable, hstart, -⟩)
  · exact hbyte hset
  · have := hapart.le_start htable
    omega

/-- While the header is being set up, the extension table stays where it is.  Either there is no
table, before or after, or its length word comes before the fields. -/
theorem extension_eq_of_sameOff {after : Memory} (hapart : memory.ExtensionApart)
    (h : SameOff (Touched memory) memory after) : after.extension = memory.extension := by
  have hversion : after.version = memory.version := by rw [version, version, h.story_eq]
  have hfirst : ¬Touched memory 0x36 :=
    not_touched_of_lt hapart (by decide) (by unfold SetUpByte; omega)
  have hsecond : ¬Touched memory 0x37 :=
    not_touched_of_lt hapart (by decide) (by unfold SetUpByte; omega)
  have hpointer : after.headerWord .extensionTable = memory.headerWord .extensionTable :=
    h.wordAt_eq hfirst hsecond
  by_cases hnone : memory.version < 5 ∨ (memory.headerWord .extensionTable).toNat = 0
  · simp only [extension, hversion, hpointer, if_pos hnone]
  · rw [not_or] at hnone
    have hle : 64 ≤ (memory.headerWord .extensionTable).toNat := by
      rcases hapart with hold | hzero | hle
      · exact absurd hold hnone.1
      · exact absurd (congrArg UInt16.toNat hzero) hnone.2
      · exact hle
    have hlength : ∀ address, (memory.headerWord .extensionTable).toNat ≤ address →
        address < (memory.headerWord .extensionTable).toNat + 2 → ¬Touched memory address := by
      rintro address hge hlt (hset | ⟨start, words, htable, hstart, -⟩)
      · have := hset.lt
        omega
      · obtain ⟨-, -, rfl⟩ := start_eq_of_extension htable
        omega
    exact extension_congr h.story_eq hpointer
      (h.wordAt_eq (hlength _ (Nat.le_refl _) (by omega)) (hlength _ (by omega) (by omega)))

/-- Writing an extension field changes nothing but fields. -/
theorem preserves_setExtensionWord (hapart : memory.ExtensionApart) (field : ExtensionField)
    (value : Word) :
    Preserves (fun draft => SameOff (Touched memory) memory draft.memory)
      (setExtensionWord field value) := by
  refine .bind (fun _ h => h) fun notice => .bind ?_ fun _ => ?_
  · cases notice with
    | none => exact .pure ()
    | some notice => exact fun _ h => h
  intro draft h
  have hextension := extension_eq_of_sameOff hapart h
  rw [Work.on_bind, Edit.on_view]
  cases hplace : draft.memory.extensionAddress? field with
  | none => exact h
  | some address =>
      have hin : ∀ i, i = address ∨ i = address + 1 → Touched memory i := by
        rintro i hi
        unfold extensionAddress? at hplace
        rw [hextension] at hplace
        split at hplace
        case h_1 start words htable =>
            split at hplace
            case isTrue hindex =>
                obtain rfl := Option.some.inj hplace
                have hpos : 1 ≤ field.index := by cases field <;> decide
                exact .inr ⟨start, words, htable, by omega, by omega⟩
            case isFalse => exact nomatch hplace
        case h_2 => exact nomatch hplace
      simp only
      rw [Work.on_bind, Edit.on_view]
      simp only
      split
      case isTrue =>
          by_cases hfit : address + 1 < draft.memory.dynamicCeiling
          · rw [Edit.on_writeWord_of_lt hfit]
            exact h.trans (sameOff_setWord value hfit (hin _ (.inl rfl)) (hin _ (.inr rfl)))
          · obtain ⟨place, hfault⟩ := Edit.on_writeWord_of_le (Nat.not_lt.mp hfit) value
            rw [hfault]
            exact h
      case isFalse => exact h

/-- A change of header fields that are set up. -/
theorem preserves_change {f : Memory → Memory}
    (h : ∀ memory : Memory, SameOff SetUpByte memory (f memory)) :
    Preserves (fun draft => SameOff (Touched memory) memory draft.memory) (Edit.change f) := by
  intro draft hdraft
  obtain ⟨hstory, hbytes⟩ := h draft.memory
  exact hdraft.trans ⟨hstory, fun address hoff => hbytes address fun hset => hoff (.inl hset)⟩

/-- Setting the screen changes bytes that are set up. -/
theorem sameOff_setScreen (info : HostInfo) (memory : Memory) :
    SameOff SetUpByte memory (setScreen info memory) := by
  have hbyte : ∀ {memory : Memory} {field : HeaderField} {value : UInt8},
      SetUpByte field.address → SameOff SetUpByte memory (memory.setHeaderByte field value) :=
    fun h => sameOff_setHeaderByte _ _ h
  have hfont : ∀ {c : Prop} [Decidable c] {first second : HeaderField},
      SetUpByte first.address → SetUpByte second.address →
      SetUpByte (if c then first else second).address := by
    intro c _ first second hfirst hsecond
    split
    · exact hfirst
    · exact hsecond
  have hwidth : SetUpByte HeaderField.fontWidth.address := by decide
  have hheight : SetUpByte HeaderField.fontHeight.address := by decide
  exact (((((sameOff_setHeaderWord .screenWidth _ (by decide) (by decide)).trans
    (sameOff_setHeaderWord .screenHeight _ (by decide) (by decide))).trans
    (hbyte (hfont hheight hwidth))).trans (hbyte (hfont hwidth hheight))).trans
    (hbyte (by decide))).trans (hbyte (by decide))

/-- **What setting up the header is made of:** changes of the listed bytes and writes to
extension fields, in sequence and under conditions.  What all of these have, it has. -/
theorem setUp_of_parts {Q : Edit Unit → Prop} (info : HostInfo) (options : Options)
    (hview : ∀ {next : Nat → Edit Unit}, (∀ version, Q (next version)) →
      Q (Edit.view (·.version) >>= next))
    (hbind : ∀ {edit next : Edit Unit}, Q edit → Q next → Q (edit >>= fun _ => next))
    (hite : ∀ {c : Prop} [Decidable c] {edit other : Edit Unit}, Q edit → Q other →
      Q (if c then edit else other))
    (hchange : ∀ {f : Memory → Memory}, (∀ memory, SameOff SetUpByte memory (f memory)) →
      Q (Edit.change f))
    (hextension : ∀ field value, Q (setExtensionWord field value)) : Q (setUp info options) := by
  have hflags (version : Nat) : Q (Edit.change fun memory =>
      let memory := memory.setHeaderByte .flags1 (flags1 version info (memory.headerByte .flags1))
      let memory := memory.setHeaderWord .flags2 (flags2 version info (memory.headerWord .flags2))
      let memory := memory.setHeaderByte .interpreterNumber options.interpreterNumber
      memory.setHeaderByte .interpreterVersion options.interpreterVersion) := by
    refine hchange fun memory => ?_
    exact (((sameOff_setHeaderByte _ _ (by decide)).trans
      (sameOff_setHeaderWord _ _ (by decide) (by decide))).trans
      (sameOff_setHeaderByte _ _ (by decide))).trans (sameOff_setHeaderByte _ _ (by decide))
  have hscreen : Q (Edit.change fun memory =>
      (memory.setHeaderByte .screenLines info.lines).setHeaderByte .screenColumns
        info.columns) := by
    refine hchange fun memory => ?_
    exact (sameOff_setHeaderByte _ _ (by decide)).trans (sameOff_setHeaderByte _ _ (by decide))
  have hlast : Q (Edit.change fun memory => memory.setHeaderWord .revision 0x0101) :=
    hchange fun _ => sameOff_setHeaderWord _ _ (by decide) (by decide)
  have hfive (version : Nat) : Q (do
      if 5 ≤ version then
        Edit.change (setScreen info)
        setExtensionWord .trueForeground (trueColour info.foreground)
        setExtensionWord .trueBackground (trueColour info.background)
      Edit.change fun memory => memory.setHeaderWord .revision 0x0101) :=
    hite (hbind (hchange (sameOff_setScreen info))
      (hbind (hextension _ _) (hbind (hextension _ _) hlast))) hlast
  exact hview fun version => hbind (hflags version)
    (hite (hbind hscreen (hfive version)) (hfive version))

/-- The story stays. -/
theorem story_setUp (info : HostInfo) (options : Options) (memory : Memory) :
    ((setUp info options).run memory).2.memory.story = memory.story := by
  have hkeeps : (setUp info options).KeepsStory :=
    setUp_of_parts info options (fun h => .bind (Edit.keepsStory_view _) h)
      (fun h hnext => .bind h fun _ => hnext) .ite
      (fun h => Edit.keepsStory_change fun memory => (h memory).story_eq)
      keepsStory_setExtensionWord
  exact hkeeps.eq { memory }

/-- **Setting up the header is local.**  As long as the extension table lies apart,
nothing is touched but the listed bytes of the header and fields of that table,
even where setting up fails. -/
theorem sameOff_setUp (hapart : memory.ExtensionApart) (info : HostInfo) (options : Options) :
    SameOff (Touched memory) memory ((setUp info options).run memory).2.memory := by
  have hall : Preserves (fun draft => SameOff (Touched memory) memory draft.memory)
      (setUp info options) :=
    setUp_of_parts info options (fun h => .bind (fun _ hsame => hsame) h)
      (fun h hnext => .bind h fun _ => hnext) .ite preserves_change
      (preserves_setExtensionWord hapart)
  exact hall { memory } (.refl _ memory)

/-- Work whose faults are all fatal. -/
def FailsFatally {α : Type} (edit : Edit α) : Prop :=
  ∀ draft fault middle, Work.on edit draft = (.error fault, middle) → fault.isFatal = true

/-- Work that goes well fails fatally, for want of failures. -/
theorem FailsFatally.of_ok {α : Type} {edit : Edit α}
    (h : ∀ draft, ∃ a middle, Work.on edit draft = (.ok a, middle)) : FailsFatally edit := by
  intro draft fault middle hfault
  obtain ⟨a, middle', hok⟩ := h draft
  rw [hok] at hfault
  exact nomatch hfault

/-- Work done in turn fails fatally if each of its parts does. -/
theorem FailsFatally.bind {α β : Type} {edit : Edit α} {next : α → Edit β}
    (h : FailsFatally edit) (hnext : ∀ a, FailsFatally (next a)) : FailsFatally (edit >>= next) := by
  intro draft fault middle hfault
  rw [Work.on_bind] at hfault
  rcases hrun : Work.on edit draft with ⟨fault' | a, middle'⟩ <;> rw [hrun] at hfault
  · obtain ⟨⟨⟩, -⟩ := Prod.mk.inj hfault
    exact h draft fault middle' hrun
  · exact hnext a middle' fault middle hfault

/-- A choice fails fatally if both sides do. -/
theorem FailsFatally.ite {α : Type} {c : Prop} [Decidable c] {edit other : Edit α}
    (h : FailsFatally edit) (hother : FailsFatally other) :
    FailsFatally (if c then edit else other) := by
  split
  · exact h
  · exact hother

/-- Changing memory does not fail. -/
theorem failsFatally_change (f : Memory → Memory) : FailsFatally (Edit.change f) :=
  .of_ok fun _ => ⟨(), _, rfl⟩

/-- Looking at memory does not fail. -/
theorem failsFatally_view {α : Type} (f : Memory → α) : FailsFatally (Edit.view f) :=
  .of_ok fun _ => ⟨_, _, rfl⟩

/-- Writing a field of the extension fails fatally only. -/
theorem failsFatally_setExtensionWord (field : ExtensionField) (value : Word) :
    FailsFatally (setExtensionWord field value) := by
  refine .bind (failsFatally_view _) fun notice => .bind ?_ fun _ =>
    .bind (failsFatally_view _) fun place => ?_
  · cases notice with
    | none => exact .of_ok fun _ => ⟨(), _, rfl⟩
    | some notice => exact .of_ok fun _ => ⟨(), _, rfl⟩
  cases place with
  | none => exact .of_ok fun _ => ⟨(), _, rfl⟩
  | some address =>
      refine .bind (failsFatally_view _) fun ceiling => .ite ?_ (.of_ok fun _ => ⟨(), _, rfl⟩)
      intro draft fault middle hfault
      by_cases hfit : address + 1 < draft.memory.dynamicCeiling
      · rw [Edit.on_writeWord_of_lt hfit] at hfault
        exact nomatch hfault
      · obtain ⟨place, hfault'⟩ := Edit.on_writeWord_of_le (Nat.not_lt.mp hfit) value
        rw [hfault'] at hfault
        obtain ⟨⟨⟩, -⟩ := Prod.mk.inj hfault
        exact Edit.isFatal_writeFault _ place

/-- A header that cannot be set up is no fault of a snapshot: it stops the machine. -/
theorem failsFatally_setUp (info : HostInfo) (options : Options) :
    FailsFatally (setUp info options) :=
  setUp_of_parts info options (fun h => .bind (failsFatally_view _) h)
    (fun h hnext => .bind h fun _ => hnext) .ite (fun _ => failsFatally_change _)
    failsFatally_setExtensionWord

end Header

namespace Snapshot

open Memory Header

/-- The bytes by which a story is told from others. -/
def IdentityByte (address : Nat) : Prop :=
  (0x02 ≤ address ∧ address ≤ 0x03) ∨ (0x12 ≤ address ∧ address ≤ 0x17) ∨
    (0x1c ≤ address ∧ address ≤ 0x1d)

/-- The serial number is six bytes of the header. -/
theorem serial_eq_map (memory : Memory) :
    memory.serial = (List.range 6).map fun i => memory.byteAt (0x12 + i) := by
  have hsize : 64 ≤ memory.bytes.size :=
    Nat.le_trans memory.header_le_ceiling memory.ceiling_le_size
  apply List.ext_getElem
  · simp [serial]
    omega
  · intro i hi hi'
    have hlt : i < 6 := by simpa using hi'
    have hget : 0x12 + i < memory.bytes.size := by omega
    simp [serial, byteAt, Array.getD, hget]

/-- The addresses of the bytes by which a story is told from others, in their order. -/
def identityPlaces : List Nat :=
  [0x02, 0x03, 0x12, 0x13, 0x14, 0x15, 0x16, 0x17, 0x1c, 0x1d]

/-- The places of identity are the bytes that tell stories apart. -/
theorem mem_identityPlaces {address : Nat} : address ∈ identityPlaces ↔ IdentityByte address := by
  simp only [identityPlaces, List.mem_cons, List.not_mem_nil, or_false]
  unfold IdentityByte
  omega

/-- The identity of a story is what stands at these places. -/
theorem identity_eq_map (memory : Memory) :
    identity memory = identityPlaces.map memory.byteAt := by
  have hword (field : HeaderField) : (memory.headerWord field).toBytes
      = [memory.byteAt field.address, memory.byteAt (field.address + 1)] := by
    simp [headerWord, Memory.wordAt, Word.toBytes]
  rw [identity, serial_eq_map, hword, hword]
  rfl

/-- The identity is made of its own bytes. -/
theorem identity_eq_iff {memory after : Memory} :
    identity after = identity memory ↔
      ∀ address, IdentityByte address → after.byteAt address = memory.byteAt address := by
  rw [identity_eq_map, identity_eq_map, List.map_inj_left]
  simp only [mem_identityPlaces]

end Snapshot

end StoryMachine
