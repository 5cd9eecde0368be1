import StoryMachine.Proofs.Faults
import StoryMachine.Proofs.Restarting

/-!
# When the header can be set up

All fields of the header can be written.  The two fields of the extension table that are written
too may be missing or lie in static memory, and then the write is dropped.  There is one place in
between: a field whose first byte is the last of dynamic memory is taken for one that can be
written, and its second byte cannot.  Such a field is `Straddling`.

Setting up the header is a function on memory (`Memory.setUp`) that goes as far as the first
straddling field (`on_setUp`), and that is the only way in which it fails.  Everything that sets up
the header fails with it: a machine is not created, not restarted, and does not go back to a
snapshot.
-/

namespace StoryMachine

namespace Memory

variable (memory : Memory)

/-- Whether the first byte of an extension field is the last of dynamic memory. -/
def Straddling (field : ExtensionField) : Prop :=
  memory.extensionAddress? field = some (memory.dynamicCeiling - 1)

instance (field : ExtensionField) : Decidable (memory.Straddling field) :=
  inferInstanceAs (Decidable (_ = _))

/-- The fault of writing such a field. -/
def straddlingFault : Fault :=
  { kind := .writeToStatic, detail := Numeral.marked 5 memory.dynamicCeiling }

/-- Memory with an extension field written, if there is one in dynamic memory. -/
def setExtension (field : ExtensionField) (value : Word) : Memory :=
  match memory.extensionAddress? field with
  | some address =>
    if h : address + 1 < memory.dynamicCeiling then memory.setWord address value h else memory
  | none => memory

variable {memory} {field : ExtensionField} {value : Word} {address : Nat}

/-- A table lies in the story, with all its words. -/
theorem end_le_of_extension {start words : Nat} (h : memory.extension = .table start words) :
    start + 2 + 2 * words ≤ memory.size := by
  unfold extension at h
  simp only at h
  split at h
  case isTrue => exact nomatch h
  case isFalse =>
    split at h
    case isTrue => exact nomatch h
    case isFalse =>
      split at h
      case isTrue => exact nomatch h
      case isFalse hfits =>
        obtain ⟨rfl, rfl⟩ := Extension.table.inj h
        omega

/-- Where a field of the table is. -/
theorem extensionAddress?_eq_some :
    memory.extensionAddress? field = some address ↔
      ∃ start words, memory.extension = .table start words ∧ field.index ≤ words ∧
        address = start + 2 * field.index := by
  unfold extensionAddress?
  constructor
  · intro h
    split at h
    case h_1 start words htable =>
      split at h
      case isTrue hindex => exact ⟨start, words, htable, hindex, (Option.some.inj h).symm⟩
      case isFalse => exact nomatch h
    case h_2 => exact nomatch h
  · rintro ⟨start, words, htable, hindex, rfl⟩
    rw [htable]
    exact if_pos hindex

/-- An extension field that there is lies in memory. -/
theorem lt_of_extensionAddress? (h : memory.extensionAddress? field = some address) :
    address + 1 < memory.size := by
  obtain ⟨start, words, htable, hindex, rfl⟩ := extensionAddress?_eq_some.mp h
  have hend := end_le_of_extension htable
  omega

/-- A straddling field ends in static memory, and not outside of the story. -/
theorem writeFault_of_straddling (h : memory.Straddling field) :
    memory.writeFault memory.dynamicCeiling = memory.straddlingFault := by
  have hlt := lt_of_extensionAddress? h
  have hceiling := memory.header_le_ceiling
  exact if_neg (by omega)

/-- A field that straddles the end of dynamic memory is not written. -/
theorem setExtension_of_straddling (h : memory.Straddling field) :
    memory.setExtension field value = memory := by
  unfold setExtension
  rw [h]
  have hceiling := memory.header_le_ceiling
  exact dif_neg (by omega)

/-- A field that there is not is not written. -/
theorem setExtension_of_none (h : memory.extensionAddress? field = none) :
    memory.setExtension field value = memory := by
  unfold setExtension
  rw [h]

/-- The version belongs to the story. -/
theorem version_congr {after : Memory} (hstory : after.story = memory.story) :
    after.version = memory.version :=
  congrArg Story.version hstory

/-- Before version 5 there are no extension tables. -/
theorem extensionAddress?_of_version (h : memory.version < 5) (field : ExtensionField) :
    memory.extensionAddress? field = none := by
  have hextension : memory.extension = .absent := if_pos (.inl h)
  unfold extensionAddress?
  rw [hextension]

/-- Writing a field leaves the story. -/
theorem story_setExtension (memory : Memory) (field : ExtensionField) (value : Word) :
    (memory.setExtension field value).story = memory.story := by
  unfold setExtension
  split
  · split
    · rfl
    · rfl
  · rfl

/-- Writing a field changes its two bytes at most. -/
theorem sameOff_setExtension (memory : Memory) (field : ExtensionField) (value : Word) :
    SameOff (fun place => ∃ address, memory.extensionAddress? field = some address ∧
      (place = address ∨ place = address + 1)) memory (memory.setExtension field value) := by
  unfold setExtension
  cases hplace : memory.extensionAddress? field with
  | none => exact .refl _ memory
  | some address =>
    dsimp only
    split
    · exact sameOff_setWord value _ ⟨address, rfl, .inl rfl⟩ ⟨address, rfl, .inr rfl⟩
    · exact .refl _ memory

/-- A field straddles wherever the table and dynamic memory are the same. -/
theorem straddling_congr {after : Memory} (hstory : after.story = memory.story)
    (hextension : after.extension = memory.extension) (field : ExtensionField) :
    after.Straddling field ↔ memory.Straddling field := by
  unfold Straddling extensionAddress? dynamicCeiling
  rw [hextension, hstory]

/-- The fault of a straddling field belongs to the story. -/
theorem straddlingFault_congr {after : Memory} (hstory : after.story = memory.story) :
    after.straddlingFault = memory.straddlingFault := by
  unfold straddlingFault dynamicCeiling
  rw [hstory]

/-! ## What is written -/

/-- The flags and who reads them, in all versions. -/
def setFlags (version : Nat) (info : HostInfo) (options : Options) (memory : Memory) : Memory :=
  let memory := memory.setHeaderByte .flags1
    (Header.flags1 version info (memory.headerByte .flags1))
  let memory := memory.setHeaderWord .flags2
    (Header.flags2 version info (memory.headerWord .flags2))
  let memory := memory.setHeaderByte .interpreterNumber options.interpreterNumber
  memory.setHeaderByte .interpreterVersion options.interpreterVersion

/-- The size of the screen in characters. -/
def setSize (info : HostInfo) (memory : Memory) : Memory :=
  (memory.setHeaderByte .screenLines info.lines).setHeaderByte .screenColumns info.columns

/-- The fields of the header that are written before those of the extension. -/
def setFields (info : HostInfo) (options : Options) (memory : Memory) : Memory :=
  let flagged := setFlags memory.version info options memory
  if 5 ≤ memory.version then Header.setScreen info (setSize info flagged)
  else if 4 ≤ memory.version then setSize info flagged
  else flagged

/-- The default foreground colour, where the extension table has a field for it. -/
def setForeground (info : HostInfo) (memory : Memory) : Memory :=
  memory.setExtension .trueForeground (Header.trueColour info.foreground)

/-- The foreground colour leaves the story. -/
theorem story_setForeground (info : HostInfo) (memory : Memory) :
    (setForeground info memory).story = memory.story :=
  story_setExtension memory _ _

/-- The foreground colour leaves where a field would straddle. -/
theorem straddlingFault_setForeground (info : HostInfo) (memory : Memory) :
    (setForeground info memory).straddlingFault = memory.straddlingFault :=
  straddlingFault_congr (story_setForeground info memory)

/-- The default background colour, likewise. -/
def setBackground (info : HostInfo) (memory : Memory) : Memory :=
  memory.setExtension .trueBackground (Header.trueColour info.background)

/-- Memory with the header set up. -/
def setUp (info : HostInfo) (options : Options) (memory : Memory) : Memory :=
  (setBackground info (setForeground info (setFields info options memory))).setHeaderWord
    .revision 0x0101

/-- Whether one of the two extension fields straddles when its turn comes. -/
def Blocked (info : HostInfo) (options : Options) (memory : Memory) : Prop :=
  (setFields info options memory).Straddling .trueForeground ∨
    (setForeground info (setFields info options memory)).Straddling .trueBackground

instance (info : HostInfo) (options : Options) (memory : Memory) :
    Decidable (Blocked info options memory) :=
  inferInstanceAs (Decidable (_ ∨ _))

/-- Setting the flags changes header bytes that are set up. -/
theorem sameOff_setFlags (version : Nat) (info : HostInfo) (options : Options) (memory : Memory) :
    SameOff Header.SetUpByte memory (setFlags version info options memory) :=
  (((sameOff_setHeaderByte .flags1 _ (by decide)).trans
    (sameOff_setHeaderWord .flags2 _ (by decide) (by decide))).trans
    (sameOff_setHeaderByte .interpreterNumber _ (by decide))).trans
    (sameOff_setHeaderByte .interpreterVersion _ (by decide))

/-- Setting the size changes header bytes that are set up. -/
theorem sameOff_setSize (info : HostInfo) (memory : Memory) :
    SameOff Header.SetUpByte memory (setSize info memory) :=
  (sameOff_setHeaderByte .screenLines _ (by decide)).trans
    (sameOff_setHeaderByte .screenColumns _ (by decide))

/-- Setting the fields changes header bytes that are set up. -/
theorem sameOff_setFields (info : HostInfo) (options : Options) (memory : Memory) :
    SameOff Header.SetUpByte memory (setFields info options memory) := by
  have hflags := sameOff_setFlags memory.version info options memory
  have hsize := hflags.trans (sameOff_setSize info _)
  unfold setFields
  split
  · exact hsize.trans (Header.sameOff_setScreen info _)
  · split
    · exact hsize
    · exact hflags

end Memory

namespace Header

open Memory Work

variable {memory : Memory} {draft : Draft}

/-- A field that is written is one of the places that setting up may change. -/
theorem touched_of_extensionAddress? {field : ExtensionField} {address place : Nat}
    (h : memory.extensionAddress? field = some address)
    (hplace : place = address ∨ place = address + 1) : Touched memory place := by
  obtain ⟨start, words, htable, hindex, rfl⟩ := extensionAddress?_eq_some.mp h
  have hpos : 1 ≤ field.index := by cases field <;> decide
  exact .inr ⟨start, words, htable, by omega, by omega⟩

/-- As long as the extension table lies apart, nothing that is written before a field moves it. -/
theorem extension_setFields (hapart : memory.ExtensionApart) (info : HostInfo) (options : Options) :
    (setFields info options memory).extension = memory.extension :=
  extension_eq_of_sameOff hapart ((sameOff_setFields info options memory).mono fun _ h => .inl h)

/-- Setting the foreground colour leaves where the extension table is. -/
theorem extension_setForeground (hapart : memory.ExtensionApart) (info : HostInfo)
    (options : Options) :
    (setForeground info (setFields info options memory)).extension = memory.extension := by
  have hfields : SameOff (Touched memory) memory (setFields info options memory) :=
    (sameOff_setFields info options memory).mono fun _ h => .inl h
  refine extension_eq_of_sameOff hapart (hfields.trans ((sameOff_setExtension _ _ _).mono ?_))
  rintro place ⟨address, haddress, hplace⟩
  have hthere : memory.extensionAddress? .trueForeground = some address := by
    rwa [extensionAddress?, extension_setFields hapart] at haddress
  exact touched_of_extensionAddress? hthere hplace

/-- Such a header can be set up unless one of the two fields straddles from the start. -/
theorem blocked_iff (hapart : memory.ExtensionApart) (info : HostInfo) (options : Options) :
    Blocked info options memory ↔
      memory.Straddling .trueForeground ∨ memory.Straddling .trueBackground := by
  have hstory := (sameOff_setFields info options memory).story_eq
  exact or_congr (straddling_congr hstory (extension_setFields hapart info options) _)
    (straddling_congr ((story_setForeground info _).trans hstory)
      (extension_setForeground hapart info options) _)

/-- A notice that there may be leaves memory. -/
theorem on_noteIf (notice : Option Notice) :
    ∃ notices, on (Edit.noteIf notice) draft = (.ok (), { draft with notices }) := by
  cases notice with
  | none => exact ⟨_, rfl⟩
  | some notice => exact ⟨_, rfl⟩

/-- What writing an extension field comes to, after the notice about the table. -/
theorem on_setExtensionWord (field : ExtensionField) (value : Word) (draft : Draft) :
    ∃ notices, on (setExtensionWord field value) draft
      = (if draft.memory.Straddling field then .error draft.memory.straddlingFault else .ok (),
        { memory := draft.memory.setExtension field value, notices }) := by
  obtain ⟨notices, hnote⟩ := @on_noteIf draft draft.memory.extension.notice
  refine ⟨notices, ?_⟩
  unfold setExtensionWord
  rw [on_bind_of_ok (Edit.on_view draft _), on_bind_of_ok hnote, on_bind_of_ok (Edit.on_view _ _)]
  dsimp only
  have hceiling := draft.memory.header_le_ceiling
  by_cases hstraddling : draft.memory.Straddling field
  · have hplace : draft.memory.extensionAddress? field = some (draft.memory.dynamicCeiling - 1) :=
      hstraddling
    rw [if_pos hstraddling, setExtension_of_straddling hstraddling,
      ← writeFault_of_straddling hstraddling, hplace]
    dsimp only
    rw [on_bind_of_ok (Edit.on_view _ _), if_pos (by dsimp only; omega)]
    have hlast : draft.memory.dynamicCeiling - 1 + 1 = draft.memory.dynamicCeiling := by omega
    refine (Edit.on_writeWord_last ?_ value).trans ?_
    · exact hlast
    · rw [hlast]
  · rw [if_neg hstraddling]
    unfold setExtension
    cases hplace : draft.memory.extensionAddress? field with
    | none => rfl
    | some address =>
      dsimp only
      rw [on_bind_of_ok (Edit.on_view _ _)]
      dsimp only
      by_cases hfits : address + 1 < draft.memory.dynamicCeiling
      · rw [dif_pos hfits, if_pos (by omega)]
        exact @Edit.on_writeWord_of_lt { draft with notices } address hfits value
      · have hbehind : ¬address < draft.memory.dynamicCeiling := by
          intro hlt
          refine hstraddling (hplace.trans (congrArg some ?_))
          omega
        rw [dif_neg hfits, if_neg hbehind]
        rfl

/-! ## The whole header -/

theorem on_change (f : Memory → Memory) (draft : Draft) :
    on (Edit.change f) draft = (.ok (), { draft with memory := f draft.memory }) := rfl

/-- The two extension fields, one after the other, and the revision. -/
def setExtensionWords (info : HostInfo) : Edit Unit := do
  setExtensionWord .trueForeground (trueColour info.foreground)
  setExtensionWord .trueBackground (trueColour info.background)
  Edit.change fun memory => memory.setHeaderWord .revision 0x0101

/-- The foreground colour is written, unless its field straddles. -/
theorem on_setForeground (info : HostInfo) (draft : Draft) :
    ∃ notices, on (setExtensionWord .trueForeground (trueColour info.foreground)) draft
      = (if draft.memory.Straddling .trueForeground then .error draft.memory.straddlingFault
          else .ok (), { memory := setForeground info draft.memory, notices }) :=
  on_setExtensionWord _ _ draft

/-- The background colour is written, unless its field straddles. -/
theorem on_setBackground (info : HostInfo) (draft : Draft) :
    ∃ notices, on (setExtensionWord .trueBackground (trueColour info.background)) draft
      = (if draft.memory.Straddling .trueBackground then .error draft.memory.straddlingFault
          else .ok (), { memory := setBackground info draft.memory, notices }) :=
  on_setExtensionWord _ _ draft

/-- The two colours are written one after the other, up to a field that straddles. -/
theorem on_setExtensionWords (info : HostInfo) (draft : Draft) :
    ∃ notices, on (setExtensionWords info) draft
      = if draft.memory.Straddling .trueForeground ∨
            (setForeground info draft.memory).Straddling .trueBackground
        then (.error draft.memory.straddlingFault,
          { memory := setForeground info draft.memory, notices })
        else (.ok (), { memory := (setBackground info (setForeground info
          draft.memory)).setHeaderWord .revision 0x0101, notices }) := by
  unfold setExtensionWords
  obtain ⟨notices, hforeground⟩ := on_setForeground info draft
  by_cases hfirst : draft.memory.Straddling .trueForeground
  · rw [if_pos hfirst] at hforeground
    rw [on_bind_of_error hforeground]
    exact ⟨notices, (if_pos (.inl hfirst)).symm⟩
  rw [if_neg hfirst] at hforeground
  obtain ⟨notices, hbackground⟩ :=
    on_setBackground info { memory := setForeground info draft.memory, notices }
  rw [on_bind_of_ok hforeground]
  refine ⟨notices, ?_⟩
  by_cases hsecond : (setForeground info draft.memory).Straddling .trueBackground
  · rw [if_pos hsecond] at hbackground
    rw [on_bind_of_error hbackground, if_pos (.inr hsecond), straddlingFault_setForeground]
    dsimp only
    rw [show setBackground info (setForeground info draft.memory) = setForeground info draft.memory
      from setExtension_of_straddling hsecond]
  · rw [if_neg hsecond] at hbackground
    rw [on_bind_of_ok hbackground, on_change, if_neg (not_or.mpr ⟨hfirst, hsecond⟩)]

/-- The fields of the header come first.  Only from version 5 on the table is looked at. -/
theorem on_setUp_eq (info : HostInfo) (options : Options) (memory : Memory) :
    (setUp info options).run memory
      = if 5 ≤ memory.version
        then on (setExtensionWords info) { memory := setFields info options memory }
        else (.ok (),
          { memory := (setFields info options memory).setHeaderWord .revision 0x0101 }) := by
  unfold setUp setExtensionWords setFields
  by_cases hfive : 5 ≤ memory.version
  · have hfour : 4 ≤ memory.version := by omega
    simp only [Edit.run_eq_on, on_bind, Edit.on_view, on_change, if_pos hfive, if_pos hfour]
    rfl
  · by_cases hfour : 4 ≤ memory.version
    · simp only [Edit.run_eq_on, on_bind, Edit.on_view, on_change, if_neg hfive, if_pos hfour]
      rfl
    · simp only [Edit.run_eq_on, on_bind, Edit.on_view, on_change, if_neg hfive, if_neg hfour]
      rfl

/-- **Setting up the header** is `Memory.setUp` unless one of the two fields straddles, and then
it goes as far as that field.  Where there is no table, the two writes are nothing. -/
theorem on_setUp (info : HostInfo) (options : Options) (memory : Memory) :
    ∃ notices, (setUp info options).run memory
      = if Blocked info options memory
        then (.error memory.straddlingFault,
          { memory := setForeground info (setFields info options memory), notices })
        else (.ok (), { memory := Memory.setUp info options memory, notices }) := by
  have hstory := (sameOff_setFields info options memory).story_eq
  rw [on_setUp_eq]
  by_cases hfive : 5 ≤ memory.version
  · rw [if_pos hfive]
    obtain ⟨notices, hon⟩ := on_setExtensionWords info { memory := setFields info options memory }
    refine ⟨notices, hon.trans ?_⟩
    rw [← straddlingFault_congr hstory]
    rfl
  · rw [if_neg hfive]
    have hnone (field : ExtensionField) {after : Memory} (hafter : after.story = memory.story) :
        after.extensionAddress? field = none :=
      extensionAddress?_of_version (Nat.lt_of_not_le (version_congr hafter ▸ hfive)) field
    have hforeground : setForeground info (setFields info options memory)
        = setFields info options memory := setExtension_of_none (hnone _ hstory)
    have hbackground : setBackground info (setFields info options memory)
        = setFields info options memory := setExtension_of_none (hnone _ hstory)
    have hfree : ¬Blocked info options memory := by
      unfold Blocked Straddling
      rw [hforeground, hnone _ hstory, hnone _ hstory]
      exact fun h => h.elim nofun nofun
    refine ⟨#[], ?_⟩
    rw [if_neg hfree, Memory.setUp, hforeground, hbackground]

end Header

namespace Machine

open Memory Play

variable {W : Type}

/-! ## What needs the header -/

/-- The alphabet of a story whose header is set up. -/
def alphabetOf (memory : Memory) : Except Fault Alphabet :=
  let table := if 5 ≤ memory.version then (memory.headerWord .alphabetTable).toNat else 0
  if table = 0 then .ok .standard else Alphabet.load memory.bytes table

/-- The extra characters of such a story. -/
def unicodeOf (memory : Memory) : Except Fault UnicodeTable :=
  let table := (memory.extensionWord .unicodeTable).toNat
  if table = 0 then .ok .standard else UnicodeTable.load memory.bytes table

/-- Reading the tables of the text comes to this. -/
theorem loadCodec_eq (draft : Draft) :
    (Work.on loadCodec draft).1 = (alphabetOf draft.memory).bind fun alphabet =>
      (unicodeOf draft.memory).map fun unicode =>
        { version := draft.memory.version, alphabet, unicode,
          abbreviations := (draft.memory.headerWord .abbreviationsTable).toNat } := by
  obtain ⟨notices, hnote⟩ := @Header.on_noteIf draft draft.memory.extension.notice
  have hunicode (alphabet : Alphabet) : (Work.on (do
      Edit.noteIf draft.memory.extension.notice
      let unicodeTable := (draft.memory.extensionWord .unicodeTable).toNat
      let unicode ←
        if unicodeTable = 0 then pure .standard
        else Edit.look fun memory => UnicodeTable.load memory.bytes unicodeTable
      return { version := draft.memory.version, alphabet, unicode,
               abbreviations := (draft.memory.headerWord .abbreviationsTable).toNat } :
        Edit Codec) draft).1
      = (unicodeOf draft.memory).map fun unicode =>
        { version := draft.memory.version, alphabet, unicode,
          abbreviations := (draft.memory.headerWord .abbreviationsTable).toNat } := by
    rw [Work.on_bind_of_ok hnote]
    unfold unicodeOf
    dsimp only
    split
    · rfl
    · rw [Work.on_bind, Edit.on_look]
      cases UnicodeTable.load draft.memory.bytes _ with
      | error fault => rfl
      | ok unicode => rfl
  unfold loadCodec alphabetOf
  rw [Work.on_bind_of_ok (Edit.on_view draft id)]
  dsimp only [id]
  generalize (if 5 ≤ draft.memory.version then (draft.memory.headerWord .alphabetTable).toNat
    else 0) = table
  split
  · exact hunicode .standard
  · rw [Work.on_bind, Edit.on_look]
    cases Alphabet.load draft.memory.bytes table with
    | error fault => rfl
    | ok alphabet => exact hunicode alphabet

/-- **A story starts if it has an entrance.** -/
theorem outcome_start (host : Host (StateM W)) (machine : Machine) (w : W) :
    (machine.play host start w).1.1 = (entrance machine.memory).map fun _ => () := by
  rw [play_start_eq]
  cases entrance machine.memory with
  | error fault => rfl
  | ok place => rfl

/-- What is left to do when a machine has been put together. -/
def enter (host : Host (StateM W)) (machine : Machine) : Work W Machine := do
  let (outcome, machine) ← liftM (machine.play host start)
  MonadExcept.ofExcept outcome
  let size := machine.memory.size
  liftM <| host.note <| .remark <|
    s!"version {machine.memory.version} story, {size} bytes, starts at {Numeral.marked 5 machine.pc}"
  return machine

/-- What is left to do in creating a machine goes well if there is an entrance. -/
theorem outcome_enter (host : Host (StateM W)) (machine : Machine) (w : W) :
    (Work.on (enter host machine) w).1.map (fun _ => ())
      = (entrance machine.memory).map fun _ => () := by
  unfold enter
  rw [Work.on_bind_of_ok (Work.on_liftM w _), play_start_eq]
  cases entrance machine.memory with
  | error fault => rfl
  | ok place => rfl

/-- Creating a machine is setting up the header, reading the tables of the text, and entering the
story.  Where the seed comes from does not matter. -/
theorem create_eq (host : Host (StateM W)) {image : Array UInt8} {options : Options} (w : W)
    {memory : Memory} (hmemory : Memory.ofImage image = .ok memory) :
    (create host image options w).1.map (fun _ => ())
      = let (outcome, draft) :=
          Edit.run (do Header.setUp (host.info w).1 options; loadCodec) memory
        outcome.bind fun _ => (entrance draft.memory).map fun _ => () := by
  show (Work.on _ w).1.map _ = _
  have hread : Work.on (MonadExcept.ofExcept (Memory.ofImage image)) w = (.ok memory, w) := by
    rw [Work.on_ofExcept, hmemory]
  rw [Work.on_bind_of_ok hread, Work.on_bind_of_ok (Work.on_liftM w _)]
  rcases Edit.run (do Header.setUp (host.info w).1 options; loadCodec) memory
    with ⟨outcome, draft⟩
  dsimp only
  rw [Work.on_bind_of_ok (Work.on_liftM _ _)]
  cases outcome with
  | error fault =>
      rw [Work.on_bind_of_error (Work.on_ofExcept _ _)]
      rfl
  | ok codec =>
      have henter (seed : UInt32) (v : W) :=
        outcome_enter host (assemble draft.memory codec options (host.info w).1 seed) v
      rw [Work.on_bind_of_ok (Work.on_ofExcept _ _)]
      cases options.randomSeed with
      | some seed =>
          dsimp only
          rw [pure_bind]
          exact henter seed _
      | none =>
          dsimp only
          rw [Work.on_bind_of_ok (Work.on_liftM _ _)]
          exact henter _ _

/-! ## What comes of it -/

/-- Whether a machine is created: unless the header is blocked, it is up to the rest. -/
theorem created_unless_blocked (host : Host (StateM W)) {image : Array UInt8} {options : Options}
    (w : W) {memory : Memory} (hmemory : Memory.ofImage image = .ok memory) :
    (create host image options w).1.map (fun _ => ())
      = if Blocked (host.info w).1 options memory then .error memory.straddlingFault
        else (alphabetOf (setUp (host.info w).1 options memory)).bind fun _ =>
          (unicodeOf (setUp (host.info w).1 options memory)).bind fun _ =>
            (entrance (setUp (host.info w).1 options memory)).map fun _ => () := by
  obtain ⟨notices, hsetUp⟩ := Header.on_setUp (host.info w).1 options memory
  have hrun : Work.on (Header.setUp (host.info w).1 options) { memory } = _ := hsetUp
  rw [create_eq host w hmemory, Edit.run_eq_on]
  by_cases hblocked : Blocked (host.info w).1 options memory
  · rw [if_pos hblocked] at hrun ⊢
    rw [Work.on_bind_of_error hrun]
    rfl
  · rw [if_neg hblocked] at hrun ⊢
    have hload := loadCodec_eq { memory := setUp (host.info w).1 options memory, notices }
    have hkept := keeps_loadCodec.eq { memory := setUp (host.info w).1 options memory, notices }
    rw [Work.on_bind_of_ok hrun]
    dsimp only
    rw [hload, hkept]
    dsimp only
    cases alphabetOf (setUp (host.info w).1 options memory) with
    | error fault => rfl
    | ok alphabet =>
        cases unicodeOf (setUp (host.info w).1 options memory) with
        | error fault => rfl
        | ok unicode =>
            cases entrance (setUp (host.info w).1 options memory) with
            | error fault => rfl
            | ok place => rfl

/-- Whether a machine is restarted.  The flags that are put back do not move the place where the
story is entered. -/
theorem restarted_unless_blocked (host : Host (StateM W)) (machine : Machine) (w : W) :
    (machine.play host restart w).1.1
      = if Blocked (host.info w).1 machine.options machine.memory.reset
        then .error machine.memory.straddlingFault
        else (entrance (setUp (host.info w).1 machine.options machine.memory.reset)).map
          fun _ => () := by
  obtain ⟨notices, hsetUp⟩ :=
    Header.on_setUp (host.info w).1 machine.options machine.memory.reset
  unfold restart
  rw [play_bind_of_ok (play_get machine host w), play_bind_of_ok (play_ask machine host w _),
    play_bind_of_ok (play_modify machine host _ _), play_bind_of_ok (play_get _ host _), play_bind,
    play_edit]
  dsimp only
  rw [hsetUp]
  by_cases hblocked : Blocked (host.info w).1 machine.options machine.memory.reset
  · rw [if_pos hblocked, if_pos hblocked]
    rfl
  · rw [if_neg hblocked, if_neg hblocked]
    generalize setUp (host.info w).1 machine.options machine.memory.reset = ready
    dsimp only
    rw [play_bind_of_ok (play_edit _ host _ _), play_bind_of_ok (play_modify _ host _ _),
      play_bind_of_ok (play_note _ host _ _), outcome_start]
    exact congrArg (Except.map fun _ => ())
      (entrance_congr (sameOff_restoreFlags ready machine.memory))

/-- What becomes of an accepted snapshot. -/
theorem restored_unless_blocked (host : Host (StateM W)) (machine : Machine) (w : W)
    {bytes : List UInt8} {restored : Restored} {memory : Memory}
    (hparse : Snapshot.parse bytes machine.memory = .ok restored)
    (hmemory : machine.memory.setDynamic restored.dynamic = .ok memory) :
    ∃ w', machine.play host (applySnapshot bytes) w
      = if Blocked machine.info machine.options memory
        then ((.error memory.straddlingFault,
          { machine with
            memory := setForeground machine.info
              (setFields machine.info machine.options memory) }), w')
        else (machine.reloaded (restoreFlags (keptFlags machine.memory)
          (setUp machine.info machine.options memory)) restored.stack).play host
            (completeRestore restored.pc) w' := by
  obtain ⟨v, hback⟩ := play_applySnapshot_of_accepted host w hparse
  obtain ⟨notices, hsetUp⟩ := Header.on_setUp machine.info machine.options memory
  rw [hback]
  by_cases hblocked : Blocked machine.info machine.options memory
  · simp only [if_pos hblocked] at hsetUp ⊢
    exact play_goBack_of_unready host v hmemory hsetUp
  · simp only [if_neg hblocked] at hsetUp ⊢
    exact play_goBack_of_ready host v hmemory ⟨_, hsetUp, rfl⟩

/-- **The header is set up unless a field straddles.**  Writing an extension field fails where its
first byte is the last of dynamic memory, and nowhere else; setting up the header fails where that
happens to one of the two fields that are set up.  If the extension table lies apart, this can be
told from the memory as it was.  Creating a machine, restarting it and going back to a snapshot
then fail with the same fault, and otherwise it is up to what comes after the header. -/
theorem set_up_unless_blocked (host : Host (StateM W)) (w : W) :
    (∀ field value (draft : Draft), (Work.on (Header.setExtensionWord field value) draft).1
      = if draft.memory.Straddling field then .error draft.memory.straddlingFault else .ok ()) ∧
    (∀ info options memory, ((Header.setUp info options).run memory).1
      = if Blocked info options memory then .error memory.straddlingFault else .ok ()) ∧
    (∀ info options memory, memory.ExtensionApart → (Blocked info options memory ↔
      memory.Straddling .trueForeground ∨ memory.Straddling .trueBackground)) ∧
    (∀ image options memory, Memory.ofImage image = .ok memory →
      (create host image options w).1.map (fun _ => ())
        = if Blocked (host.info w).1 options memory then .error memory.straddlingFault
          else (alphabetOf (setUp (host.info w).1 options memory)).bind fun _ =>
            (unicodeOf (setUp (host.info w).1 options memory)).bind fun _ =>
              (entrance (setUp (host.info w).1 options memory)).map fun _ => ()) ∧
    (∀ machine : Machine, (machine.play host restart w).1.1
      = if Blocked (host.info w).1 machine.options machine.memory.reset
        then .error machine.memory.straddlingFault
        else (entrance (setUp (host.info w).1 machine.options machine.memory.reset)).map
          fun _ => ()) ∧
    (∀ (machine : Machine) bytes restored memory,
      Snapshot.parse bytes machine.memory = .ok restored →
      machine.memory.setDynamic restored.dynamic = .ok memory →
      ∃ w', machine.play host (applySnapshot bytes) w
        = if Blocked machine.info machine.options memory
          then ((.error memory.straddlingFault,
            { machine with
              memory := setForeground machine.info
                (setFields machine.info machine.options memory) }), w')
          else (machine.reloaded (restoreFlags (keptFlags machine.memory)
            (setUp machine.info machine.options memory)) restored.stack).play host
              (completeRestore restored.pc) w') := by
  refine ⟨?field, ?header, fun info options memory hapart => Header.blocked_iff hapart info options,
    fun _ _ _ => created_unless_blocked host w, fun machine => restarted_unless_blocked host machine w,
    fun machine _ _ _ => restored_unless_blocked host machine w⟩
  case field =>
    intro field value draft
    obtain ⟨notices, hon⟩ := Header.on_setExtensionWord field value draft
    rw [hon]
  case header =>
    intro info options memory
    obtain ⟨notices, hon⟩ := Header.on_setUp info options memory
    rw [hon]
    split
    · rfl
    · rfl

/-- A story with an extension table at 117.  Its fifth field is at 127, and dynamic memory ends at
128. -/
def straddled : Array UInt8 :=
  (([5, 0, 0, 7, 0, 0, 0, 128, 0, 0, 0, 0, 0, 64, 0, 128] : List UInt8) ++ List.replicate 38 0
    ++ [0, 117] ++ List.replicate 61 0 ++ [0, 6] ++ List.replicate 9 0 ++ [0xba, 0, 0]).toArray

def straddledMemory : Memory :=
  ((Memory.ofImage straddled).toOption).get (by decide +kernel)

/-- It cannot be started. -/
theorem set_up_unless_blocked_straddled :
    Memory.ofImage straddled = .ok straddledMemory ∧ straddledMemory.ExtensionApart ∧
      straddledMemory.Straddling .trueForeground ∧
      (create deaf straddled {} ()).1.map (fun _ => ())
        = .error { kind := .writeToStatic, detail := "0x00080" } := by
  have hmemory : Memory.ofImage straddled = .ok straddledMemory :=
    eq_ok_of_toOption (Option.some_get _).symm
  have hapart : straddledMemory.ExtensionApart := .inr (.inr (by decide +kernel))
  have hstraddling : straddledMemory.Straddling .trueForeground := by decide +kernel
  obtain ⟨-, -, hblocked, hcreate, -, -⟩ := set_up_unless_blocked deaf ()
  refine ⟨hmemory, hapart, hstraddling, ?_⟩
  rw [hcreate straddled {} straddledMemory hmemory,
    if_pos ((hblocked _ {} straddledMemory hapart).mpr (.inl hstraddling))]
  decide +kernel

end Machine

end StoryMachine
