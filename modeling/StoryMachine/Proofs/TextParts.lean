import StoryMachine.Proofs.DictionaryCache

/-!
# How a text is cut for a dictionary

The lexemes of a text follow each other without overlap.  Every separator is a lexeme of its
own, every longest run of codes that are neither separator nor blank nor zero is one, and no
other code is in any (`Partition`).  Each lexeme has the address of the first entry that begins
with its key, or zero (`tokenise_partition`).

**One walk over the text.**  `Cut` follows the text place by place: a blank is left out, and a
`Part` is taken whole.  The loop also holds a word that has begun but not ended (`Open`), and
`cut_spans` closes it where the next separator, blank or end of the text is met.
-/

namespace StoryMachine

section Parts

/-- A separator stands at a place. -/
def SeparatorAt (separators text : List Word) (place : Nat) : Prop :=
  ∃ code, text[place]? = some code ∧ code ∈ separators

/-- A code that belongs to a word stands at a place. -/
def WordAt (separators text : List Word) (place : Nat) : Prop :=
  ∃ code, text[place]? = some code ∧ code ∉ separators ∧ code ≠ 32 ∧ code ≠ 0

/-- From a first place up to a last one stand codes of a word, and it cannot be made longer. -/
structure MaximalRun (separators text : List Word) (start stop : Nat) : Prop where
  lt : start < stop
  wordAt : ∀ place, start ≤ place → place < stop → WordAt separators text place
  before : ∀ place, place + 1 = start → ¬ WordAt separators text place
  after : ¬ WordAt separators text stop

/-- The parts of a text: a separator alone, or all of a word. -/
inductive Part (separators text : List Word) : Nat → Nat → Prop
  | separator {place : Nat} (h : SeparatorAt separators text place) :
      Part separators text place (place + 1)
  | word {start stop : Nat} (h : MaximalRun separators text start stop) :
      Part separators text start stop

/-- A text from a place on, cut into parts with blanks between them. -/
inductive Cut (separators text : List Word) : Nat → List (Nat × Nat) → Prop
  | done {place : Nat} (h : text.length ≤ place) : Cut separators text place []
  | blank {place : Nat} {parts : List (Nat × Nat)} (hseparator : ¬ SeparatorAt separators text place)
      (hword : ¬ WordAt separators text place) (hrest : Cut separators text (place + 1) parts) :
      Cut separators text place parts
  | part {start stop : Nat} {parts : List (Nat × Nat)} (hpart : Part separators text start stop)
      (hrest : Cut separators text stop parts) : Cut separators text start ((start, stop) :: parts)

variable {separators text : List Word} {place start stop : Nat} {parts : List (Nat × Nat)}

/-! ## What a cut text is like -/

/-- A separator is no part of a word. -/
theorem SeparatorAt.not_wordAt (h : SeparatorAt separators text place) :
    ¬ WordAt separators text place := by
  rintro ⟨other, hother, hnot, -⟩
  obtain ⟨code, hcode, hin⟩ := h
  exact hnot (Option.some.inj (hother.symm.trans hcode) ▸ hin)

/-- A separator stands in the text. -/
theorem SeparatorAt.lt_length (h : SeparatorAt separators text place) : place < text.length := by
  obtain ⟨code, hcode, -⟩ := h
  exact (List.getElem?_eq_some_iff.mp hcode).1

/-- A code of a word stands in the text. -/
theorem WordAt.lt_length (h : WordAt separators text place) : place < text.length := by
  obtain ⟨code, hcode, -⟩ := h
  exact (List.getElem?_eq_some_iff.mp hcode).1

/-- A part has a code at least. -/
theorem Part.lt (h : Part separators text start stop) : start < stop := by
  cases h with
  | separator => exact Nat.lt_succ_self start
  | word h => exact h.lt

/-- A part ends in the text. -/
theorem Part.stop_le (h : Part separators text start stop) : stop ≤ text.length := by
  cases h with
  | separator h => exact h.lt_length
  | word h =>
      have hlast := (h.wordAt (stop - 1) (Nat.le_sub_one_of_lt h.lt)
        (Nat.sub_one_lt (Nat.ne_zero_of_lt h.lt))).lt_length
      omega

/-- A separator is in no part but its own. -/
theorem Part.of_separatorAt (h : Part separators text start stop) (hle : start ≤ place)
    (hlt : place < stop) (hplace : SeparatorAt separators text place) :
    start = place ∧ stop = place + 1 := by
  cases h with
  | separator => omega
  | word h => exact absurd (h.wordAt place hle hlt) hplace.not_wordAt

/-- A code of a word is only in the run that it belongs to. -/
theorem Part.of_wordAt (h : Part separators text start stop) (hle : start ≤ place)
    (hlt : place < stop) (hplace : WordAt separators text place) :
    MaximalRun separators text start stop := by
  cases h with
  | separator h =>
      obtain rfl : start = place := Nat.le_antisymm hle (Nat.le_of_lt_succ hlt)
      exact absurd hplace h.not_wordAt
  | word h => exact h

/-- At each place of a part stands a separator or a code of a word. -/
theorem Part.separatorAt_or_wordAt (h : Part separators text start stop) (hle : start ≤ place)
    (hlt : place < stop) : SeparatorAt separators text place ∨ WordAt separators text place := by
  cases h with
  | separator h =>
      obtain rfl : start = place := Nat.le_antisymm hle (Nat.le_of_lt_succ hlt)
      exact .inl h
  | word h => exact .inr (h.wordAt place hle hlt)

/-- The pieces of a cut are parts. -/
theorem Cut.part_of_mem (h : Cut separators text place parts) :
    ∀ part ∈ parts, Part separators text part.1 part.2 := by
  induction h with
  | done => exact List.forall_mem_nil _
  | blank hseparator hword hrest ih => exact ih
  | part hpart hrest ih => exact List.forall_mem_cons.mpr ⟨hpart, ih⟩

/-- The pieces of a cut are behind its place. -/
theorem Cut.le_of_mem (h : Cut separators text place parts) : ∀ part ∈ parts, place ≤ part.1 := by
  induction h with
  | done => exact List.forall_mem_nil _
  | blank hseparator hword hrest ih => exact fun part hpart => Nat.le_of_succ_le (ih part hpart)
  | part hpart hrest ih =>
      refine List.forall_mem_cons.mpr ⟨Nat.le_refl _, fun part hin => ?_⟩
      exact Nat.le_trans (Nat.le_of_lt hpart.lt) (ih part hin)

/-- Parts follow each other. -/
theorem Cut.pairwise (h : Cut separators text place parts) :
    parts.Pairwise fun part later => part.2 ≤ later.1 := by
  induction h with
  | done => exact .nil
  | blank hseparator hword hrest ih => exact ih
  | part hpart hrest ih => exact .cons hrest.le_of_mem ih

/-- No code is left out but blanks and zeros. -/
theorem Cut.exists_part (h : Cut separators text place parts) {i : Nat} (hi : place ≤ i)
    (hcode : SeparatorAt separators text i ∨ WordAt separators text i) :
    ∃ part ∈ parts, part.1 ≤ i ∧ i < part.2 := by
  induction h with
  | done hend =>
      have hlt : i < text.length := hcode.elim SeparatorAt.lt_length WordAt.lt_length
      exact absurd (Nat.le_trans hend hi) (Nat.not_le.mpr hlt)
  | @blank place parts hseparator hword hrest ih =>
      refine ih (Nat.lt_of_le_of_ne hi ?_)
      rintro rfl
      exact hcode.elim hseparator hword
  | @part start stop parts hpart hrest ih =>
      by_cases hstop : stop ≤ i
      · obtain ⟨part, hin, hcovers⟩ := ih hstop
        exact ⟨part, List.mem_cons_of_mem _ hin, hcovers⟩
      · exact ⟨(start, stop), List.mem_cons_self, hi, Nat.not_le.mp hstop⟩

/-! ## The walk -/

/-- What is known of a word that has begun, or has not, where the walk stands at a place. -/
def Open (separators text : List Word) (place : Nat) : Option Nat → Prop
  | none => ∀ last, last + 1 = place → ¬ WordAt separators text last
  | some start => start < place ∧
      (∀ i, start ≤ i → i < place → WordAt separators text i) ∧
      ∀ last, last + 1 = start → ¬ WordAt separators text last

/-- A word that has begun ends where no further code of it stands. -/
theorem Cut.close {opened : Option Nat} (hopen : Open separators text place opened)
    (hend : ¬ WordAt separators text place) (h : Cut separators text place parts) :
    Cut separators text (opened.getD place)
      ((opened.map fun start => (start, place)).toList ++ parts) := by
  cases opened with
  | none => exact h
  | some start => exact .part (.word ⟨hopen.1, hopen.2.1, hopen.2.2, hend⟩) h

/-- A code of a word belongs to the word that has begun, or begins one. -/
theorem Open.letter {opened : Option Nat} (hopen : Open separators text place opened)
    (hword : WordAt separators text place) :
    Open separators text (place + 1) (some (opened.getD place)) := by
  cases opened with
  | none =>
      refine ⟨Nat.lt_succ_self place, fun i hle hlt => ?_, hopen⟩
      obtain rfl : i = place := Nat.le_antisymm (Nat.le_of_lt_succ hlt) hle
      exact hword
  | some start =>
      refine ⟨Nat.lt_succ_of_lt hopen.1, fun i hle hlt => ?_, hopen.2.2⟩
      rcases Nat.lt_succ_iff_lt_or_eq.mp hlt with hlt | rfl
      · exact hopen.2.1 i hle hlt
      · exact hword

/-- **The walk.**  It cuts what is left of the text, and first of all ends the word that has
begun. -/
theorem cut_spans {rest : List Word} {opened : Option Nat} (hdrop : text.drop place = rest)
    (hopen : Open separators text place opened) :
    Cut separators text (opened.getD place) (spans (separators.contains ·) place opened rest) := by
  induction rest generalizing place opened with
  | nil =>
      have hend : text.length ≤ place := List.drop_eq_nil_iff.mp hdrop
      have hnone : ¬ WordAt separators text place := fun h => Nat.not_le.mpr h.lt_length hend
      have hclosed := Cut.close hopen hnone (.done hend)
      rwa [List.append_nil] at hclosed
  | cons code rest ih =>
      have hcode : text[place]? = some code := by
        rw [← Nat.add_zero place, ← List.getElem?_drop, hdrop, List.getElem?_cons_zero]
      have hrest : text.drop (place + 1) = rest := by
        rw [← List.tail_drop, hdrop, List.tail_cons]
      have hclosed (hend : ¬ WordAt separators text place) :
          Open separators text (place + 1) none := by
        intro last hlast
        obtain rfl : last = place := Nat.succ.inj hlast
        exact hend
      by_cases hseparator : code ∈ separators
      case pos =>
        have hat : SeparatorAt separators text place := ⟨code, hcode, hseparator⟩
        rw [spans, if_pos (List.contains_iff_mem.mpr hseparator)]
        exact Cut.close hopen hat.not_wordAt
          (.part (.separator hat) (ih hrest (hclosed hat.not_wordAt)))
      case neg =>
        have hat : ¬ SeparatorAt separators text place := by
          rintro ⟨other, hother, hin⟩
          exact hseparator (Option.some.inj (hcode.symm.trans hother) ▸ hin)
        have hcontains : ¬ separators.contains code = true := fun h =>
          hseparator (List.contains_iff_mem.mp h)
        by_cases hblank : code = 32 ∨ code = 0
        case pos =>
          have hnot : ¬ WordAt separators text place := by
            rintro ⟨other, hother, -, hspace, hzero⟩
            obtain rfl := Option.some.inj (hcode.symm.trans hother)
            exact hblank.elim hspace hzero
          rw [spans, if_neg hcontains, if_pos hblank]
          exact Cut.close hopen hnot (.blank hat hnot (ih hrest (hclosed hnot)))
        case neg =>
          have hword : WordAt separators text place :=
            ⟨code, hcode, hseparator, not_or.mp hblank⟩
          rw [spans, if_neg hcontains, if_neg hblank]
          exact ih hrest (hopen.letter hword)

end Parts

/-! ## Lexemes -/

/-- A place of the text is in a lexeme. -/
def Lexeme.Covers (lexeme : Lexeme) (place : Nat) : Prop :=
  lexeme.start.toNat ≤ place ∧ place < lexeme.start.toNat + lexeme.length.toNat

/-- The codes of a text that a lexeme stands for. -/
def Lexeme.codes (lexeme : Lexeme) (text : List Word) : List Word :=
  (text.drop lexeme.start.toNat).take lexeme.length.toNat

/-- A text cut into lexemes: they follow each other, each separator is one of them, each code of
a word is in exactly the one that is all of the word, and no other place is in any. -/
structure Partition (separators text : List Word) (lexemes : List Lexeme) : Prop where
  length_pos : ∀ lexeme ∈ lexemes, 0 < lexeme.length
  ordered : lexemes.Pairwise fun lexeme later =>
    lexeme.start.toNat + lexeme.length.toNat ≤ later.start.toNat
  separator : ∀ place, SeparatorAt separators text place → ∃ lexeme ∈ lexemes,
    lexeme.start.toNat = place ∧ lexeme.length = 1 ∧
      ∀ other ∈ lexemes, other.Covers place → other = lexeme
  word : ∀ place, WordAt separators text place → ∃ lexeme ∈ lexemes, lexeme.Covers place ∧
    MaximalRun separators text lexeme.start.toNat
      (lexeme.start.toNat + lexeme.length.toNat) ∧
      ∀ other ∈ lexemes, other.Covers place → other = lexeme
  covered : ∀ lexeme ∈ lexemes, ∀ place, lexeme.Covers place →
    SeparatorAt separators text place ∨ WordAt separators text place

/-- Of lexemes that follow each other, one at most is at a place. -/
theorem eq_of_covers {lexemes : List Lexeme} {lexeme other : Lexeme} {place : Nat}
    (h : lexemes.Pairwise fun lexeme later =>
      lexeme.start.toNat + lexeme.length.toNat ≤ later.start.toNat)
    (hlexeme : lexeme ∈ lexemes) (hother : other ∈ lexemes) (hcovers : lexeme.Covers place)
    (hcoversOther : other.Covers place) : other = lexeme := by
  obtain ⟨i, hi, rfl⟩ := List.getElem_of_mem hlexeme
  obtain ⟨j, hj, rfl⟩ := List.getElem_of_mem hother
  rw [List.pairwise_iff_getElem] at h
  unfold Lexeme.Covers at hcovers hcoversOther
  rcases Nat.lt_trichotomy i j with hij | rfl | hji
  · have := h i j hi hj hij
    omega
  · rfl
  · have := h j i hj hi hji
    omega

/-- A dictionary key has a byte at least. -/
theorem Codec.encodeKey_ne_nil (codec : Codec) (codes : List Word) : codec.encodeKey codes ≠ [] := by
  refine List.ne_nil_of_length_pos ?_
  rw [codec.length_encodeKey, Codec.keyBytes, Codec.keyLength]
  split <;> decide

namespace Dictionary

variable {dictionary : Dictionary} {bytes : Array UInt8} {codec : Codec} {find : List UInt8 → Word}
  {separators text : List Word} {address keyBytes : Nat}

/-- In a text that is not too long, the lexeme of a part has its place and its length. -/
theorem lexeme_places (codec : Codec) (find : List UInt8 → Word) (htext : text.length ≤ 255)
    {part : Nat × Nat} (hpart : Part separators text part.1 part.2) :
    (lexeme codec find text part).start.toNat = part.1 ∧
      (lexeme codec find text part).start.toNat + (lexeme codec find text part).length.toNat
        = part.2 := by
  have hlt := hpart.lt
  have hle := hpart.stop_le
  have hstart : part.1.toUInt8.toNat = part.1 := by
    rw [Nat.toUInt8_eq, UInt8.toNat_ofNat']
    omega
  have hlength : (part.2 - part.1).toUInt8.toNat = part.2 - part.1 := by
    rw [Nat.toUInt8_eq, UInt8.toNat_ofNat']
    omega
  refine ⟨hstart, ?_⟩
  simp only [lexeme, hstart, hlength]
  omega

/-- **The lexemes of a cut text** are a partition of it. -/
theorem partition_of_cut {parts : List (Nat × Nat)} (htext : text.length ≤ 255)
    (h : Cut separators text 0 parts) :
    Partition separators text (parts.map (lexeme codec find text)) := by
  have hplaces (part : Nat × Nat) (hin : part ∈ parts) :=
    lexeme_places codec find htext (h.part_of_mem part hin)
  have hordered : (parts.map (lexeme codec find text)).Pairwise fun lexeme later =>
      lexeme.start.toNat + lexeme.length.toNat ≤ later.start.toNat := by
    rw [List.pairwise_map]
    refine h.pairwise.imp_of_mem fun hpart hlater hle => ?_
    rw [(hplaces _ hpart).2, (hplaces _ hlater).1]
    exact hle
  have hcovers {part : Nat × Nat} (hin : part ∈ parts) (place : Nat) :
      (lexeme codec find text part).Covers place ↔ part.1 ≤ place ∧ place < part.2 := by
    rw [Lexeme.Covers, (hplaces part hin).2, (hplaces part hin).1]
  have hunique {part : Nat × Nat} (hin : part ∈ parts) {place : Nat}
      (hplace : (lexeme codec find text part).Covers place) :
      ∀ other ∈ parts.map (lexeme codec find text), other.Covers place →
        other = lexeme codec find text part := fun other hother hcoversOther =>
    eq_of_covers hordered (List.mem_map_of_mem hin) hother hplace hcoversOther
  constructor
  case length_pos =>
    refine List.forall_mem_map.mpr fun part hin => UInt8.lt_iff_toNat_lt.mpr ?_
    have hlt := (h.part_of_mem part hin).lt
    have hboth := hplaces part hin
    simp only [UInt8.toNat_zero]
    omega
  case ordered => exact hordered
  case separator =>
    intro place hplace
    obtain ⟨part, hin, hle, hlt⟩ := h.exists_part (Nat.zero_le place) (.inl hplace)
    obtain ⟨hstart, hstop⟩ := (h.part_of_mem part hin).of_separatorAt hle hlt hplace
    have hboth := hplaces part hin
    refine ⟨_, List.mem_map_of_mem hin, hboth.1.trans hstart, ?_,
      hunique hin ((hcovers hin place).mpr ⟨hle, hlt⟩)⟩
    apply UInt8.toNat.inj
    simp only [UInt8.toNat_one]
    omega
  case word =>
    intro place hplace
    obtain ⟨part, hin, hle, hlt⟩ := h.exists_part (Nat.zero_le place) (.inr hplace)
    have hrun := (h.part_of_mem part hin).of_wordAt hle hlt hplace
    have hplaced := (hcovers hin place).mpr ⟨hle, hlt⟩
    refine ⟨_, List.mem_map_of_mem hin, hplaced, ?_, hunique hin hplaced⟩
    rwa [(hplaces part hin).2, (hplaces part hin).1]
  case covered =>
    refine List.forall_mem_map.mpr fun part hin place hplace => ?_
    obtain ⟨hle, hlt⟩ := (hcovers hin place).mp hplace
    exact (h.part_of_mem part hin).separatorAt_or_wordAt hle hlt

/-! ## Entries -/

/-- Entry `i` begins with a key. -/
def HasKey (dictionary : Dictionary) (bytes : Array UInt8) (key : List UInt8) (i : Nat) : Prop :=
  ∀ j (hj : j < key.length), bytes[dictionary.entryAddress i + j]? = some key[j]

/-- The address of the first entry that begins with a key, or zero where none does. -/
def FirstEntry (dictionary : Dictionary) (bytes : Array UInt8) (key : List UInt8)
    (address : Word) : Prop :=
  (∃ i, i < dictionary.count ∧ dictionary.HasKey bytes key i ∧
      (∀ earlier, earlier < i → ¬ dictionary.HasKey bytes key earlier) ∧
      address = (dictionary.entryAddress i).toUInt16) ∨
    (∀ i, i < dictionary.count → ¬ dictionary.HasKey bytes key i) ∧ address = 0

/-- An entry has a key if it begins with its bytes. -/
theorem bytesAt?_eq_some_iff {key : List UInt8} (hkey : key ≠ []) (i : Nat) :
    bytesAt? bytes (dictionary.entryAddress i) key.length = some key
      ↔ dictionary.HasKey bytes key i := by
  rw [bytesAt?]
  split
  case isTrue hroom =>
    have hsize : (bytes.extract (dictionary.entryAddress i)
        (dictionary.entryAddress i + key.length)).toList.length = key.length := by
      rw [Array.length_toList, Array.size_extract]
      omega
    have hplace (j : Nat) (hj : j < key.length) :
        (bytes.extract (dictionary.entryAddress i)
          (dictionary.entryAddress i + key.length)).toList[j]?
          = bytes[dictionary.entryAddress i + j]? := by
      rw [Array.getElem?_toList, Array.getElem?_extract, if_pos (by omega)]
    rw [Option.some.injEq]
    constructor
    · intro heq j hj
      rw [← hplace j hj, heq, List.getElem?_eq_getElem hj]
    · intro hhas
      refine List.ext_getElem hsize fun j _ hj => Option.some.inj ?_
      rw [← List.getElem?_eq_getElem, hplace j hj, hhas j hj]
  case isFalse hroom =>
    refine iff_of_false (Option.some_ne_none key).symm fun hhas => hroom ?_
    have hpos : 0 < key.length := List.length_pos_iff.mpr hkey
    have hlast := hhas (key.length - 1) (Nat.sub_one_lt (Nat.ne_of_gt hpos))
    obtain ⟨hlt, -⟩ := Array.getElem?_eq_some_iff.mp hlast
    omega

/-- **A search finds the first entry** that begins with the key. -/
theorem firstEntry_lookup {key : List UInt8} (hkey : key ≠ []) :
    dictionary.FirstEntry bytes key (dictionary.lookup bytes key) := by
  unfold lookup
  split
  case h_1 i hfind =>
    obtain ⟨hi, hin, hearlier⟩ := List.find?_range_eq_some.mp hfind
    rw [decide_eq_true_eq, bytesAt?_eq_some_iff hkey] at hi
    refine .inl ⟨i, List.mem_range.mp hin, hi, fun earlier hlt hhas => ?_, rfl⟩
    exact absurd ((bytesAt?_eq_some_iff hkey earlier).mpr hhas) (by simpa using hearlier earlier hlt)
  case h_2 hnone =>
    rw [List.find?_range_eq_none] at hnone
    refine .inr ⟨fun i hi hhas => ?_, rfl⟩
    exact absurd ((bytesAt?_eq_some_iff hkey i).mpr hhas) (by simpa using hnone i hi)

/-- **A dictionary cuts a text into parts and finds each.**  In a text of at most 255 codes the
lexemes are a partition, and each has the address of the first entry with the key of its codes.
Searching the entries in order and asking an index of them give the same. -/
theorem tokenise_partition (hload : load bytes address keyBytes = .ok dictionary)
    (codec : Codec) (htext : text.length ≤ 255) :
    Partition dictionary.separators text (dictionary.tokenise bytes codec text) ∧
      (∀ lexeme ∈ dictionary.tokenise bytes codec text,
        dictionary.FirstEntry bytes (codec.encodeKey (lexeme.codes text)) lexeme.address) ∧
      (keyBytes = codec.keyBytes →
        dictionary.lexemes codec (IndexedDictionary.build dictionary bytes keyBytes).lookup text
          = dictionary.tokenise bytes codec text) := by
  have hopen : Open dictionary.separators text 0 none := fun last hlast => nomatch hlast
  have hcut : Cut dictionary.separators text 0 (dictionary.parts text) :=
    cut_spans List.drop_zero hopen
  refine ⟨partition_of_cut htext hcut, ?_, ?_⟩
  · refine List.forall_mem_map.mpr fun part hin => ?_
    obtain ⟨hstart, hstop⟩ :=
      lexeme_places codec (dictionary.lookup bytes) htext (hcut.part_of_mem part hin)
    have hlength : (lexeme codec (dictionary.lookup bytes) text part).length.toNat
        = part.2 - part.1 := by omega
    rw [Lexeme.codes, hstart, hlength]
    exact firstEntry_lookup (codec.encodeKey_ne_nil _)
  · rintro rfl
    refine List.map_congr_left fun part _ => ?_
    rw [lexeme, lexeme, IndexedDictionary.lookup_build (loaded_of_load hload)
      (codec.length_encodeKey _)]

/-- The dictionary of the word `a` whose one separator is the space. -/
def spaces : Dictionary where
  address := 0
  separators := [32]
  entryLength := 4
  entries := 5
  count := 1
  sorted := true

/-- Two spaces are two lexemes, a comma belongs to its word, and a zero is left out. -/
theorem tokenise_partition_spaces :
    load (Dictionaries.single 32) 0 4 = .ok spaces ∧
      Partition [32] [97, 32, 32, 44, 97, 0, 97]
        [⟨5, 1, 0⟩, ⟨0, 1, 1⟩, ⟨0, 1, 2⟩, ⟨0, 2, 3⟩, ⟨5, 1, 6⟩] ∧
      spaces.lexemes Dictionaries.sampleCodec
          (IndexedDictionary.build spaces (Dictionaries.single 32) 4).lookup
          [97, 32, 32, 44, 97, 0, 97]
        = [⟨5, 1, 0⟩, ⟨0, 1, 1⟩, ⟨0, 1, 2⟩, ⟨0, 2, 3⟩, ⟨5, 1, 6⟩] := by
  have hload : load (Dictionaries.single 32) 0 4 = .ok spaces := by decide +kernel
  have htext : [97, 32, 32, 44, 97, 0, (97 : Word)].length ≤ 255 := by decide
  obtain ⟨hpartition, -, hindexed⟩ := tokenise_partition hload Dictionaries.sampleCodec htext
  have htokenise : spaces.tokenise (Dictionaries.single 32) Dictionaries.sampleCodec
      [97, 32, 32, 44, 97, 0, 97]
      = [⟨5, 1, 0⟩, ⟨0, 1, 1⟩, ⟨0, 1, 2⟩, ⟨0, 2, 3⟩, ⟨5, 1, 6⟩] := by decide +kernel
  rw [htokenise] at hpartition hindexed
  exact ⟨hload, hpartition, hindexed (by decide)⟩

end Dictionary

end StoryMachine
