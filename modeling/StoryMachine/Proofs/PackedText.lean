import Mathlib.Data.List.Induction
import StoryMachine.Proofs.Decoding
import StoryMachine.Proofs.Tours
import StoryMachine.Text.Codec

/-!
# Reading packed text

A packed text is read word by word until one is marked as the last, and memory may end before that.
An abbreviation stands for another packed text, which can lie anywhere, on the text that uses it as
well, and two of them can stand for each other.  Three facts keep this in order.

**Reading ends.**  The words of a text are a tour that climbs (`exists_tour_readWords`), and so are
those of an abbreviation, in which none is expanded.

**Only an abbreviation in an abbreviation is refused.**  `Legible` gives the characters of a text as
far as memory has them, and `Whole` says which rows of characters are whole: no abbreviation and no
code of ten bits is begun in them and not finished.  A character is in the middle of neither if what
comes before it is whole.  Reading a character keeps account of that (`Stands.take`), and what comes
of a text is told by its characters (`readWords_kind`).

**The instruction decoder passes over as many bytes.**  It looks at the marks alone, and where a text
could be read it stops behind the same word (`textEnd_of_readWords`).
-/

namespace StoryMachine

namespace Codec

variable {codec : Codec} {expand : Option (Nat → Except Fault (Array Word))} {bytes : Array UInt8}
  {address : Nat} {reading next : Reading} {chars : List UInt8} {stop : Option Nat} {row : Row}
  {zchar : UInt8} {kind : FaultKind}

/-! ## Words -/

/-- A word of a text leads to the next, unless it is marked as the last or what it says is
refused. -/
def wordVisit (codec : Codec) (expand : Option (Nat → Except Fault (Array Word)))
    (bytes : Array UInt8) (address : Nat) (reading : Reading) :
    Visit Reading (Except Fault (Array Word × Nat)) :=
  match textWord bytes address with
  | .error fault => .done (.error fault)
  | .ok word =>
    match (zchars word).foldlM (codec.accept expand address) reading with
    | .error fault => .done (.error fault)
    | .ok next =>
      if word < 0x8000 then .onward (address + 2) next else .done (.ok (next.out, address + 2))

/-- There is a word where both its bytes are. -/
theorem textWord_cases (bytes : Array UInt8) (address : Nat) :
    (address + 1 < bytes.size ∧ ∃ word, textWord bytes address = .ok word) ∨
      (bytes.size ≤ address + 1 ∧
        ∃ fault, textWord bytes address = .error fault ∧ fault.kind = .outOfBounds) := by
  unfold textWord
  by_cases hsize : address + 1 < bytes.size
  · rw [Array.getElem?_eq_getElem (Nat.lt_of_succ_lt hsize), Array.getElem?_eq_getElem hsize]
    exact .inl ⟨hsize, _, rfl⟩
  · rw [Array.getElem?_eq_none (Nat.not_lt.mp hsize)]
    refine .inr ⟨Nat.not_lt.mp hsize, ?_⟩
    split
    case h_1 heq => exact nomatch heq
    case h_2 => exact ⟨_, rfl, rfl⟩

/-- A word of text lies in the image with both its bytes. -/
theorem lt_of_textWord {word : Word} (h : textWord bytes address = .ok word) :
    address + 1 < bytes.size := by
  rcases textWord_cases bytes address with ⟨hsize, -⟩ | ⟨-, fault, hfault, -⟩
  · exact hsize
  · exact nomatch h.symm.trans hfault

/-- A word of text that is not there is out of bounds. -/
theorem kind_of_textWord {fault : Fault} (h : textWord bytes address = .error fault) :
    fault.kind = .outOfBounds := by
  rcases textWord_cases bytes address with ⟨-, word, hword⟩ | ⟨-, other, hother, hkind⟩
  · exact nomatch h.symm.trans hword
  · rw [Except.error.inj (h.symm.trans hother), hkind]

/-- Words of text are visited upwards. -/
theorem climbs_wordVisit : Climbs (codec.wordVisit expand bytes) (fun _ => True) bytes.size := by
  have honward {address higher : Nat} {reading next : Reading}
      (h : codec.wordVisit expand bytes address reading = .onward higher next) :
      address < bytes.size ∧ address < higher := by
    unfold wordVisit at h
    split at h
    case h_1 => exact nomatch h
    case h_2 word hword =>
      have hsize := lt_of_textWord hword
      split at h
      · exact nomatch h
      split at h
      · obtain ⟨rfl, -⟩ := Visit.onward.inj h
        omega
      · exact nomatch h
  exact ⟨fun _ _ => trivial, fun _ h => (honward h).1, fun _ h => (honward h).2⟩

/-- Reading a text is visiting its words. -/
theorem readWords_succ (left address : Nat) (reading : Reading) :
    codec.readWords expand bytes (left + 1) address reading
      = (codec.wordVisit expand bytes address reading).followed
          (codec.readWords expand bytes left) := by
  rw [readWords, wordVisit]
  cases textWord bytes address with
  | error fault => rfl
  | ok word =>
      simp only [bind, Except.bind]
      cases (zchars word).foldlM (codec.accept expand address) reading with
      | error fault => rfl
      | ok next =>
          dsimp only
          split <;> rfl

/-- Reading a packed text is a tour. -/
theorem exists_tour_readWords (codec : Codec) (expand : Option (Nat → Except Fault (Array Word)))
    (bytes : Array UInt8) (address : Nat) (reading : Reading) :
    ∃ visited, Tour (codec.wordVisit expand bytes) address reading visited
        (codec.readWords expand bytes (bytes.size - address) address reading) ∧
      Ascending bytes.size visited := by
  refine climbs_wordVisit.exists_tour (codec.readWords expand bytes)
    (fun address reading _ hsize => ?_)
    (fun left address reading _ => readWords_succ left address reading) (Nat.le_refl _) trivial
  rcases textWord_cases bytes address with ⟨hlt, -⟩ | ⟨-, fault, hfault, -⟩
  · omega
  · rw [wordVisit, readWords, hfault]
    rfl

/-! ## Characters -/

/-- The characters of the text at an address as far as memory has them, and the address behind the
last word if memory has that. -/
inductive Legible (bytes : Array UInt8) : Nat → List UInt8 → Option Nat → Prop
  | past {address : Nat} {fault : Fault} (h : textWord bytes address = .error fault) :
      Legible bytes address [] none
  | last {address : Nat} {word : Word} (h : textWord bytes address = .ok word)
      (hlast : ¬ word < 0x8000) : Legible bytes address (zchars word) (some (address + 2))
  | more {address : Nat} {word : Word} {chars : List UInt8} {stop : Option Nat}
      (h : textWord bytes address = .ok word) (hmore : word < 0x8000)
      (hrest : Legible bytes (address + 2) chars stop) :
      Legible bytes address (zchars word ++ chars) stop

/-- Every text is legible in some way.  The induction is on how much memory there is above the
address. -/
theorem exists_legible (bytes : Array UInt8) (address : Nat) :
    ∃ chars stop, Legible bytes address chars stop := by
  induction hleft : bytes.size - address using Nat.strongRecOn generalizing address with
  | ind left ih =>
      cases hword : textWord bytes address with
      | error fault => exact ⟨_, _, .past hword⟩
      | ok word =>
          by_cases hmore : word < 0x8000
          · have hsize := lt_of_textWord hword
            obtain ⟨chars, stop, hrest⟩ := ih _ (by omega) (address + 2) rfl
            exact ⟨_, _, .more hword hmore hrest⟩
          · exact ⟨_, _, .last hword hmore⟩

/-- Every text is legible in one way only. -/
theorem Legible.unique {others : List UInt8} {other : Option Nat}
    (h : Legible bytes address chars stop) (h' : Legible bytes address others other) :
    others = chars ∧ other = stop := by
  induction h generalizing others with
  | past h =>
      cases h' with
      | past _ => exact ⟨rfl, rfl⟩
      | last h' _ => exact nomatch h.symm.trans h'
      | more h' _ _ => exact nomatch h.symm.trans h'
  | last h hlast =>
      cases h' with
      | past h' => exact nomatch h.symm.trans h'
      | last h' _ =>
          obtain rfl := Except.ok.inj (h'.symm.trans h)
          exact ⟨rfl, rfl⟩
      | more h' hmore _ =>
          obtain rfl := Except.ok.inj (h'.symm.trans h)
          exact absurd hmore hlast
  | more h hmore _ ih =>
      cases h' with
      | past h' => exact nomatch h.symm.trans h'
      | last h' hlast =>
          obtain rfl := Except.ok.inj (h'.symm.trans h)
          exact absurd hmore hlast
      | more h' _ hrest =>
          obtain rfl := Except.ok.inj (h'.symm.trans h)
          obtain ⟨rfl, rfl⟩ := ih hrest
          exact ⟨rfl, rfl⟩

/-- Takes one character, and tells no more of a fault than its kind.  Where the character stands does
not matter to that. -/
def take (codec : Codec) (expand : Option (Nat → Except Fault (Array Word))) (reading : Reading)
    (zchar : UInt8) : Except FaultKind Reading :=
  (codec.accept expand 0 reading zchar).mapError Fault.kind

/-- Taking a character fails as it does without its place.  The address comes in where a character
is refused only, and then not in the kind. -/
theorem accept_kind (address : Nat) (reading : Reading) (zchar : UInt8) :
    (codec.accept expand address reading zchar).mapError Fault.kind
      = codec.take expand reading zchar := by
  obtain ⟨row, expecting, out⟩ := reading
  cases expecting with
  | character =>
      simp only [take, accept]
      repeat' split
      all_goals simp only [Except.mapError]
  | abbreviation bank =>
      cases expand with
      | none => simp only [take, accept, Except.mapError]
      | some given => rfl
  | escapeHigh => rfl
  | escapeLow high => rfl

/-- Taking characters fails as it does without their places. -/
theorem foldlM_kind (chars : List UInt8) (address : Nat) (reading : Reading) :
    (chars.foldlM (codec.accept expand address) reading).mapError Fault.kind
      = chars.foldlM (codec.take expand) reading := by
  induction chars generalizing reading with
  | nil => rfl
  | cons zchar chars ih =>
      rw [List.foldlM_cons, List.foldlM_cons, ← accept_kind address]
      cases codec.accept expand address reading zchar with
      | error fault => rfl
      | ok next => exact ih next

/-- What is left to say of a text when its characters are read. -/
def finished (stop : Option Nat) (last : Reading) : Except FaultKind (Array Word × Nat) :=
  match stop with
  | some stop => .ok (last.out, stop)
  | none => .error .outOfBounds

/-- **What comes of a text** is told by its characters, and by whether memory has all of them. -/
theorem readWords_kind (codec : Codec) (expand : Option (Nat → Except Fault (Array Word)))
    (h : Legible bytes address chars stop) {left : Nat} (hleft : bytes.size - address ≤ left)
    (reading : Reading) :
    (codec.readWords expand bytes left address reading).mapError Fault.kind
      = chars.foldlM (codec.take expand) reading >>= finished stop := by
  induction h generalizing left reading with
  | @past address fault h =>
      have hkind : (.error fault.kind : Except FaultKind (Array Word × Nat)) = .error .outOfBounds :=
        congrArg Except.error (kind_of_textWord h)
      cases left with
      | zero =>
          rw [readWords, h]
          exact hkind
      | succ left =>
          rw [readWords_succ, wordVisit, h]
          exact hkind
  | @last address word h hlast =>
      have hsize := lt_of_textWord h
      cases left with
      | zero => omega
      | succ left =>
          rw [readWords_succ, wordVisit, h, ← foldlM_kind (zchars word) address]
          dsimp only
          cases (zchars word).foldlM (codec.accept expand address) reading with
          | error fault => rfl
          | ok next =>
              dsimp only
              rw [if_neg hlast]
              rfl
  | @more address word chars stop h hmore hrest ih =>
      have hsize := lt_of_textWord h
      cases left with
      | zero => omega
      | succ left =>
          rw [readWords_succ, wordVisit, h, List.foldlM_append, ← foldlM_kind (zchars word) address]
          dsimp only
          cases (zchars word).foldlM (codec.accept expand address) reading with
          | error fault => rfl
          | ok next =>
              dsimp only
              rw [if_pos hmore]
              exact ih (by omega) next

/-! ## Rows of characters that are whole -/

/-- The number of the abbreviation that two characters name. -/
def abbreviationIndex (bank zchar : UInt8) : Nat :=
  32 * (bank.toNat - 1) + zchar.toNat

/-- Rows of characters in which all that is begun is finished, and the row of the alphabet that the
next character is taken from.  Only abbreviations that can be expanded are used in them. -/
inductive Whole (Expands : Nat → Prop) : List UInt8 → Row → Prop
  | nil : Whole Expands [] .first
  | space {chars : List UInt8} {row : Row} (h : Whole Expands chars row) :
      Whole Expands (chars ++ [0]) .first
  | letter {chars : List UInt8} {row : Row} {zchar : UInt8} (h : Whole Expands chars row)
      (hletter : 6 ≤ zchar) (hescape : ¬ (zchar = 6 ∧ row = .third)) :
      Whole Expands (chars ++ [zchar]) .first
  | second {chars : List UInt8} {row : Row} (h : Whole Expands chars row) :
      Whole Expands (chars ++ [4]) .second
  | third {chars : List UInt8} {row : Row} (h : Whole Expands chars row) :
      Whole Expands (chars ++ [5]) .third
  | escape {chars : List UInt8} {high low : UInt8} (h : Whole Expands chars .third) :
      Whole Expands (chars ++ [6, high, low]) .first
  | abbreviation {chars : List UInt8} {row : Row} {bank zchar : UInt8}
      (h : Whole Expands chars row) (hpos : 1 ≤ bank) (hle : bank ≤ 3)
      (hexpands : Expands (abbreviationIndex bank zchar)) :
      Whole Expands (chars ++ [bank, zchar]) .first

/-- That characters name an abbreviation, all that is begun before it being finished. -/
def Reaches (Expands : Nat → Prop) (chars : List UInt8) (index : Nat) : Prop :=
  ∃ before bank zchar after row, chars = before ++ bank :: zchar :: after ∧
    Whole Expands before row ∧ 1 ≤ bank ∧ bank ≤ 3 ∧ index = abbreviationIndex bank zchar

/-- That one of the characters 1 to 3 stands where nothing is begun, no abbreviation being before
it. -/
def Names (chars : List UInt8) : Prop :=
  ∃ before zchar after row, chars = before ++ zchar :: after ∧
    Whole (fun _ => False) before row ∧ 1 ≤ zchar ∧ zchar ≤ 3

/-- That a text names an abbreviation, as far as memory has the text. -/
def NamesAbbreviation (bytes : Array UInt8) (address : Nat) : Prop :=
  ∃ chars stop, Legible bytes address chars stop ∧ Names chars

/-- That an abbreviation has an entry, and memory has the whole of a text there which does not use
one itself. -/
def Expandable (codec : Codec) (bytes : Array UInt8) (index : Nat) : Prop :=
  ∃ entry chars stop, textWord bytes (codec.abbreviations + 2 * index) = .ok entry ∧
    Legible bytes (2 * entry.toNat) chars (some stop) ∧
    ¬ NamesAbbreviation bytes (2 * entry.toNat)

/-- The abbreviations that a way to expand them has codes for. -/
def Expands (expand : Option (Nat → Except Fault (Array Word))) (index : Nat) : Prop :=
  ∃ given codes, expand = some given ∧ given index = .ok codes

/-- What has been begun and not finished, by what is expected of the next character. -/
def Stands (expand : Option (Nat → Except Fault (Array Word))) (chars : List UInt8)
    (reading : Reading) : Prop :=
  match reading.expecting with
  | .character => Whole (Expands expand) chars reading.row
  | .abbreviation bank => expand.isSome ∧ ∃ before row, chars = before ++ [bank] ∧
      Whole (Expands expand) before row ∧ 1 ≤ bank ∧ bank ≤ 3
  | .escapeHigh => reading.row = .first ∧ ∃ before, chars = before ++ [6] ∧
      Whole (Expands expand) before .third
  | .escapeLow _ => reading.row = .first ∧ ∃ before high, chars = before ++ [6, high] ∧
      Whole (Expands expand) before .third

/-- The second of two characters that name an abbreviation is taken if that can be expanded. -/
theorem take_named (bank zchar : UInt8) (row : Row) (out : Array Word)
    (given : Nat → Except Fault (Array Word)) :
    codec.take (some given) { row, expecting := .abbreviation bank, out } zchar
      = ((given (abbreviationIndex bank zchar)).mapError Fault.kind).map
          fun codes => { row := .first, out := out ++ codes } := by
  simp only [take, accept, bind, Except.bind]
  rw [abbreviationIndex]
  cases given (32 * (bank.toNat - 1) + zchar.toNat) <;> rfl

/-- The account is kept by every character that is taken. -/
theorem Stands.take (h : Stands expand chars reading)
    (htake : codec.take expand reading zchar = .ok next) :
    Stands expand (chars ++ [zchar]) next := by
  obtain ⟨row, expecting, out⟩ := reading
  cases expecting with
  | character =>
      have hwhole : Whole (Expands expand) chars row := h
      simp only [Codec.take, accept] at htake
      split at htake
      case isTrue hzero =>
        obtain rfl := Except.ok.inj htake
        rw [hzero]
        exact hwhole.space
      case isFalse hzero =>
      split at htake
      case isTrue hthree =>
        cases expand with
        | none => exact nomatch htake
        | some given =>
            obtain rfl := Except.ok.inj htake
            exact ⟨rfl, chars, row, rfl, hwhole, by grind, hthree⟩
      case isFalse hthree =>
      split at htake
      case isTrue hfour =>
        obtain rfl := Except.ok.inj htake
        rw [hfour]
        exact hwhole.second
      case isFalse hfour =>
      split at htake
      case isTrue hfive =>
        obtain rfl := Except.ok.inj htake
        rw [hfive]
        exact hwhole.third
      case isFalse hfive =>
      split at htake
      case isTrue hescape =>
        obtain rfl := Except.ok.inj htake
        obtain ⟨rfl, rfl⟩ := hescape
        exact ⟨rfl, chars, rfl, hwhole⟩
      case isFalse hescape =>
        obtain rfl := Except.ok.inj htake
        exact hwhole.letter (by grind) hescape
  | abbreviation bank =>
      obtain ⟨-, before, row, rfl, hwhole, hpos, hle⟩ := h
      cases expand with
      | none => exact nomatch htake
      | some given =>
          rw [take_named] at htake
          cases hgiven : given (abbreviationIndex bank zchar) with
          | error fault =>
              rw [hgiven] at htake
              exact nomatch htake
          | ok codes =>
              rw [hgiven] at htake
              obtain rfl := Except.ok.inj htake
              rw [List.append_assoc]
              exact hwhole.abbreviation hpos hle ⟨given, codes, rfl, hgiven⟩
  | escapeHigh =>
      obtain ⟨hrow, before, rfl, hwhole⟩ := h
      obtain rfl := Except.ok.inj htake
      exact ⟨hrow, before, zchar, List.append_assoc _ _ _, hwhole⟩
  | escapeLow high =>
      obtain ⟨hrow, before, high, rfl, hwhole⟩ := h
      obtain rfl := Except.ok.inj htake
      have hrow : row = .first := hrow
      rw [hrow, List.append_assoc]
      exact hwhole.escape

/-- A character is refused where nothing is begun and it names an abbreviation that may not be
used, or as the second of the two that name one, if that cannot be expanded.  Of what is left
nothing is refused. -/
theorem Stands.refused (h : Stands expand chars reading)
    (htake : codec.take expand reading zchar = .error kind) :
    (expand = none ∧ kind = .badAbbreviation ∧ (∃ row, Whole (Expands expand) chars row) ∧
        1 ≤ zchar ∧ zchar ≤ 3) ∨
      ∃ given fault before bank row, expand = some given ∧ chars = before ++ [bank] ∧
        Whole (Expands expand) before row ∧ 1 ≤ bank ∧ bank ≤ 3 ∧
        given (abbreviationIndex bank zchar) = .error fault ∧ fault.kind = kind := by
  obtain ⟨row, expecting, out⟩ := reading
  cases expecting with
  | character =>
      simp only [Codec.take, accept] at htake
      split at htake
      · exact nomatch htake
      case isFalse hzero =>
      split at htake
      case isTrue hthree =>
        cases expand with
        | none =>
            obtain rfl := Except.error.inj htake
            exact .inl ⟨rfl, rfl, ⟨row, h⟩, by grind, hthree⟩
        | some given => exact nomatch htake
      case isFalse hthree =>
      repeat' split at htake
      all_goals exact nomatch htake
  | abbreviation bank =>
      obtain ⟨hsome, before, row, rfl, hwhole, hpos, hle⟩ := h
      cases expand with
      | none => exact nomatch hsome
      | some given =>
          rw [take_named] at htake
          cases hgiven : given (abbreviationIndex bank zchar) with
          | error fault =>
              rw [hgiven] at htake
              exact .inr ⟨given, fault, before, bank, row, rfl, rfl, hwhole, hpos, hle, hgiven,
                Except.error.inj htake⟩
          | ok codes =>
              rw [hgiven] at htake
              exact nomatch htake
  | escapeHigh => exact nomatch htake
  | escapeLow high => exact nomatch htake

/-- What is begun after some characters, if all of them are taken.  The induction is on the
characters from the last on, as the account is kept from the first on. -/
theorem stands_foldlM (h : chars.foldlM (codec.take expand) {} = .ok reading) :
    Stands expand chars reading := by
  induction chars using List.reverseRecOn generalizing reading with
  | nil =>
      obtain rfl := Except.ok.inj h
      exact Whole.nil
  | append_singleton chars zchar ih =>
      rw [List.foldlM_append] at h
      cases hmiddle : chars.foldlM (codec.take expand) {} with
      | error kind =>
          rw [hmiddle] at h
          exact nomatch h
      | ok middle =>
          rw [hmiddle] at h
          have htake : codec.take expand middle zchar = .ok reading := (bind_pure _).symm.trans h
          exact (ih hmiddle).take htake

/-- A character that is no escape is a letter of its row. -/
theorem take_letter (hletter : 6 ≤ zchar) (hescape : ¬ (zchar = 6 ∧ row = .third))
    (out : Array Word) : codec.take expand { row, out } zchar
      = .ok { row := .first, out := out.push (codec.alphabet.code row zchar) } := by
  have hzero : zchar ≠ 0 := by grind
  have hthree : ¬ zchar ≤ 3 := by grind
  have hfour : zchar ≠ 4 := by grind
  have hfive : zchar ≠ 5 := by grind
  simp only [take, accept]
  rw [if_neg hzero, if_neg hthree, if_neg hfour, if_neg hfive, if_neg hescape]
  rfl

/-- A character from 1 to 3 begins an abbreviation, where there may be one. -/
theorem take_bank {bank : UInt8} (hpos : 1 ≤ bank) (hle : bank ≤ 3) (row : Row) (out : Array Word)
    (given : Nat → Except Fault (Array Word)) : codec.take (some given) { row, out } bank
      = .ok { row, expecting := .abbreviation bank, out } := by
  have hzero : bank ≠ 0 := by grind
  simp only [take, accept]
  rw [if_neg hzero, if_pos hle]
  rfl

/-- A row of characters that is whole is taken, and nothing is expected afterwards. -/
theorem Whole.foldlM_eq (h : Whole (Expands expand) chars row) (codec : Codec) :
    ∃ out, chars.foldlM (codec.take expand) {} = .ok { row, out } := by
  induction h with
  | nil => exact ⟨#[], rfl⟩
  | space _ ih =>
      obtain ⟨out, hout⟩ := ih
      rw [List.foldlM_append, hout]
      exact ⟨_, rfl⟩
  | letter _ hletter hescape ih =>
      obtain ⟨out, hout⟩ := ih
      rw [List.foldlM_append, hout]
      exact ⟨_, (bind_pure _).trans (take_letter hletter hescape out)⟩
  | second _ ih =>
      obtain ⟨out, hout⟩ := ih
      rw [List.foldlM_append, hout]
      exact ⟨_, rfl⟩
  | third _ ih =>
      obtain ⟨out, hout⟩ := ih
      rw [List.foldlM_append, hout]
      exact ⟨_, rfl⟩
  | escape _ ih =>
      obtain ⟨out, hout⟩ := ih
      rw [List.foldlM_append, hout]
      exact ⟨_, rfl⟩
  | @abbreviation chars row bank zchar _ hpos hle hexpands ih =>
      obtain ⟨out, hout⟩ := ih
      obtain ⟨given, codes, rfl, hcodes⟩ := hexpands
      refine ⟨out ++ codes, ?_⟩
      rw [List.foldlM_append, hout]
      simp only [bind, Except.bind, List.foldlM_cons, List.foldlM_nil, take_bank hpos hle row out given,
        take_named bank zchar row out given, hcodes]
      rfl

/-- A row of actions fails where one of them does and all before it have succeeded. -/
theorem foldlM_eq_error {σ α ε : Type} {step : σ → α → Except ε σ} {items : List α} {start : σ}
    {error : ε} : items.foldlM step start = .error error ↔
      ∃ before item after middle, items = before ++ item :: after ∧
        before.foldlM step start = .ok middle ∧ step middle item = .error error := by
  constructor
  · intro h
    induction items generalizing start with
    | nil => exact nomatch h
    | cons first items ih =>
        rw [List.foldlM_cons] at h
        cases hfirst : step start first with
        | error other =>
            rw [hfirst] at h
            obtain rfl := Except.error.inj h
            exact ⟨[], first, items, start, rfl, rfl, hfirst⟩
        | ok second =>
            rw [hfirst] at h
            obtain ⟨before, item, after, middle, rfl, hbefore, hitem⟩ := ih h
            refine ⟨first :: before, item, after, middle, rfl, ?_, hitem⟩
            rw [List.foldlM_cons, hfirst]
            exact hbefore
  · intro ⟨before, item, after, middle, hitems, hbefore, hitem⟩
    rw [hitems, List.foldlM_append, hbefore]
    exact (congrArg (· >>= (after.foldlM step ·)) hitem).trans rfl

/-- Without a way to expand them, no abbreviation can be expanded. -/
theorem expands_none : Expands none = fun _ => False :=
  funext fun _ => eq_false fun ⟨_, _, h, _⟩ => nomatch h

/-- Where no abbreviation may be used, naming one is all that is refused. -/
theorem foldlM_none_eq_error : chars.foldlM (codec.take none) {} = .error kind ↔
    kind = .badAbbreviation ∧ Names chars := by
  rw [foldlM_eq_error]
  constructor
  · intro ⟨before, zchar, after, middle, hchars, hbefore, htake⟩
    rcases (stands_foldlM hbefore).refused htake with
      ⟨-, hkind, ⟨row, hwhole⟩, hpos, hle⟩ | ⟨given, _, _, _, _, hnone, _⟩
    · rw [expands_none] at hwhole
      exact ⟨hkind, before, zchar, after, row, hchars, hwhole, hpos, hle⟩
    · exact nomatch hnone
  · intro ⟨hkind, before, zchar, after, row, hchars, hwhole, hpos, hle⟩
    rw [← expands_none] at hwhole
    obtain ⟨out, hout⟩ := hwhole.foldlM_eq codec
    have hzero : zchar ≠ 0 := by grind
    refine ⟨before, zchar, after, _, hchars, hout, ?_⟩
    simp only [take, accept]
    rw [if_neg hzero, if_pos hle, hkind]
    rfl

/-- Where they may be used, what is refused is one that is named and cannot be expanded. -/
theorem foldlM_some_eq_error {given : Nat → Except Fault (Array Word)} :
    chars.foldlM (codec.take (some given)) {} = .error kind ↔
      ∃ index fault, Reaches (Expands (some given)) chars index ∧ given index = .error fault ∧
        fault.kind = kind := by
  rw [foldlM_eq_error]
  constructor
  · intro ⟨start, zchar, after, middle, hchars, hstart, htake⟩
    rcases (stands_foldlM hstart).refused htake with
      ⟨hnone, _⟩ | ⟨_, fault, before, bank, row, hgiven, rfl, hwhole, hpos, hle, hfault, hkind⟩
    · exact nomatch hnone
    · obtain rfl := Option.some.inj hgiven
      rw [List.append_assoc] at hchars
      exact ⟨_, fault, ⟨before, bank, zchar, after, row, hchars, hwhole, hpos, hle, rfl⟩, hfault,
        hkind⟩
  · intro ⟨index, fault, ⟨before, bank, zchar, after, row, hchars, hwhole, hpos, hle, hindex⟩,
      hfault, hkind⟩
    obtain ⟨out, hout⟩ := hwhole.foldlM_eq codec
    refine ⟨before ++ [bank], zchar, after, { row, expecting := .abbreviation bank, out }, ?_, ?_, ?_⟩
    · rw [hchars, List.append_assoc]
      rfl
    · rw [List.foldlM_append, hout]
      exact (bind_pure _).trans (take_bank hpos hle row out given)
    · rw [take_named, ← hindex, hfault, ← hkind]
      rfl

/-! ## Texts and abbreviations -/

/-- An outcome fails with a kind if it fails with a fault of this kind. -/
theorem mapError_eq_error {α : Type} {outcome : Except Fault α} :
    outcome.mapError Fault.kind = .error kind ↔ ∃ fault, outcome = .error fault ∧ fault.kind = kind := by
  cases outcome with
  | error fault => simp [Except.mapError]
  | ok a => simp [Except.mapError]

/-- An outcome has a value whether kinds or faults are told. -/
theorem mapError_eq_ok {α : Type} {outcome : Except Fault α} {a : α} :
    outcome.mapError Fault.kind = .ok a ↔ outcome = .ok a := by
  cases outcome with
  | error fault => simp [Except.mapError]
  | ok a => simp [Except.mapError]

/-- A text is refused for an abbreviation while its characters are taken. -/
theorem bind_finished_eq_error {outcome : Except FaultKind Reading} :
    outcome >>= finished stop = .error .badAbbreviation ↔ outcome = .error .badAbbreviation := by
  cases outcome with
  | error kind => simp [bind, Except.bind]
  | ok last => cases stop <;> simp [bind, Except.bind, finished]

/-- A text in which no abbreviation may be used is refused where it names one. -/
theorem readWords_refused_iff (codec : Codec) {left : Nat} (hleft : bytes.size - address ≤ left) :
    (∃ fault, codec.readWords none bytes left address {} = .error fault ∧
      fault.kind = .badAbbreviation) ↔ NamesAbbreviation bytes address := by
  obtain ⟨chars, stop, hlegible⟩ := exists_legible bytes address
  rw [← mapError_eq_error, readWords_kind codec none hlegible hleft, bind_finished_eq_error,
    foldlM_none_eq_error]
  constructor
  · intro ⟨_, hnames⟩
    exact ⟨chars, stop, hlegible, hnames⟩
  · intro ⟨others, other, hother, hnames⟩
    obtain ⟨rfl, rfl⟩ := hlegible.unique hother
    exact ⟨rfl, hnames⟩

/-- It is read where it names none and memory has all of it. -/
theorem readWords_ok_iff (codec : Codec) {left : Nat} (hleft : bytes.size - address ≤ left) :
    (∃ read, codec.readWords none bytes left address {} = .ok read) ↔
      (∃ chars stop, Legible bytes address chars (some stop)) ∧ ¬ NamesAbbreviation bytes address := by
  constructor
  · intro ⟨read, hread⟩
    refine ⟨?_, fun hnames => ?_⟩
    · obtain ⟨chars, stop, hlegible⟩ := exists_legible bytes address
      have hkind := readWords_kind codec none hlegible hleft {}
      rw [hread] at hkind
      cases stop with
      | some stop => exact ⟨chars, stop, hlegible⟩
      | none =>
          cases hlast : chars.foldlM (codec.take none) {} with
          | error kind =>
              rw [hlast] at hkind
              exact nomatch hkind
          | ok last =>
              rw [hlast] at hkind
              exact nomatch hkind
    · obtain ⟨fault, hfault, -⟩ := (readWords_refused_iff codec hleft).mpr hnames
      exact nomatch hread.symm.trans hfault
  · intro ⟨⟨chars, stop, hlegible⟩, hnames⟩
    have hkind := readWords_kind codec none hlegible hleft {}
    cases hlast : chars.foldlM (codec.take none) {} with
    | error kind => exact absurd ⟨chars, _, hlegible, (foldlM_none_eq_error.mp hlast).2⟩ hnames
    | ok last =>
        rw [hlast] at hkind
        exact ⟨_, mapError_eq_ok.mp hkind⟩

/-- An abbreviation stands for the text that its entry leads to. -/
theorem expandAbbreviation_eq (codec : Codec) (bytes : Array UInt8) (index : Nat) :
    codec.expandAbbreviation bytes index
      = textWord bytes (codec.abbreviations + 2 * index) >>= fun entry =>
          (codec.readWords none bytes (bytes.size - 2 * entry.toNat) (2 * entry.toNat) {}).map
            Prod.fst := by
  unfold expandAbbreviation
  cases textWord bytes (codec.abbreviations + 2 * index) with
  | error fault => rfl
  | ok entry =>
      simp only [bind, Except.bind]
      cases codec.readWords none bytes (bytes.size - 2 * entry.toNat) (2 * entry.toNat) {} <;> rfl

/-- A text is decoded by reading its words with abbreviations. -/
theorem decode_eq (codec : Codec) (bytes : Array UInt8) (address : Nat) :
    codec.decode bytes address
      = (codec.readWords (some (codec.expandAbbreviation bytes)) bytes (bytes.size - address) address
          {}).map fun read => (read.1.toList, read.2 - address) := by
  unfold decode
  simp only [bind, Except.bind]
  cases codec.readWords (some (codec.expandAbbreviation bytes)) bytes (bytes.size - address) address
    {} <;> rfl

/-- An outcome that is changed fails as it did. -/
theorem map_eq_error {α β : Type} {outcome : Except Fault α} {f : α → β} {fault : Fault} :
    outcome.map f = .error fault ↔ outcome = .error fault := by
  cases outcome <;> simp [Except.map]

/-- An outcome that is changed has the changed value. -/
theorem map_eq_ok {α β : Type} {outcome : Except Fault α} {f : α → β} {b : β} :
    outcome.map f = .ok b ↔ ∃ a, outcome = .ok a ∧ f a = b := by
  cases outcome <;> simp [Except.map]

/-- An abbreviation is refused where it has an entry, and the text there names one itself. -/
theorem expandAbbreviation_refused_iff {index : Nat} :
    (∃ fault, codec.expandAbbreviation bytes index = .error fault ∧ fault.kind = .badAbbreviation) ↔
      ∃ entry, textWord bytes (codec.abbreviations + 2 * index) = .ok entry ∧
        NamesAbbreviation bytes (2 * entry.toNat) := by
  rw [expandAbbreviation_eq]
  cases hentry : textWord bytes (codec.abbreviations + 2 * index) with
  | error other =>
      constructor
      · intro ⟨fault, hfault, hkind⟩
        obtain rfl := Except.error.inj hfault
        exact nomatch (kind_of_textWord hentry).symm.trans hkind
      · intro ⟨entry, h, _⟩
        exact nomatch h
  | ok entry =>
      have hrefused := readWords_refused_iff codec (Nat.le_refl (bytes.size - 2 * entry.toNat))
      constructor
      · intro ⟨fault, hfault, hkind⟩
        exact ⟨entry, rfl, hrefused.mp ⟨fault, map_eq_error.mp hfault, hkind⟩⟩
      · intro ⟨other, hother, hnames⟩
        obtain rfl := Except.ok.inj hother
        obtain ⟨fault, hfault, hkind⟩ := hrefused.mpr hnames
        exact ⟨fault, map_eq_error.mpr hfault, hkind⟩

/-- The abbreviations that there are codes for are those that can be expanded. -/
theorem expands_some (codec : Codec) (bytes : Array UInt8) :
    Expands (some (codec.expandAbbreviation bytes)) = codec.Expandable bytes := by
  funext index
  apply propext
  constructor
  · intro ⟨given, codes, hgiven, hcodes⟩
    obtain rfl := Option.some.inj hgiven
    rw [expandAbbreviation_eq] at hcodes
    obtain ⟨entry, hentry, hread⟩ := bind_eq_ok.mp hcodes
    obtain ⟨read, hread, -⟩ := map_eq_ok.mp hread
    obtain ⟨⟨chars, stop, hlegible⟩, hnames⟩ := (readWords_ok_iff codec (Nat.le_refl _)).mp ⟨read, hread⟩
    exact ⟨entry, chars, stop, hentry, hlegible, hnames⟩
  · intro ⟨entry, chars, stop, hentry, hlegible, hnames⟩
    obtain ⟨read, hread⟩ := (readWords_ok_iff codec (Nat.le_refl _)).mpr
      ⟨⟨chars, stop, hlegible⟩, hnames⟩
    refine ⟨_, read.1, rfl, ?_⟩
    rw [expandAbbreviation_eq, hentry]
    exact map_eq_ok.mpr ⟨read, hread, rfl⟩

/-- **Only an abbreviation in an abbreviation is refused.** -/
theorem decode_refused_iff (codec : Codec) (bytes : Array UInt8) (address : Nat) :
    (∃ fault, codec.decode bytes address = .error fault ∧ fault.kind = .badAbbreviation) ↔
      ∃ chars stop index entry, Legible bytes address chars stop ∧
        Reaches (codec.Expandable bytes) chars index ∧
        textWord bytes (codec.abbreviations + 2 * index) = .ok entry ∧
        NamesAbbreviation bytes (2 * entry.toNat) := by
  obtain ⟨chars, stop, hlegible⟩ := exists_legible bytes address
  rw [decode_eq]
  simp only [map_eq_error]
  rw [← mapError_eq_error, readWords_kind codec _ hlegible (Nat.le_refl _), bind_finished_eq_error,
    foldlM_some_eq_error, expands_some]
  constructor
  · intro ⟨index, fault, hreaches, hfault, hkind⟩
    obtain ⟨entry, hentry, hnames⟩ := expandAbbreviation_refused_iff.mp ⟨fault, hfault, hkind⟩
    exact ⟨chars, stop, index, entry, hlegible, hreaches, hentry, hnames⟩
  · intro ⟨others, other, index, entry, hother, hreaches, hentry, hnames⟩
    obtain ⟨rfl, rfl⟩ := hlegible.unique hother
    obtain ⟨fault, hfault, hkind⟩ := expandAbbreviation_refused_iff.mpr ⟨entry, hentry, hnames⟩
    exact ⟨index, fault, hreaches, hfault, hkind⟩

/-! ## The instruction decoder -/

/-- The words of a text in memory are words of that memory. -/
theorem readWord_of_textWord {memory : Memory} {word : Word}
    (h : textWord memory.bytes address = .ok word) : memory.readWord address = .ok word := by
  have hsize : address + 1 < memory.size := lt_of_textWord h
  rw [textWord, Array.getElem?_eq_getElem (Nat.lt_of_succ_lt hsize),
    Array.getElem?_eq_getElem hsize] at h
  have hword : memory.wordAt address = word := by
    rw [Memory.wordAt, Memory.byteAt, Memory.byteAt, Array.getD_eq_getD_getElem?,
      Array.getD_eq_getD_getElem?, Array.getElem?_eq_getElem (Nat.lt_of_succ_lt hsize),
      Array.getElem?_eq_getElem hsize]
    exact Except.ok.inj h
  rw [Memory.readWord, if_pos hsize, hword]

/-- Where a text could be read, its end is found behind the same word.  The induction is on the
bound that both loops have. -/
theorem textEnd_of_readWords {memory : Memory} {left stop : Nat} {out : Array Word}
    (h : codec.readWords expand memory.bytes left address reading = .ok (out, stop)) :
    Instruction.textEnd memory left address = .ok stop ∧ stop ≤ memory.size ∧
      ∃ more, stop = address + 2 * (more + 1) := by
  induction left generalizing address reading with
  | zero =>
      obtain ⟨word, -, h⟩ := bind_eq_ok.mp h
      exact nomatch h
  | succ left ih =>
      obtain ⟨word, hword, h⟩ := bind_eq_ok.mp h
      obtain ⟨next, -, h⟩ := bind_eq_ok.mp h
      have hsize : address + 1 < memory.size := lt_of_textWord hword
      rw [Instruction.textEnd, readWord_of_textWord hword]
      simp only [bind, Except.bind]
      split at h
      case isTrue hmore =>
        obtain ⟨hend, hle, more, hstop⟩ := ih h
        rw [if_pos hmore]
        exact ⟨hend, hle, more + 1, by omega⟩
      case isFalse hlast =>
        obtain ⟨-, rfl⟩ := Prod.mk.inj (Except.ok.inj h)
        rw [if_neg hlast]
        exact ⟨rfl, by omega, 0, rfl⟩

/-- A text that is decoded has the length that is measured. -/
theorem textLength_of_decode {memory : Memory} {codes : List Word} {length : Nat}
    (h : codec.decode memory.bytes address = .ok (codes, length)) :
    Instruction.textLength memory address = .ok length ∧ length % 2 = 0 ∧ 0 < length ∧
      address + length ≤ memory.size := by
  rw [decode_eq] at h
  obtain ⟨⟨out, stop⟩, hread, hlength⟩ := map_eq_ok.mp h
  obtain ⟨hend, hle, more, hstop⟩ := textEnd_of_readWords hread
  obtain ⟨-, rfl⟩ := Prod.mk.inj hlength
  refine ⟨?_, by omega, by omega, by omega⟩
  rw [Instruction.textLength, show memory.size = memory.bytes.size from rfl, hend]
  rfl

/-- **Packed text is read to its end, and passed over as it is read.**  Whatever the bytes are, the
words of a text are a tour of memory, and so are those of each abbreviation, where it has an entry
at all.  An abbreviation is refused exactly where one that is named, all before it being
finished, stands for a text that names one itself, before memory ends.  And the bytes that a text in
a memory takes, an even number and not zero of them, lie inside memory, and are those that the
instruction decoder passes over. -/
theorem packed_text_read (codec : Codec) :
    (∀ (bytes : Array UInt8) (address : Nat), ∃ visited outcome,
      Tour (codec.wordVisit (some (codec.expandAbbreviation bytes)) bytes) address {} visited
        outcome ∧
      Ascending bytes.size visited ∧
      codec.decode bytes address = outcome.map fun read => (read.1.toList, read.2 - address)) ∧
    (∀ (bytes : Array UInt8) (index : Nat),
      (∃ fault, textWord bytes (codec.abbreviations + 2 * index) = .error fault ∧
        codec.expandAbbreviation bytes index = .error fault) ∨
      ∃ entry visited outcome, textWord bytes (codec.abbreviations + 2 * index) = .ok entry ∧
        Tour (codec.wordVisit none bytes) (2 * entry.toNat) {} visited outcome ∧
        Ascending bytes.size visited ∧
        codec.expandAbbreviation bytes index = outcome.map Prod.fst) ∧
    (∀ (bytes : Array UInt8) (address : Nat),
      (∃ fault, codec.decode bytes address = .error fault ∧ fault.kind = .badAbbreviation) ↔
        ∃ chars stop index entry, Legible bytes address chars stop ∧
          Reaches (codec.Expandable bytes) chars index ∧
          textWord bytes (codec.abbreviations + 2 * index) = .ok entry ∧
          NamesAbbreviation bytes (2 * entry.toNat)) ∧
    ∀ (memory : Memory) (address : Nat) (codes : List Word) (length : Nat),
      codec.decode memory.bytes address = .ok (codes, length) →
      Instruction.textLength memory address = .ok length ∧ length % 2 = 0 ∧ 0 < length ∧
        address + length ≤ memory.size := by
  refine ⟨fun bytes address => ?_, fun bytes index => ?_, decode_refused_iff codec,
    fun memory address codes length h => textLength_of_decode h⟩
  · obtain ⟨visited, htour, hascending⟩ :=
      codec.exists_tour_readWords (some (codec.expandAbbreviation bytes)) bytes address {}
    exact ⟨visited, _, htour, hascending, decode_eq codec bytes address⟩
  · rw [expandAbbreviation_eq]
    cases hentry : textWord bytes (codec.abbreviations + 2 * index) with
    | error fault => exact .inl ⟨fault, rfl, rfl⟩
    | ok entry =>
        obtain ⟨visited, htour, hascending⟩ :=
          codec.exists_tour_readWords none bytes (2 * entry.toNat) {}
        exact .inr ⟨entry, visited, _, rfl, htour, hascending, rfl⟩

/-- A codec with its table of abbreviations right behind the header. -/
def shortening : Codec where
  version := 5
  alphabet := .standard
  unicode := .standard
  abbreviations := 64

/-- A memory with one abbreviation, the text that it stands for, and a text of one word that uses
it. -/
def shortened (text : Word) : Memory :=
  ((Machine.quitter.memory.setWord 68 0x8400 (by decide)).setWord 64 33 (by decide)).setWord 66 text
    (by decide)

/-- A text that an abbreviation is put into takes no more bytes for it. -/
theorem packed_text_read_shortened :
    shortening.decode (shortened 0xb551).bytes 68 = .ok ([104, 101, 108, 32], 2) ∧
      Instruction.textLength (shortened 0xb551) 68 = .ok 2 ∧ 68 + 2 ≤ (shortened 0xb551).size := by
  have hdecode : shortening.decode (shortened 0xb551).bytes 68 = .ok ([104, 101, 108, 32], 2) :=
    eq_ok_of_toOption (by decide +kernel)
  obtain ⟨hlength, -, -, hle⟩ :=
    (packed_text_read shortening).2.2.2 (shortened 0xb551) 68 [104, 101, 108, 32] 2 hdecode
  exact ⟨hdecode, hlength, hle⟩

/-- An abbreviation that stands for a text which uses it is refused. -/
example : ∃ fault, shortening.decode (shortened 0x8400).bytes 68 = .error fault ∧
    fault.kind = .badAbbreviation := by
  refine mapError_eq_error.mp ?_
  decide +kernel

end Codec

end StoryMachine
