import Mathlib.Data.List.Find
import StoryMachine.Dictionary
import StoryMachine.Proofs.Running
import StoryMachine.Proofs.SnapshotRoundTrip

/-!
# Dictionaries that are kept answer like dictionaries that are not

A sorted dictionary above the ceiling of writable memory is read once, and from then
on only its index is asked.  That cannot be noticed, however the story changes the
memory below the ceiling between two texts (`cache_transparent`).

**Two facts carry it.**  All that is read of a dictionary stands at its address or
behind it, so a dictionary at or above the ceiling is the same in all memories that
agree from there on (`load_congr`, `lookup_congr`).  And an index, which keeps the
first of several entries with one key, finds what searching the entries in order
finds (`lookup_build`).
-/

namespace StoryMachine

/-- Memories of one size that agree from an address on. -/
structure SameFrom (ceiling : Nat) (bytes later : Array UInt8) : Prop where
  size_eq : later.size = bytes.size
  getElem?_eq : ∀ i, ceiling ≤ i → later[i]? = bytes[i]?

namespace Codec

/-- The characters of the first of several words. -/
theorem exists_three {zchars : List UInt8} {n : Nat} (h : zchars.length = 3 * (n + 1)) :
    ∃ a b c rest, zchars = a :: b :: c :: rest ∧ rest.length = 3 * n := by
  rcases zchars with _ | ⟨a, _ | ⟨b, _ | ⟨c, rest⟩⟩⟩
  case cons.cons.cons =>
    simp only [List.length_cons] at h
    exact ⟨a, b, c, rest, rfl, by omega⟩
  all_goals
    simp only [List.length_nil, List.length_cons] at h
    omega

/-- Characters are packed three to a word. -/
theorem length_pack {zchars : List UInt8} {n : Nat} (h : zchars.length = 3 * n) :
    (pack zchars).length = n := by
  induction n generalizing zchars with
  | zero =>
      obtain rfl : zchars = [] := List.length_eq_zero_iff.mp h
      rfl
  | succ n ih =>
      obtain ⟨a, b, c, rest, rfl, hrest⟩ := exists_three h
      rw [pack, List.length_cons, ih hrest]

/-- All keys have the same length. -/
theorem length_encodeKey (codec : Codec) (codes : List Word) :
    (codec.encodeKey codes).length = codec.keyBytes := by
  have hpacked (filled : List UInt8) (h : filled.length = codec.keyLength) :
      (pack filled).length = codec.keyLength / 3 := by
    refine length_pack ?_
    rw [h, keyLength]
    split <;> rfl
  have hfilled (spelt : List UInt8) (h : spelt.length ≤ codec.keyLength) :
      (spelt ++ List.replicate (codec.keyLength - spelt.length) (5 : UInt8)).length
        = codec.keyLength := by
    rw [List.length_append, List.length_replicate]
    omega
  rw [encodeKey, Snapshot.length_flatMap_toBytes, hpacked _ (hfilled _ (List.length_take_le _ _)),
    keyBytes, Nat.mul_comm]

end Codec

namespace Dictionary

variable {ceiling address keyBytes : Nat} {bytes later : Array UInt8} {dictionary : Dictionary}

/-! ## What stands above the ceiling -/

/-- Memories that agree from an address on have the same bytes there. -/
theorem byteAt_congr (h : SameFrom ceiling bytes later) (haddress : ceiling ≤ address) :
    byteAt later address = byteAt bytes address := by
  rw [byteAt, byteAt, h.getElem?_eq address haddress]

/-- A dictionary is read from its address on. -/
theorem load_congr (h : SameFrom ceiling bytes later) (haddress : ceiling ≤ address) :
    load later address keyBytes = load bytes address keyBytes := by
  have hbyte (offset : Nat) : byteAt later (address + offset) = byteAt bytes (address + offset) :=
    byteAt_congr h (Nat.le_add_right_of_le haddress)
  unfold load
  simp only [byteAt_congr h haddress, Nat.add_assoc, hbyte, h.size_eq]

/-- They have the same slices there. -/
theorem bytesAt?_congr (h : SameFrom ceiling bytes later) (haddress : ceiling ≤ address) (n : Nat) :
    bytesAt? later address n = bytesAt? bytes address n := by
  have hextract : later.extract address (address + n) = bytes.extract address (address + n) := by
    refine Array.ext_getElem? fun i => ?_
    rw [Array.getElem?_extract, Array.getElem?_extract, h.size_eq,
      h.getElem?_eq (address + i) (Nat.le_add_right_of_le haddress)]
  rw [bytesAt?, bytesAt?, h.size_eq, hextract]

/-- A dictionary whose entries stand above the ceiling is searched there. -/
theorem lookup_congr (h : SameFrom ceiling bytes later) (hentries : ceiling ≤ dictionary.entries)
    (key : List UInt8) : dictionary.lookup later key = dictionary.lookup bytes key := by
  have hentry (i : Nat) : bytesAt? later (dictionary.entryAddress i) key.length
      = bytesAt? bytes (dictionary.entryAddress i) key.length :=
    bytesAt?_congr h (Nat.le_add_right_of_le hentries) key.length
  simp only [lookup, hentry]

/-- What is known of a dictionary that was read: its entries come behind its address, each
has room for a key, and all of them are there. -/
structure Loaded (bytes : Array UInt8) (address keyBytes : Nat) (dictionary : Dictionary) :
    Prop where
  address_le : address ≤ dictionary.entries
  key_le : 0 < dictionary.count → keyBytes ≤ dictionary.entryLength
  end_le : dictionary.entries + dictionary.count * dictionary.entryLength ≤ bytes.size

/-- A dictionary that was loaded has all its entries in memory. -/
theorem loaded_of_load (h : load bytes address keyBytes = .ok dictionary) :
    Loaded bytes address keyBytes dictionary := by
  obtain ⟨separatorCount, -, h⟩ := bind_eq_ok.mp h
  obtain ⟨separators, -, h⟩ := bind_eq_ok.mp h
  obtain ⟨entryLength, -, h⟩ := bind_eq_ok.mp h
  obtain ⟨hi, -, h⟩ := bind_eq_ok.mp h
  obtain ⟨lo, -, h⟩ := bind_eq_ok.mp h
  dsimp only at h
  split at h
  case isTrue => exact nomatch h
  case isFalse hlength =>
    split at h
    case isTrue => exact nomatch h
    case isFalse hend =>
      obtain rfl := Except.ok.inj h
      refine ⟨?_, fun hcount => ?_, Nat.not_lt.mp hend⟩
      · simp only
        omega
      · exact Nat.not_lt.mp fun hlt => hlength ⟨hcount, hlt⟩

/-- Every entry has a key. -/
theorem Loaded.bytesAt?_eq (h : Loaded bytes address keyBytes dictionary) {i : Nat}
    (hi : i < dictionary.count) :
    bytesAt? bytes (dictionary.entryAddress i) keyBytes
      = some (bytes.extract (dictionary.entryAddress i)
          (dictionary.entryAddress i + keyBytes)).toList := by
  have hkey := h.key_le (Nat.zero_lt_of_lt hi)
  have hroom : dictionary.entryAddress i + keyBytes ≤ bytes.size :=
    calc dictionary.entryAddress i + keyBytes
        ≤ dictionary.entries + i * dictionary.entryLength + dictionary.entryLength :=
          Nat.add_le_add_left hkey _
      _ = dictionary.entries + (i + 1) * dictionary.entryLength := by
          rw [Nat.add_assoc, Nat.succ_mul]
      _ ≤ dictionary.entries + dictionary.count * dictionary.entryLength :=
          Nat.add_le_add_left (Nat.mul_le_mul_right _ hi) _
      _ ≤ bytes.size := h.end_le
  exact if_pos hroom

end Dictionary

namespace IndexedDictionary

/-- Of several things with one key, an index that is filled in order keeps the first. -/
theorem getElem?_foldl_insertIfNew {α : Type} (keyOf : α → List UInt8) (valueOf : α → Word)
    (items : List α) (index : Std.HashMap (List UInt8) Word) (key : List UInt8) :
    (items.foldl (fun index item => index.insertIfNew (keyOf item) (valueOf item)) index)[key]?
      = index[key]?.or ((items.find? fun item => keyOf item == key).map valueOf) := by
  induction items generalizing index with
  | nil => simp
  | cons item items ih =>
      rw [List.foldl_cons, ih, Std.HashMap.getElem?_insertIfNew, List.find?_cons]
      cases hkey : keyOf item == key with
      | false => simp
      | true =>
          obtain rfl := beq_iff_eq.mp hkey
          by_cases hmem : keyOf item ∈ index
          · simp [hmem]
          · simp [hmem]

/-- **An index finds what a search finds**, for keys of the length that it was built for. -/
theorem lookup_build {bytes : Array UInt8} {address keyBytes : Nat} {dictionary : Dictionary}
    (h : Dictionary.Loaded bytes address keyBytes dictionary) {key : List UInt8}
    (hkey : key.length = keyBytes) :
    (build dictionary bytes keyBytes).lookup key = dictionary.lookup bytes key := by
  have hsame : ∀ i ∈ List.range dictionary.count,
      ((bytes.extract (dictionary.entryAddress i)
          (dictionary.entryAddress i + keyBytes)).toList == key)
        = decide (Dictionary.bytesAt? bytes (dictionary.entryAddress i) key.length = some key) := by
    intro i hi
    rw [Bool.eq_iff_iff, beq_iff_eq, decide_eq_true_eq, hkey, h.bytesAt?_eq (List.mem_range.mp hi),
      Option.some.injEq]
  rw [lookup, build, Std.HashMap.getD_eq_getD_getElem?, getElem?_foldl_insertIfNew,
    Std.HashMap.getElem?_empty, Option.none_or, List.find?_congr hsame, Dictionary.lookup]
  cases List.find? _ (List.range dictionary.count) <;> rfl

end IndexedDictionary

namespace Dictionaries

/-- What is to be found without any index: the dictionary is read, and its entries are
searched for each lexeme. -/
def search (codec : Codec) (bytes : Array UInt8) (address : Nat) (text : List Word) :
    Except Fault (List Lexeme) :=
  (Dictionary.load bytes address codec.keyBytes).map fun dictionary =>
    dictionary.tokenise bytes codec text

/-- A text to be cut with the dictionary at an address, in the memory of that moment. -/
structure Request where
  bytes : Array UInt8
  address : Nat
  text : List Word

/-- The answers to requests one after another.  What is kept after one is there for the next;
a request that fails changes nothing. -/
def answers (codec : Codec) (ceiling : Nat) :
    Dictionaries → List Request → List (Except Fault (List Lexeme))
  | _, [] => []
  | dictionaries, request :: requests =>
    match dictionaries.tokenise request.bytes codec request.address ceiling request.text with
    | .ok found => .ok found.lexemes :: answers codec ceiling found.dictionaries requests
    | .error fault => .error fault :: answers codec ceiling dictionaries requests

/-- Everything that is kept stands above the ceiling, and was read from a memory that agrees
with this one from there on. -/
def Faithful (codec : Codec) (ceiling : Nat) (bytes : Array UInt8) (dictionaries : Dictionaries) :
    Prop :=
  ∀ address indexed, dictionaries.known.lookup address = some indexed → ceiling ≤ address ∧
    ∃ earlier dictionary, SameFrom ceiling bytes earlier ∧
      Dictionary.load earlier address codec.keyBytes = .ok dictionary ∧
      indexed = IndexedDictionary.build dictionary earlier codec.keyBytes

variable {codec : Codec} {ceiling address : Nat} {bytes later earlier : Array UInt8}
  {dictionary : Dictionary} {dictionaries : Dictionaries}

/-- What was read above the ceiling and indexed then, answers like a search now. -/
theorem lexemes_build (hearlier : SameFrom ceiling bytes earlier)
    (hlater : SameFrom ceiling bytes later) (haddress : ceiling ≤ address)
    (hload : Dictionary.load earlier address codec.keyBytes = .ok dictionary) (text : List Word) :
    search codec later address text
      = .ok (dictionary.lexemes codec
          (IndexedDictionary.build dictionary earlier codec.keyBytes).lookup text) := by
  have hloaded := Dictionary.loaded_of_load hload
  have hentries : ceiling ≤ dictionary.entries := Nat.le_trans haddress hloaded.address_le
  have hnow : Dictionary.load later address codec.keyBytes = .ok dictionary := by
    rw [Dictionary.load_congr hlater haddress, ← Dictionary.load_congr hearlier haddress, hload]
  have hlexeme (part : Nat × Nat) : Dictionary.lexeme codec (dictionary.lookup later) text part
      = Dictionary.lexeme codec
          (IndexedDictionary.build dictionary earlier codec.keyBytes).lookup text part := by
    unfold Dictionary.lexeme
    rw [IndexedDictionary.lookup_build hloaded (codec.length_encodeKey _),
      Dictionary.lookup_congr hlater hentries, Dictionary.lookup_congr hearlier hentries]
  rw [search, hnow]
  exact congrArg Except.ok (List.map_congr_left fun part _ => hlexeme part)

/-- **One request.**  What is kept makes no difference to the answer, and what is kept then
is again faithful. -/
theorem tokenise_of_faithful (hfaithful : Faithful codec ceiling bytes dictionaries)
    (hlater : SameFrom ceiling bytes later) (address : Nat) (text : List Word) :
    (∃ found, dictionaries.tokenise later codec address ceiling text = .ok found ∧
        search codec later address text = .ok found.lexemes ∧
        Faithful codec ceiling bytes found.dictionaries) ∨
      ∃ fault, dictionaries.tokenise later codec address ceiling text = .error fault ∧
        search codec later address text = .error fault := by
  unfold tokenise
  cases hknown : dictionaries.known.lookup address with
  | some indexed =>
      obtain ⟨haddress, earlier, dictionary, hearlier, hload, rfl⟩ :=
        hfaithful address indexed hknown
      exact .inl ⟨_, rfl, lexemes_build hearlier hlater haddress hload text, hfaithful⟩
  | none =>
      cases hload : Dictionary.load later address codec.keyBytes with
      | error fault =>
          refine .inr ⟨fault, rfl, ?_⟩
          rw [search, hload]
          rfl
      | ok dictionary =>
          left
          by_cases hkept : (dictionary.sorted && decide (ceiling ≤ address)) = true
          · have haddress : ceiling ≤ address := by simpa using (Bool.and_eq_true_iff.mp hkept).2
            refine ⟨_, if_pos hkept, lexemes_build hlater hlater haddress hload text, ?_⟩
            intro other indexed hother
            rw [List.lookup_cons] at hother
            split at hother
            case h_1 heq =>
                obtain rfl := beq_iff_eq.mp heq
                exact ⟨haddress, later, dictionary, hlater, hload, (Option.some.inj hother).symm⟩
            case h_2 => exact hfaithful other indexed hother
          · refine ⟨_, if_neg hkept, ?_, hfaithful⟩
            rw [search, hload]
            rfl

/-- **All requests.**  Starting from what is faithful, every request is answered as a search
would answer it. -/
theorem answers_of_faithful {requests : List Request}
    (hfaithful : Faithful codec ceiling bytes dictionaries)
    (hrequests : ∀ request ∈ requests, SameFrom ceiling bytes request.bytes) :
    answers codec ceiling dictionaries requests
      = requests.map fun request => search codec request.bytes request.address request.text := by
  induction requests generalizing dictionaries with
  | nil => rfl
  | cons request requests ih =>
      have hothers := fun other hother => hrequests other (List.mem_cons_of_mem _ hother)
      rw [List.map_cons]
      rcases tokenise_of_faithful hfaithful (hrequests request List.mem_cons_self) request.address
          request.text with ⟨found, hfound, hsearch, hkept⟩ | ⟨fault, hfault, hsearch⟩
      · rw [answers, hfound, hsearch, ← ih hkept hothers]
      · rw [answers, hfault, hsearch, ← ih hfaithful hothers]

/-- **Keeping dictionaries cannot be noticed.**  Any texts are cut with dictionaries at any
addresses, one after another, in memories that differ below the ceiling only.  If nothing is
kept at the beginning, each of them gets the lexemes, or the fault, that reading the dictionary
anew and searching its entries in order gives. -/
theorem cache_transparent (codec : Codec) (ceiling : Nat) (bytes : Array UInt8)
    (requests : List Request) (h : ∀ request ∈ requests, SameFrom ceiling bytes request.bytes) :
    answers codec ceiling {} requests
      = requests.map fun request => search codec request.bytes request.address request.text :=
  answers_of_faithful (fun _ _ hnone => nomatch hnone) h

/-- Memories with the same upper part agree from it on. -/
theorem sameFrom_append {lower other : Array UInt8} (h : other.size = lower.size)
    (upper : Array UInt8) : SameFrom lower.size (lower ++ upper) (other ++ upper) := by
  refine ⟨by simp [h], fun i hi => ?_⟩
  rw [Array.getElem?_append_right hi, Array.getElem?_append_right (h ▸ hi), h]

def sampleCodec : Codec where
  version := 3
  alphabet := .standard
  unicode := .standard
  abbreviations := 0

/-- A sorted dictionary of the word `a`, with one separator. -/
def single (separator : UInt8) : Array UInt8 :=
  #[1, separator, 4, 0, 1, 24, 165, 148, 165]

/-- A sorted dictionary that holds the word `a` twice. -/
def double : Array UInt8 :=
  #[1, 44, 5, 0, 2, 24, 165, 148, 165, 0, 24, 165, 148, 165, 1]

/-- Texts for both, with the first one in writable memory and its separator changed on the way,
and for a place where nothing is. -/
def sampleRequests : List Request :=
  [⟨single 44 ++ double, 9, [97, 44, 97]⟩, ⟨single 44 ++ double, 0, [97, 44, 97]⟩,
    ⟨single 46 ++ double, 9, [97]⟩, ⟨single 46 ++ double, 0, [97, 44, 97]⟩,
    ⟨single 46 ++ double, 24, [97]⟩]

/-- The dictionary above the ceiling finds the first of its entries, also when it has been kept;
the one below is read with its new separator. -/
theorem cache_transparent_changing :
    SameFrom 9 (single 44 ++ double) (single 46 ++ double) ∧
      (answers sampleCodec 9 {} sampleRequests).map Except.toOption
        = [some [⟨14, 1, 0⟩, ⟨0, 1, 1⟩, ⟨14, 1, 2⟩], some [⟨5, 1, 0⟩, ⟨0, 1, 1⟩, ⟨5, 1, 2⟩],
          some [⟨14, 1, 0⟩], some [⟨0, 3, 0⟩], none] := by
  have hsame (separator : UInt8) : SameFrom 9 (single 44 ++ double) (single separator ++ double) :=
    @sameFrom_append (single 44) (single separator) rfl double
  refine ⟨hsame 46, ?_⟩
  rw [cache_transparent sampleCodec 9 (single 44 ++ double) sampleRequests]
  · decide +kernel
  · simp only [sampleRequests, List.forall_mem_cons, hsame, true_and]
    exact fun _ hnone => nomatch hnone

end Dictionaries

end StoryMachine
