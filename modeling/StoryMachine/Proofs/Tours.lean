import StoryMachine.Proofs.InstructionMoves
import StoryMachine.Proofs.ObjectLinks
import StoryMachine.Proofs.Restoring

/-!
# Tours of memory

Some loops visit one address after another, and what stands there says where to go on or that this
was the last.  A story can have written anything there, and it may be written anew while the loop is
under way.  `Tour` is such a loop with no bound set to it.  It relates the address and the state at
the beginning to the addresses visited and to what comes of it, and there is a tour only where the
loop ends.

**A loop that climbs ends.**  It climbs if every visit that leads on is made inside memory and leads
to a higher address (`Climbs`).  How much memory there is above the address is then a bound for the
visits that are left, and a loop that is bounded by that does the same as one without a bound
(`Climbs.exists_tour`).  Looking for a property, listing the keys that end a line and printing a
table of records all climb, whatever memory holds.
-/

namespace StoryMachine

variable {W σ ρ : Type}

/-- What a visit at an address leads to. -/
inductive Visit (σ ρ : Type) where
  /-- To another address, with what the loop has come to by then. -/
  | onward (address : Nat) (state : σ)
  /-- To the end of the loop. -/
  | done (result : ρ)

/-- A visit, and what follows it. -/
def Visit.followed (goOn : Nat → σ → ρ) : Visit σ ρ → ρ
  | .onward address state => goOn address state
  | .done result => result

/-- A loop from its beginning to its end, with the addresses visited on the way. -/
inductive Tour (visit : Nat → σ → Visit σ ρ) : Nat → σ → List Nat → ρ → Prop
  | last {address : Nat} {state : σ} {result : ρ} (h : visit address state = .done result) :
      Tour visit address state [address] result
  | next {address higher : Nat} {state middle : σ} {visited : List Nat} {result : ρ}
      (h : visit address state = .onward higher middle)
      (hrest : Tour visit higher middle visited result) :
      Tour visit address state (address :: visited) result

/-- Addresses each higher than the one before, and at most one more than there are bytes. -/
structure Ascending (size : Nat) (visited : List Nat) : Prop where
  increasing : visited.Pairwise (· < ·)
  length_le : visited.length ≤ size + 1

/-- That a loop leads on only from inside memory and to higher addresses.  It has not to do so from
all states, but from some it does not leave. -/
structure Climbs (visit : Nat → σ → Visit σ ρ) (Keeps : σ → Prop) (size : Nat) : Prop where
  keeps : ∀ {address higher state middle}, Keeps state →
    visit address state = .onward higher middle → Keeps middle
  lt_size : ∀ {address higher state middle}, Keeps state →
    visit address state = .onward higher middle → address < size
  lt : ∀ {address higher state middle}, Keeps state →
    visit address state = .onward higher middle → address < higher

variable {visit : Nat → σ → Visit σ ρ} {Keeps : σ → Prop} {size address : Nat} {state : σ}
  {visited others : List Nat} {result other : ρ}

/-- A loop has one tour from an address and a state. -/
theorem Tour.unique (h : Tour visit address state visited result)
    (h' : Tour visit address state others other) : others = visited ∧ other = result := by
  induction h generalizing others with
  | last h =>
      cases h' with
      | last h' => exact ⟨rfl, Visit.done.inj (h'.symm.trans h)⟩
      | next h' _ => exact nomatch h'.symm.trans h
  | next h _ ih =>
      cases h' with
      | last h' => exact nomatch h'.symm.trans h
      | next h' hrest =>
          obtain ⟨rfl, rfl⟩ := Visit.onward.inj (h'.symm.trans h)
          obtain ⟨rfl, rfl⟩ := ih hrest
          exact ⟨rfl, rfl⟩

/-- Every address of a tour is at least the first, and there are not more than fit above it. -/
theorem Climbs.above (hclimbs : Climbs visit Keeps size) (hstate : Keeps state)
    (h : Tour visit address state visited result) :
    (∀ place ∈ visited, address ≤ place) ∧ visited.Pairwise (· < ·) ∧
      visited.length ≤ size - address + 1 := by
  induction h with
  | last h =>
      refine ⟨fun place hplace => ?_, List.pairwise_singleton _ _, Nat.le_add_left 1 _⟩
      exact Nat.le_of_eq (List.mem_singleton.mp hplace).symm
  | @next address higher state middle visited result h hrest ih =>
      obtain ⟨habove, hincreasing, hlength⟩ := ih (hclimbs.keeps hstate h)
      have hlt := hclimbs.lt hstate h
      have hsize := hclimbs.lt_size hstate h
      refine ⟨fun place hplace => ?_, List.pairwise_cons.mpr ⟨fun place hplace => ?_, hincreasing⟩, ?_⟩
      · cases List.mem_cons.mp hplace with
        | inl heq => exact Nat.le_of_eq heq.symm
        | inr hin => exact Nat.le_trans (Nat.le_of_lt hlt) (habove place hin)
      · exact Nat.lt_of_lt_of_le hlt (habove place hplace)
      · rw [List.length_cons]
        omega

/-- **A tour ascends**, if its loop climbs. -/
theorem Climbs.ascending (hclimbs : Climbs visit Keeps size) (hstate : Keeps state)
    (h : Tour visit address state visited result) : Ascending size visited := by
  obtain ⟨-, hincreasing, hlength⟩ := hclimbs.above hstate h
  exact ⟨hincreasing, by omega⟩

/-- **A climbing loop ends**, and a bound of as many visits as there is memory above the address
makes no difference to it.  This is by induction on the bound: where it is zero, the address lies
outside memory, and the visit there is the last in any case. -/
theorem Climbs.exists_tour (hclimbs : Climbs visit Keeps size) (bounded : Nat → Nat → σ → ρ)
    (hzero : ∀ address state, Keeps state → size ≤ address →
      visit address state = .done (bounded 0 address state))
    (hsucc : ∀ left address state, Keeps state →
      bounded (left + 1) address state = (visit address state).followed (bounded left))
    {left : Nat} (hleft : size - address ≤ left) (hstate : Keeps state) :
    ∃ visited, Tour visit address state visited (bounded left address state) ∧
      Ascending size visited := by
  suffices h : ∃ visited, Tour visit address state visited (bounded left address state) by
    obtain ⟨visited, htour⟩ := h
    exact ⟨visited, htour, hclimbs.ascending hstate htour⟩
  induction left generalizing address state with
  | zero => exact ⟨_, .last (hzero address state hstate (by omega))⟩
  | succ left ih =>
      rw [hsucc left address state hstate]
      cases hvisit : visit address state with
      | done result => exact ⟨_, .last hvisit⟩
      | onward higher middle =>
          have hlt := hclimbs.lt hstate hvisit
          have hsize := hclimbs.lt_size hstate hvisit
          have hfewer : size - higher ≤ left := by omega
          obtain ⟨visited, htour⟩ := ih hfewer (hclimbs.keeps hstate hvisit)
          exact ⟨_, .next hvisit htour⟩

/-! ## Looking for a property -/

/-- There is no byte to read behind memory. -/
theorem Memory.readByte_of_size_le {memory : Memory} (h : memory.size ≤ address) :
    memory.readByte address = .error (memory.outOfBounds address) :=
  if_neg (Nat.not_lt.mpr h)

/-- There is no word to read behind memory. -/
theorem Memory.readWord_of_size_le {memory : Memory} (h : memory.size ≤ address) :
    memory.readWord address = .error (memory.outOfBounds address) :=
  if_neg (by omega)

namespace ObjectTable

variable (table : ObjectTable) (memory : Memory) (number : Word)

/-- What stands at an address of a property list leads to the next property, unless it is the one
that is looked for, or shows that there is none. -/
def propertyVisit (address : Nat) (_ : Unit) : Visit Unit (Except Fault (Option Property)) :=
  match table.property memory address with
  | .error fault => .done (.error fault)
  | .ok found =>
    if found.number = number then .done (.ok (some found))
    else if found.number = 0 ∨ found.number < number then .done (.ok none)
    else .onward (found.data + found.length) ()

/-- The value of a property that was looked for. -/
def foundValue : Option Property → Except Fault (Word × Nat)
  | some found => do
    if found.length = 1 then return ((← memory.readByte found.data).toUInt16, 1)
    else return (← memory.readWord found.data, found.length)
  | none => return (← table.defaultValue memory number, 0)

/-- Sets the value of a property that was looked for. -/
def setFound (value : Word) : Option Property → Edit Bool
  | some found => do
    if found.length = 1 then Edit.writeByte found.data value.toUInt8
    else Edit.writeWord found.data value
    return true
  | none => return false

/-- The number behind a property that was looked for. -/
def numberBehind : Option Property → Except Fault (Option Word)
  | some found => return some (← table.property memory (found.data + found.length)).number
  | none => return none

variable {table memory number}

/-- A property begins inside memory, and its data comes behind its header. -/
theorem lt_of_property {found : Property} (h : table.property memory address = .ok found) :
    address < memory.size ∧ address < found.data := by
  obtain ⟨size, hsize, h⟩ := bind_eq_ok.mp h
  refine ⟨(Memory.readByte_eq_ok.mp hsize).1, ?_⟩
  split at h
  · obtain rfl := Except.ok.inj h
    exact Nat.lt_succ_self address
  · split at h
    · obtain ⟨second, -, h⟩ := bind_eq_ok.mp h
      obtain rfl := Except.ok.inj h
      exact Nat.lt_add_of_pos_right Nat.two_pos
    · obtain rfl := Except.ok.inj h
      exact Nat.lt_succ_self address

/-- A property leads on to a higher address. -/
theorem climbs_propertyVisit :
    Climbs (table.propertyVisit memory number) (fun _ => True) memory.size := by
  have honward {address higher : Nat} {state middle : Unit}
      (h : table.propertyVisit memory number address state = .onward higher middle) :
      address < memory.size ∧ address < higher := by
    unfold propertyVisit at h
    split at h
    case h_1 => exact nomatch h
    case h_2 found hproperty =>
      split at h
      · exact nomatch h
      split at h
      · exact nomatch h
      obtain ⟨hsize, hdata⟩ := lt_of_property hproperty
      obtain ⟨rfl, -⟩ := Visit.onward.inj h
      exact ⟨hsize, Nat.lt_of_lt_of_le hdata (Nat.le_add_right _ _)⟩
  exact ⟨fun _ _ => trivial, fun _ h => (honward h).1, fun _ h => (honward h).2⟩

/-- Looking for a property visits the first and goes on. -/
theorem findFrom_succ (left address : Nat) :
    table.findFrom memory number (left + 1) address
      = (table.propertyVisit memory number address ()).followed
          fun higher _ => table.findFrom memory number left higher := by
  rw [findFrom, propertyVisit]
  cases hproperty : table.property memory address with
  | error fault => rfl
  | ok found =>
      simp only [bind, Except.bind]
      by_cases hfound : found.number = number
      · rw [if_pos hfound, if_pos hfound]
        rfl
      · have hless : found.number = 0 ∨ found.number < number ↔ found.number < number := by
          refine ⟨fun h => h.elim (fun hzero => ?_) id, .inr⟩
          rw [hzero] at hfound ⊢
          exact UInt16.pos_iff_ne_zero.mpr (Ne.symm hfound)
        rw [if_neg hfound, if_neg hfound]
        simp only [hless]
        split <;> rfl

/-- Looking for a property from an address on is a tour. -/
theorem exists_tour_findFrom (table : ObjectTable) (memory : Memory) (number : Word)
    (address : Nat) :
    ∃ visited, Tour (table.propertyVisit memory number) address () visited
        (table.findFrom memory number (memory.size - address) address) ∧
      Ascending memory.size visited := by
  refine climbs_propertyVisit.exists_tour
    (fun left address _ => table.findFrom memory number left address)
    (fun address _ _ hsize => ?_) (fun left address _ _ => findFrom_succ left address)
    (Nat.le_refl _) trivial
  rw [propertyVisit, property, Memory.readByte_of_size_le hsize]
  rfl

/-- Looking for a property of an object is a tour from its first property on. -/
theorem find?_cases (table : ObjectTable) (memory : Memory) (object number : Word) :
    (number = 0 ∧ table.find? memory object number = .ok none) ∨
      (∃ fault, table.find? memory object number = .error fault ∧
        table.firstProperty memory object = .error fault) ∨
      ∃ address visited, table.firstProperty memory object = .ok address ∧
        Tour (table.propertyVisit memory number) address () visited
          (table.find? memory object number) ∧
        Ascending memory.size visited := by
  by_cases hzero : number = 0
  · exact .inl ⟨hzero, if_pos hzero⟩
  refine .inr ?_
  have hfind : table.find? memory object number = (do
      let address ← table.firstProperty memory object
      table.findFrom memory number (memory.size - address) address) := if_neg hzero
  rw [hfind]
  cases hfirst : table.firstProperty memory object with
  | error fault => exact .inl ⟨fault, rfl, rfl⟩
  | ok address =>
      obtain ⟨visited, htour, hascending⟩ := exists_tour_findFrom table memory number address
      exact .inr ⟨address, visited, rfl, htour, hascending⟩

end ObjectTable

/-! ## Listing the keys that end a line -/

namespace TextBuffer

open Work

/-- What stands at an address of the table of keys leads to the next address, unless it is the zero
at the end. -/
def keyVisit (address : Nat) (state : Draft × List UInt8) :
    Visit (Draft × List UInt8) (Except Fault (List UInt8) × Draft) :=
  match state.1.memory.readByte address with
  | .error fault => .done (.error fault, state.1)
  | .ok code =>
    if code = 0 then .done (.ok state.2, state.1)
    else if code = 255 then .onward (address + 1) (state.1, state.2 ++ functionKeys)
    else if isFunctionKey code then .onward (address + 1) (state.1, state.2 ++ [code])
    else
      let notice := Notice.warning s!"{code} is not a terminating character"
      .onward (address + 1) ({ state.1 with notices := state.1.notices.push notice }, state.2)

/-- The codes of listed keys and of the new line, in ascending order. -/
def sorted (keys : List UInt8) : List Word :=
  ((List.range 256).map Nat.toUInt8).filter (fun code => code = 13 || keys.contains code)
    |>.map (·.toUInt16)

/-- What listing keys comes to behind others that were listed before. -/
def listedBehind (left address : Nat) (state : Draft × List UInt8) :
    Except Fault (List UInt8) × Draft :=
  ((on (listedKeys left address) state.1).1.map (state.2 ++ ·),
    (on (listedKeys left address) state.1).2)

/-- A key leads on to a higher address. -/
theorem climbs_keyVisit (size : Nat) :
    Climbs keyVisit (fun state => state.1.memory.size = size) size := by
  have honward {address higher : Nat} {state middle : Draft × List UInt8}
      (h : keyVisit address state = .onward higher middle) :
      address < state.1.memory.size ∧ address < higher ∧
        middle.1.memory = state.1.memory := by
    unfold keyVisit at h
    split at h
    case h_1 => exact nomatch h
    case h_2 code hcode =>
      have hsize := (Memory.readByte_eq_ok.mp hcode).1
      split at h
      · exact nomatch h
      split at h
      · obtain ⟨rfl, rfl⟩ := Visit.onward.inj h
        exact ⟨hsize, Nat.lt_succ_self _, rfl⟩
      split at h
      · obtain ⟨rfl, rfl⟩ := Visit.onward.inj h
        exact ⟨hsize, Nat.lt_succ_self _, rfl⟩
      · obtain ⟨rfl, rfl⟩ := Visit.onward.inj h
        exact ⟨hsize, Nat.lt_succ_self _, rfl⟩
  exact ⟨fun hsize h => (congrArg Memory.size (honward h).2.2).trans hsize,
    fun hsize h => hsize ▸ (honward h).1, fun _ h => (honward h).2.1⟩

/-- Keys that are listed behind some, and these behind others. -/
theorem listedBehind_eq (left address : Nat) (draft : Draft) (keys found : List UInt8) :
    listedBehind left address (draft, keys ++ found)
      = ((on (do return found ++ (← listedKeys left address)) draft).1.map (keys ++ ·),
          (on (do return found ++ (← listedKeys left address)) draft).2) := by
  rw [listedBehind, on_bind]
  rcases on (listedKeys left address) draft with ⟨fault | rest, after⟩
  · rfl
  · exact congrArg (fun all => (Except.ok all, after)) (List.append_assoc keys found rest)

/-- Listing keys visits the first and goes on. -/
theorem listedBehind_succ (left address : Nat) (state : Draft × List UInt8) :
    listedBehind (left + 1) address state
      = (keyVisit address state).followed (listedBehind left) := by
  obtain ⟨draft, keys⟩ := state
  rw [keyVisit, listedBehind, listedKeys, on_bind, Edit.on_look]
  dsimp only
  cases hcode : draft.memory.readByte address with
  | error fault => rfl
  | ok code =>
      dsimp only
      split
      · exact congrArg (fun all => (Except.ok all, draft)) (List.append_nil keys)
      split
      · exact (listedBehind_eq left (address + 1) draft keys functionKeys).symm
      split
      · exact (listedBehind_eq left (address + 1) draft keys [code]).symm
      · rfl

/-- Listing keys from an address on is a tour. -/
theorem exists_tour_listedKeys (draft : Draft) (address : Nat) :
    ∃ visited, Tour keyVisit address (draft, []) visited
        (on (listedKeys (draft.memory.size - address) address) draft) ∧
      Ascending draft.memory.size visited := by
  have hlisted : listedBehind (draft.memory.size - address) address (draft, [])
      = on (listedKeys (draft.memory.size - address) address) draft := by
    rw [listedBehind]
    rcases on (listedKeys (draft.memory.size - address) address) draft with ⟨fault | rest, after⟩ <;>
      rfl
  rw [← hlisted]
  refine (climbs_keyVisit draft.memory.size).exists_tour listedBehind
    (fun address state hsize hle => ?_)
    (fun left address state _ => listedBehind_succ left address state) (Nat.le_refl _) rfl
  have hle : state.1.memory.size ≤ address := hsize.symm ▸ hle
  rw [keyVisit, Memory.readByte_of_size_le hle, listedBehind, listedKeys, Edit.on_look]
  rfl

/-- The keys that end a line are the new line, or else what a tour of a table comes to. -/
theorem on_terminators_cases (draft : Draft) :
    on terminators draft = (.ok [13], draft) ∨
      ∃ visited outcome after,
        Tour keyVisit (draft.memory.headerWord .terminatorTable).toNat (draft, []) visited
          (outcome, after) ∧
        Ascending draft.memory.size visited ∧
        on terminators draft = (outcome.map sorted, after) := by
  obtain ⟨visited, htour, hascending⟩ :=
    exists_tour_listedKeys draft (draft.memory.headerWord .terminatorTable).toNat
  rcases hlisted : on (listedKeys _ _) draft with ⟨outcome, after⟩
  rw [hlisted] at htour
  unfold terminators
  rw [on_bind_of_ok (Edit.on_view draft _), on_bind_of_ok (Edit.on_view draft _)]
  split
  · exact .inl rfl
  · refine .inr ⟨visited, outcome, after, htour, hascending, ?_⟩
    rw [on_bind_of_ok (Edit.on_view draft _), on_bind, hlisted]
    cases outcome <;> rfl

end TextBuffer

/-! ## Printing a table of records -/

namespace Play

open Machine

variable {host : Host (StateM W)}

/-- A record of a table is printed, and a new line, and leads to the next, unless it is the empty one
at the end. -/
def formVisit (host : Host (StateM W)) (address : Nat) (state : Machine × W) :
    Visit (Machine × W) (Played W Unit) :=
  match state.1.memory.readWord address with
  | .error fault => .done ((.error fault, state.1), state.2)
  | .ok length =>
    if length.toNat = 0 then .done ((.ok (), state.1), state.2)
    else
      match state.1.play host (do printBytes (address + 2) length.toNat; printCodes [13]) state.2 with
      | ((.ok (), middle), w) => .onward (address + 2 + length.toNat) (middle, w)
      | ((.error fault, after), w) => .done ((.error fault, after), w)

/-- Printing may write to memory, but there is no more of it afterwards. -/
theorem climbs_formVisit (size : Nat) :
    Climbs (formVisit host) (fun state => state.1.memory.size = size) size := by
  have honward {address higher : Nat} {state middle : Machine × W}
      (h : formVisit host address state = .onward higher middle) :
      address < state.1.memory.size ∧ address < higher ∧
        middle.1.memory.size = state.1.memory.size := by
    unfold formVisit at h
    split at h
    case h_1 => exact nomatch h
    case h_2 length hlength =>
      have hsize := Memory.lt_of_readWord hlength
      split at h
      · exact nomatch h
      split at h
      case h_1 after w hplay =>
        obtain ⟨rfl, rfl⟩ := Visit.onward.inj h
        have hcalm : Calm (do printBytes (address + 2) length.toNat; printCodes [13]
            : Play (StateM W) Unit) :=
          (calm_printBytes _ _).bind fun _ => calm_printCodes [13]
        have hmoves := ((hcalm host state.1 state.2).1 () after w hplay).1
        exact ⟨by omega, by omega, Memory.size_congr hmoves.withstands.story_eq⟩
      case h_2 => exact nomatch h
  refine ⟨fun hsize h => (honward h).2.2.trans hsize, fun hsize h => ?_, fun _ h => (honward h).2.1⟩
  exact Nat.lt_of_lt_of_eq (honward h).1 hsize

/-- Printing records visits the first and goes on. -/
theorem play_printRecords_succ (left address : Nat) (state : Machine × W) :
    state.1.play host (printRecords (left + 1) address) state.2
      = (formVisit host address state).followed
          fun higher middle => middle.1.play host (printRecords left higher) middle.2 := by
  rw [printRecords, play_bind, play_look, formVisit]
  cases hlength : state.1.memory.readWord address with
  | error fault => rfl
  | ok length =>
      dsimp only
      by_cases hzero : length.toNat = 0
      · rw [if_neg (not_not.mpr hzero), if_pos hzero]
        rfl
      · rw [if_pos hzero, if_neg hzero, ← bind_assoc, play_bind]
        rcases hplay : state.1.play host (do printBytes (address + 2) length.toNat; printCodes [13])
          state.2 with ⟨⟨fault | ⟨⟩, middle⟩, w⟩ <;> rfl

/-- Printing a table of records is a tour. -/
theorem exists_tour_printForm (host : Host (StateM W)) (machine : Machine) (w : W) (table : Word) :
    ∃ visited, Tour (formVisit host) table.toNat (machine, w) visited
        (machine.play host (printForm table) w) ∧
      Ascending machine.memory.size visited := by
  rw [printForm, play_bind_of_ok (play_view machine host w _)]
  refine (climbs_formVisit machine.memory.size).exists_tour
    (fun left address state => state.1.play host (printRecords left address) state.2)
    (fun address state hsize hle => ?_)
    (fun left address state _ => play_printRecords_succ left address state) (Nat.le_refl _) rfl
  have hle : state.1.memory.size ≤ address := hsize.symm ▸ hle
  rw [formVisit, Memory.readWord_of_size_le hle, printRecords, play_look]

/-- **What goes through memory ends on every memory.**  Looking for a property, listing the keys that
end a line and printing a table of records, to whatever streams are open, are tours that visit higher
and higher addresses, and at most one more than there are bytes.  What is done with a property
begins with a search for it, and goes on without a loop. -/
theorem tours_ascend :
    (∀ (table : ObjectTable) (memory : Memory) (number : Word) (address : Nat),
      ∃ visited, Tour (table.propertyVisit memory number) address () visited
          (table.findFrom memory number (memory.size - address) address) ∧
        Ascending memory.size visited) ∧
    (∀ (table : ObjectTable) (memory : Memory) (object number : Word),
      (number = 0 ∧ table.find? memory object number = .ok none) ∨
        (∃ fault, table.find? memory object number = .error fault ∧
          table.firstProperty memory object = .error fault) ∨
        ∃ address visited, table.firstProperty memory object = .ok address ∧
          Tour (table.propertyVisit memory number) address () visited
            (table.find? memory object number) ∧
          Ascending memory.size visited) ∧
    (∀ (table : ObjectTable) (memory : Memory) (object number : Word),
      table.getProperty memory object number
          = table.find? memory object number >>= table.foundValue memory number ∧
        (∀ value (draft : Draft), Work.on (table.putProperty object number value) draft
          = Work.on (MonadExcept.ofExcept (table.find? draft.memory object number)
              >>= ObjectTable.setFound value) draft) ∧
        table.nextProperty memory object number
          = if number = 0 then do
              let address ← table.firstProperty memory object
              return some (← table.property memory address).number
            else table.find? memory object number >>= table.numberBehind memory) ∧
    (∀ (draft : Draft) (address : Nat),
      ∃ visited, Tour TextBuffer.keyVisit address (draft, []) visited
          (Work.on (TextBuffer.listedKeys (draft.memory.size - address) address) draft) ∧
        Ascending draft.memory.size visited) ∧
    (∀ draft : Draft,
      Work.on TextBuffer.terminators draft = (.ok [13], draft) ∨
        ∃ visited outcome after,
          Tour TextBuffer.keyVisit (draft.memory.headerWord .terminatorTable).toNat (draft, [])
            visited (outcome, after) ∧
          Ascending draft.memory.size visited ∧
          Work.on TextBuffer.terminators draft = (outcome.map TextBuffer.sorted, after)) ∧
    (∀ (W : Type) (host : Host (StateM W)) (machine : Machine) (w : W) (table : Word),
      ∃ visited, Tour (formVisit host) table.toNat (machine, w) visited
          (machine.play host (printForm table) w) ∧
        Ascending machine.memory.size visited) := by
  refine ⟨ObjectTable.exists_tour_findFrom, ?find, ?follows, TextBuffer.exists_tour_listedKeys,
    TextBuffer.on_terminators_cases, fun W host machine w table =>
      exists_tour_printForm host machine w table⟩
  case find =>
    intro table memory object number
    exact ObjectTable.find?_cases table memory object number
  case follows =>
    intro table memory object number
    refine ⟨rfl, fun value draft => ?_, rfl⟩
    rw [ObjectTable.putProperty, Work.on_bind, Work.on_bind, Edit.on_look, Work.on_ofExcept]
    rfl

/-- A machine that is to print a table of one record, with a stream open into the memory behind that
record. -/
def swallowing : Machine :=
  { quitter with
    memory := (quitter.memory.setWord 66 0x6100 (by decide)).setWord 64 1 (by decide)
    streams := { tables := [{ table := 67, width := none, record := 67 }] } }

/-- The record of length zero behind the first becomes a record of what is printed, and the tour goes
on to it.  It ends where dynamic memory is full. -/
example : (swallowing.play deaf (printForm 64) ()).1.1.toOption = none ∧
    (swallowing.play deaf (printForm 64) ()).1.2.memory.dynamic.drop 64
      = [0, 1, 97, 0, 3, 97, 13, 97] := by
  decide +kernel

end Play

end StoryMachine
