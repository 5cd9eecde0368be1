import StoryMachine.Proofs.Faults
import StoryMachine.Proofs.ObjectTree
import StoryMachine.Proofs.Restoring

/-!
# How the walk along siblings ends

To take an object out of the tree, its elder sibling is looked for along the children of its
parent.  Without a bound, the walk ends in one of three ways: the object is found, the children come
to an end without it, or a link cannot be followed (`Walk`).  A story can also make its links so
that the walk does not end at all (`Circles`).

The bound that is set to the walk is no more than a way of telling the two apart
(`elder_eq_iff`).  More steps than there are words come by a word twice, and from there on the walk
repeats itself.
-/

namespace StoryMachine

namespace ObjectTable

open Work

/-- The fault of an object that is not among the children of its parent. -/
def missing (object parent : Word) : Fault :=
  { kind := .corruptImage, detail := s!"OBJECT {object} NOT AMONG CHILDREN OF {parent}" }

/-- What stands for a walk that does not end. -/
def endless (parent : Word) : Fault :=
  { kind := .endlessChain, detail := s!"CHILDREN OF OBJECT {parent}" }

variable (table : ObjectTable) (memory : Memory) (object parent : Word)

/-- How the walk from a child on ends, however long it takes. -/
inductive Walk : Word → Except Fault Word → Prop
  | gone : Walk 0 (.error (missing object parent))
  | broken {current : Word} {fault : Fault} (hzero : current ≠ 0)
      (hlink : table.link memory current .sibling = .error fault) : Walk current (.error fault)
  | found {current : Word} (hzero : current ≠ 0)
      (hlink : table.link memory current .sibling = .ok object) : Walk current (.ok current)
  | next {current sibling : Word} {outcome : Except Fault Word} (hzero : current ≠ 0)
      (hlink : table.link memory current .sibling = .ok sibling) (hne : sibling ≠ object)
      (hrest : Walk sibling outcome) : Walk current outcome

/-- That the walk from a child on never ends: one sibling leads to the next, and none to the object
or to nothing. -/
def Circles (first : Word) : Prop :=
  ∃ chain : Nat → Word, chain 0 = first ∧ ∀ i, chain i ≠ 0 ∧
    table.link memory (chain i) .sibling = .ok (chain (i + 1)) ∧ chain (i + 1) ≠ object

/-- The sibling with which the walk goes on, if it does. -/
def onward (current : Word) : Option Word :=
  if current = 0 then none
  else match table.link memory current .sibling with
    | .ok sibling => if sibling = object then none else some sibling
    | .error _ => none

/-- Where the walk is after some steps, if it has not ended. -/
def after : (steps : Nat) → (first : Word) → Option Word
  | 0, first => some first
  | steps + 1, first => (table.onward memory object first).bind (after steps)

variable {table memory object parent} {first current sibling : Word} {outcome : Except Fault Word}

/-- The walk goes on from an object to its sibling, unless that is the object looked for. -/
theorem onward_eq_some :
    table.onward memory object current = some sibling ↔
      current ≠ 0 ∧ table.link memory current .sibling = .ok sibling ∧ sibling ≠ object := by
  unfold onward
  constructor
  · intro h
    split at h
    case isTrue => exact nomatch h
    case isFalse hzero =>
      split at h
      case h_1 other hlink =>
        split at h
        case isTrue => exact nomatch h
        case isFalse hne =>
          obtain rfl := Option.some.inj h
          exact ⟨hzero, hlink, hne⟩
      case h_2 => exact nomatch h
  · rintro ⟨hzero, hlink, hne⟩
    rw [if_neg hzero, hlink]
    exact if_neg hne

/-! ## Walks -/

/-- A walk ends in one way. -/
theorem Walk.unique {other : Except Fault Word} (h : table.Walk memory object parent first outcome)
    (h' : table.Walk memory object parent first other) : other = outcome := by
  induction h with
  | gone =>
    cases h' with
    | gone => rfl
    | broken hzero _ => exact absurd rfl hzero
    | found hzero _ => exact absurd rfl hzero
    | next hzero _ _ _ => exact absurd rfl hzero
  | broken hzero hlink =>
    cases h' with
    | gone => exact absurd rfl hzero
    | broken _ hlink' => exact congrArg _ (Except.error.inj (hlink'.symm.trans hlink))
    | found _ hlink' => exact nomatch hlink'.symm.trans hlink
    | next _ hlink' _ _ => exact nomatch hlink'.symm.trans hlink
  | found hzero hlink =>
    cases h' with
    | gone => exact absurd rfl hzero
    | broken _ hlink' => exact nomatch hlink'.symm.trans hlink
    | found _ _ => rfl
    | next _ hlink' hne _ => exact absurd (Except.ok.inj (hlink'.symm.trans hlink)) hne
  | next hzero hlink hne _ ih =>
    cases h' with
    | gone => exact absurd rfl hzero
    | broken _ hlink' => exact nomatch hlink'.symm.trans hlink
    | found _ hlink' => exact absurd (Except.ok.inj (hlink.symm.trans hlink')) hne
    | next _ hlink' _ hrest =>
      obtain rfl := Except.ok.inj (hlink'.symm.trans hlink)
      exact ih hrest

/-- One that never ends does not end. -/
theorem Walk.not_circles (h : table.Walk memory object parent first outcome) :
    ¬table.Circles memory object first := by
  rintro ⟨chain, hfirst, hchain⟩
  induction h generalizing chain with
  | gone => exact (hchain 0).1 hfirst
  | broken _ hlink =>
    have hok := (hchain 0).2.1
    rw [hfirst, hlink] at hok
    exact nomatch hok
  | found _ hlink =>
    obtain ⟨-, hok, hne⟩ := hchain 0
    rw [hfirst, hlink] at hok
    exact hne (Except.ok.inj hok).symm
  | next _ hlink _ _ ih =>
    have hok := (hchain 0).2.1
    rw [hfirst, hlink] at hok
    exact ih (fun i => chain (i + 1)) (Except.ok.inj hok).symm fun i => hchain (i + 1)

/-! ## Many steps -/

/-- Steps of the walk are made one after the other. -/
theorem after_add (steps more : Nat) (first : Word) :
    table.after memory object (steps + more) first
      = (table.after memory object steps first).bind (table.after memory object more) := by
  induction steps generalizing first with
  | zero =>
    rw [Nat.zero_add]
    rfl
  | succ steps ih =>
    rw [Nat.succ_add]
    show (table.onward memory object first).bind (table.after memory object (steps + more))
      = ((table.onward memory object first).bind (table.after memory object steps)).bind _
    rw [Option.bind_assoc]
    exact congrArg _ (funext ih)

/-- Among more places than there are words, two are the same. -/
theorem exists_repeat (h : ∀ n, n ≤ maxChildren → (table.after memory object n first).isSome) :
    ∃ i j, i < j ∧ j ≤ maxChildren ∧
      table.after memory object i first = table.after memory object j first := by
  by_contra hno
  simp only [not_exists, not_and] at hno
  let place (n : Nat) : Word := (table.after memory object n first).getD 0
  have hnodup : ((List.range (maxChildren + 1)).map place).Nodup := by
    rw [List.Nodup, List.pairwise_map]
    refine List.Pairwise.imp_of_mem ?_ List.pairwise_lt_range
    intro i j hi hj hlt heq
    have hj := Nat.le_of_lt_succ (List.mem_range.mp hj)
    obtain ⟨word, hword⟩ := Option.isSome_iff_exists.mp (h i (by omega))
    obtain ⟨other, hother⟩ := Option.isSome_iff_exists.mp (h j hj)
    simp only [place, hword, hother, Option.getD_some] at heq
    exact hno i j hlt hj (hword.trans (heq ▸ hother.symm))
  have hle := length_le_maxChildren hnodup
  rw [List.length_map, List.length_range] at hle
  omega

/-- From where the walk comes by again it repeats itself. -/
theorem isSome_after (h : ∀ n, n ≤ maxChildren → (table.after memory object n first).isSome)
    (n : Nat) : (table.after memory object n first).isSome := by
  obtain ⟨i, j, hlt, hle, hsame⟩ := exists_repeat h
  induction n using Nat.strongRecOn with
  | ind n ih =>
    by_cases hn : n ≤ j
    · exact h n (by omega)
    · have hshort : table.after memory object n first
          = table.after memory object (i + (n - j)) first := by
        rw [after_add, hsame, ← after_add]
        congr 1
        omega
      rw [hshort]
      exact ih _ (by omega)

/-- A walk that goes on after any number of steps never ends. -/
theorem circles_of_isSome (h : ∀ n, (table.after memory object n first).isSome) :
    table.Circles memory object first := by
  choose chain hchain using fun n => Option.isSome_iff_exists.mp (h n)
  refine ⟨chain, (Option.some.inj (hchain 0)).symm, fun i => ?_⟩
  have hnext : (table.onward memory object (chain i)).bind (table.after memory object 0)
      = some (chain (i + 1)) := by
    have hafter := hchain (i + 1)
    rwa [after_add, hchain i] at hafter
  obtain ⟨sibling, hsibling, hsame⟩ := Option.bind_eq_some_iff.mp hnext
  obtain rfl := Option.some.inj hsame
  exact onward_eq_some.mp hsibling

/-! ## The bound -/

/-- As far as the bound goes, the walk has ended, or it is still under way. -/
theorem walk_or_long (visits : Nat) (first : Word) :
    table.Walk memory object parent first (table.elder memory object parent visits first) ∨
      (table.elder memory object parent visits first = .error (endless parent) ∧
        ∀ n, n ≤ visits → (table.after memory object n first).isSome) := by
  induction visits generalizing first with
  | zero =>
    refine .inr ⟨rfl, fun n hn => ?_⟩
    obtain rfl := Nat.le_zero.mp hn
    rfl
  | succ visits ih =>
    unfold ObjectTable.elder
    by_cases hzero : first = 0
    · rw [if_pos hzero]
      subst hzero
      exact .inl .gone
    rw [if_neg hzero]
    cases hlink : table.link memory first .sibling with
    | error fault => exact .inl (.broken hzero hlink)
    | ok sibling =>
      by_cases hfound : sibling = object
      · subst hfound
        show table.Walk memory sibling parent first (if sibling = sibling then _ else _) ∨ _
        rw [if_pos rfl]
        exact .inl (.found hzero hlink)
      · have hnext : table.onward memory object first = some sibling :=
          onward_eq_some.mpr ⟨hzero, hlink, hfound⟩
        show table.Walk memory object parent first (if sibling = object then _ else _) ∨
          ((if sibling = object then _ else _) = _ ∧ _)
        rw [if_neg hfound]
        rcases ih sibling with hwalk | ⟨hendless, hlong⟩
        · exact .inl (.next hzero hlink hfound hwalk)
        · refine .inr ⟨hendless, fun n hn => ?_⟩
          cases n with
          | zero => rfl
          | succ n =>
            unfold after
            rw [hnext]
            exact hlong n (Nat.le_of_succ_le_succ hn)

/-- **The bound tells walks that end from others.**  What the bounded walk gives is how the walk
ends, or else it never ends. -/
theorem elder_eq_iff :
    table.elder memory object parent maxChildren first = outcome ↔
      table.Walk memory object parent first outcome ∨
        (table.Circles memory object first ∧ outcome = .error (endless parent)) := by
  constructor
  · rintro rfl
    rcases walk_or_long maxChildren first with hwalk | ⟨hendless, hlong⟩
    · exact .inl hwalk
    · exact .inr ⟨circles_of_isSome (isSome_after hlong), hendless⟩
  · rintro (hwalk | ⟨hcircles, rfl⟩)
    · rcases walk_or_long maxChildren first with hwalk' | ⟨-, hlong⟩
      · exact hwalk.unique hwalk'
      · exact absurd (circles_of_isSome (isSome_after hlong)) hwalk.not_circles
    · rcases @walk_or_long table memory object parent maxChildren first with
        hwalk | ⟨hendless, -⟩
      · exact absurd hcircles hwalk.not_circles
      · exact hendless

/-- A walk ends unless it circles. -/
theorem exists_walk_iff :
    (∃ outcome, table.Walk memory object parent first outcome) ↔
      ¬table.Circles memory object first := by
  constructor
  · rintro ⟨outcome, hwalk⟩
    exact hwalk.not_circles
  · intro hnot
    rcases elder_eq_iff.mp (Eq.refl (table.elder memory object parent maxChildren first))
      with hwalk | ⟨hcircles, -⟩
    · exact ⟨_, hwalk⟩
    · exact absurd hcircles hnot

/-! ## Taking an object out of the tree -/

/-- That an object is to be looked for along a chain of siblings that never ends. -/
def Circling (table : ObjectTable) (memory : Memory) (object : Word) : Prop :=
  ∃ parent sibling first, table.link memory object .parent = .ok parent ∧ parent ≠ 0 ∧
    table.link memory object .sibling = .ok sibling ∧
    table.link memory parent .child = .ok first ∧ first ≠ object ∧
    table.Circles memory object first

/-- An outcome that is not the fault of an endless walk. -/
abbrev Ended {α : Type} (outcome : Except Fault α) : Prop :=
  FailsAs (· ≠ .endlessChain) outcome

/-- Work that does not end so. -/
def Ends {α : Type} (edit : Edit α) : Prop := ∀ draft, Ended (on edit draft).1

/-- Following a link is no endless walk. -/
theorem ended_link (table : ObjectTable) (memory : Memory) (object : Word) (link : Link) :
    Ended (table.link memory object link) := by
  by_cases hnumbers : table.Numbers object
  · rw [link_eq hnumbers]
    unfold Memory.readByte Memory.readWord
    refine .ite (FailsAs.map _ (.ite ?_ ?_)) (.ite ?_ ?_)
    · exact failsAs_ok _
    · exact failsAs_error nofun
    · exact failsAs_ok _
    · exact failsAs_error nofun
  · unfold ObjectTable.link
    rw [entry_eq_error hnumbers]
    exact failsAs_error nofun

/-- A walk that ends, ends otherwise than endlessly. -/
theorem Walk.ended (h : table.Walk memory object parent first outcome) : Ended outcome := by
  induction h with
  | gone => exact failsAs_error nofun
  | broken _ hlink =>
    intro fault hfault
    obtain rfl := Except.error.inj hfault
    exact ended_link table memory _ _ _ hlink
  | found => exact failsAs_ok _
  | next _ _ _ _ ih => exact ih

/-- Work done in turn ends if each of its parts does. -/
theorem Ends.bind {α β : Type} {edit : Edit α} {next : α → Edit β} (h : Ends edit)
    (hnext : ∀ a, Ends (next a)) : Ends (edit >>= next) := by
  intro draft
  have hedit := h draft
  rw [on_bind]
  rcases hrun : on edit draft with ⟨fault | a, middle⟩ <;> rw [hrun] at hedit
  · exact failsAs_error (hedit fault rfl)
  · exact hnext a middle

/-- A write that is not allowed is no endless walk. -/
theorem kind_writeFault (memory : Memory) (address : Nat) :
    (memory.writeFault address).kind ≠ .endlessChain := by
  unfold Memory.writeFault
  split
  · exact nofun
  · exact nofun

/-- Writing a word ends. -/
theorem ended_writeWord (address : Nat) (value : Word) (draft : Draft) :
    Ended (on (Edit.writeWord address value) draft).1 := by
  by_cases hfits : address + 1 < draft.memory.dynamicCeiling
  · rw [Edit.on_writeWord_of_lt hfits]
    exact failsAs_ok _
  · obtain ⟨place, hfault⟩ := Edit.on_writeWord_of_le (Nat.not_lt.mp hfits) value
    rw [hfault]
    exact failsAs_error (kind_writeFault _ place)

/-- Setting a link ends. -/
theorem ends_setLink (table : ObjectTable) (object : Word) (link : Link) (value : Word) :
    Ends (table.setLink object link value) := by
  intro draft
  unfold setLink
  rw [on_bind, Edit.on_look]
  by_cases hnumbers : table.Numbers object
  · rw [entry_eq hnumbers]
    dsimp only
    by_cases hsmall : table.isSmall
    · rw [if_pos hsmall]
      by_cases hlt : table.linkAddress (table.entryAt object) link < draft.memory.dynamicCeiling
      · rw [Edit.on_writeByte_of_lt hlt]
        exact failsAs_ok _
      · rw [Edit.on_writeByte_of_le (Nat.not_lt.mp hlt)]
        exact failsAs_error (kind_writeFault _ _)
    · rw [if_neg hsmall]
      exact ended_writeWord _ _ _
  · rw [entry_eq_error hnumbers]
    exact failsAs_error nofun

/-- What is left to do when the links are known. -/
theorem ends_unlink (table : ObjectTable) (holder object : Word) (link : Link) (value : Word) :
    Ends (do
      table.setLink holder link value
      table.setLink object .parent 0
      table.setLink object .sibling 0) :=
  (ends_setLink table _ _ _).bind fun _ =>
    (ends_setLink table _ _ _).bind fun _ => ends_setLink table _ _ _

/-- An object that is not the first child is looked for. -/
theorem on_remove_of_ne {draft : Draft} {parent sibling first : Word}
    (hparent : table.link draft.memory object .parent = .ok parent) (hzero : parent ≠ 0)
    (hsibling : table.link draft.memory object .sibling = .ok sibling)
    (hfirst : table.link draft.memory parent .child = .ok first) (hne : first ≠ object) :
    on (table.remove object) draft = on (do
      let elder ← Edit.look (table.elder · object parent maxChildren first)
      table.setLink elder .sibling sibling
      table.setLink object .parent 0
      table.setLink object .sibling 0) draft := by
  unfold remove
  rw [on_bind, Edit.on_look, hparent]
  dsimp only
  rw [if_pos hzero, on_bind, Edit.on_look, hsibling]
  dsimp only
  rw [on_bind, Edit.on_look, hfirst]
  dsimp only
  rw [if_neg hne]

/-- A walk that ends without the object is reported, and nothing is changed. -/
theorem on_remove_of_error {draft : Draft} {parent sibling first : Word} {fault : Fault}
    (hparent : table.link draft.memory object .parent = .ok parent) (hzero : parent ≠ 0)
    (hsibling : table.link draft.memory object .sibling = .ok sibling)
    (hfirst : table.link draft.memory parent .child = .ok first) (hne : first ≠ object)
    (helder : table.elder draft.memory object parent maxChildren first = .error fault) :
    on (table.remove object) draft = (.error fault, draft) := by
  rw [on_remove_of_ne hparent hzero hsibling hfirst hne]
  refine on_bind_of_error ?_
  rw [Edit.on_look, helder]

/-- **Taking an object out ends where it is not looked for along a circle.** -/
theorem ended_remove {draft : Draft} (h : ¬table.Circling draft.memory object) :
    Ended (on (table.remove object) draft).1 := by
  unfold remove
  rw [on_bind, Edit.on_look]
  cases hparent : table.link draft.memory object .parent with
  | error fault => exact failsAs_error (ended_link _ _ _ _ fault hparent)
  | ok parent =>
    dsimp only
    by_cases hzero : parent ≠ 0
    case neg =>
      rw [if_neg hzero]
      exact failsAs_ok ()
    rw [if_pos hzero, on_bind, Edit.on_look]
    cases hsibling : table.link draft.memory object .sibling with
    | error fault => exact failsAs_error (ended_link _ _ _ _ fault hsibling)
    | ok sibling =>
      dsimp only
      rw [on_bind, Edit.on_look]
      cases hfirst : table.link draft.memory parent .child with
      | error fault => exact failsAs_error (ended_link _ _ _ _ fault hfirst)
      | ok first =>
        dsimp only
        by_cases hsame : first = object
        · rw [if_pos hsame]
          exact ends_unlink table parent object .child sibling draft
        · rw [if_neg hsame, on_bind, Edit.on_look]
          rcases elder_eq_iff.mp (Eq.refl (table.elder draft.memory object parent maxChildren first))
            with hwalk | ⟨hcircles, -⟩
          · have hended := hwalk.ended
            cases helder : table.elder draft.memory object parent maxChildren first with
            | error fault => exact failsAs_error (hended fault helder)
            | ok elder => exact ends_unlink table elder object .sibling sibling draft
          · exact absurd ⟨parent, sibling, first, hparent, hzero, hsibling, hfirst, hsame, hcircles⟩ h

/-- Taking an object out that is looked for along a circle does not end, and changes nothing. -/
theorem on_remove_of_circling {draft : Draft} (h : table.Circling draft.memory object) :
    ∃ parent, on (table.remove object) draft = (.error (endless parent), draft) := by
  obtain ⟨parent, sibling, first, hparent, hzero, hsibling, hfirst, hne, hcircles⟩ := h
  exact ⟨parent, on_remove_of_error hparent hzero hsibling hfirst hne
    (elder_eq_iff.mpr (.inr ⟨hcircles, rfl⟩))⟩

/-- Work on the tree that does not end: its fault stands for that. -/
def Endless {α : Type} (outcome : Except Fault α) : Prop :=
  ∃ fault, outcome = .error fault ∧ fault.kind = .endlessChain

/-- What ends is not endless. -/
theorem Ended.not_endless {α : Type} {outcome : Except Fault α} (h : Ended outcome) :
    ¬Endless outcome :=
  fun ⟨fault, hfault, hkind⟩ => h fault hfault hkind

/-- **Removing an object ends unless it is looked for along a circle.** -/
theorem endless_remove_iff {draft : Draft} :
    Endless (on (table.remove object) draft).1 ↔ table.Circling draft.memory object := by
  constructor
  · intro hendless
    by_contra hnot
    exact (ended_remove hnot).not_endless hendless
  · intro hcircling
    obtain ⟨parent, hon⟩ := on_remove_of_circling hcircling
    rw [hon]
    exact ⟨_, rfl, rfl⟩

/-- Putting an object elsewhere begins with removing it, and what comes after that ends. -/
theorem endless_insert_iff {draft : Draft} {destination : Word} :
    Endless (on (table.insert object destination) draft).1 ↔
      table.Circling draft.memory object := by
  unfold insert
  constructor
  · intro hendless
    by_contra hnot
    have hremove := ended_remove hnot
    rw [on_bind] at hendless
    rcases hrun : on (table.remove object) draft with ⟨fault | _, middle⟩ <;>
      rw [hrun] at hendless hremove
    · exact hremove.not_endless hendless
    · dsimp only at hendless
      rw [on_bind, Edit.on_look] at hendless
      cases hfirst : table.link middle.memory destination .child with
      | error fault =>
        rw [hfirst] at hendless
        exact Ended.not_endless (failsAs_error (ended_link _ _ _ _ fault hfirst)) hendless
      | ok first =>
        rw [hfirst] at hendless
        have hrest := (ends_setLink table object .sibling first).bind fun _ =>
          (ends_setLink table object .parent destination).bind fun _ =>
            ends_setLink table destination .child object
        exact (hrest middle).not_endless hendless
  · intro hcircling
    obtain ⟨parent, hon⟩ := on_remove_of_circling hcircling
    rw [on_bind_of_error hon]
    exact ⟨_, rfl, rfl⟩

end ObjectTable

namespace Play

open Machine ObjectTable

variable {W : Type} {host : Host (StateM W)} {machine : Machine} {w : W} {object : Word}
  {opcode : Opcode}

/-! ## The two instructions -/

/-- An object other than zero is an object. -/
theorem play_isObject_of_ne (h : object ≠ 0) :
    machine.play host (isObject object opcode) w = ((.ok true, machine), w) := by
  unfold isObject
  rw [if_neg h]
  rfl

/-- Object zero is warned about, and that is all. -/
theorem play_isObject_zero :
    (∃ v, machine.play host (isObject 0 opcode) w = ((.ok false, machine), v)) ∨
      ∃ fault, machine.play host (isObject 0 opcode) w = ((.error fault, machine), w) ∧
        fault.kind = .strictWarning := by
  unfold isObject
  rw [if_pos rfl]
  cases hfatal : machine.options.fatalWarnings with
  | true =>
    have hwarn : machine.play host (warn s!"{opcode.title} with object 0") w = ((.error
        { kind := .strictWarning, detail := s!"{opcode.title} with object 0",
          pc := some machine.current }, machine), w) := by
      unfold warn
      rw [play_bind_of_ok (play_get machine host w), if_pos hfatal]
      rfl
    exact .inr ⟨_, play_bind_of_error hwarn, rfl⟩
  | false =>
    have hwarn : ∃ v, machine.play host (warn s!"{opcode.title} with object 0") w
        = ((.ok (), machine), v) := by
      unfold warn
      rw [play_bind_of_ok (play_get machine host w), if_neg (Bool.eq_false_iff.mp hfatal)]
      exact ⟨_, play_note machine host w _⟩
    obtain ⟨v, hwarn⟩ := hwarn
    exact .inl ⟨v, play_bind_of_ok hwarn⟩

/-- Work on an object is endless if the object is one and the work on it is. -/
theorem endless_ifObject (work : Play (StateM W) Unit) :
    Endless (machine.play host (do if ← isObject object opcode then work) w).1.1 ↔
      object ≠ 0 ∧ Endless (machine.play host work w).1.1 := by
  by_cases hobject : object = 0
  · subst hobject
    refine ⟨fun hendless => ?_, fun h => absurd rfl h.1⟩
    rcases @play_isObject_zero W host machine w opcode with ⟨v, hplay⟩ | ⟨fault, hplay, hkind⟩
    · rw [play_bind_of_ok hplay] at hendless
      obtain ⟨fault, hfault, -⟩ := hendless
      exact nomatch hfault
    · rw [play_bind_of_error hplay] at hendless
      obtain ⟨fault', hfault, hkind'⟩ := hendless
      obtain rfl := Except.error.inj hfault
      exact nomatch hkind.symm.trans hkind'
  · rw [play_bind_of_ok (play_isObject_of_ne hobject)]
    exact ⟨fun h => ⟨hobject, h⟩, fun h => h.2⟩

/-- Taking an object out does not end if the object is looked for along a circle. -/
theorem endless_removeObj {instruction : Instruction} (h : instruction.opcode = .removeObj)
    (operands : List Word) :
    Endless (machine.play host (perform instruction operands) w).1.1 ↔
      operandAt operands 0 ≠ 0 ∧
        machine.objects.Circling machine.memory (operandAt operands 0) := by
  rw [perform, play_bind_of_ok (play_get machine host w), h]
  refine (endless_ifObject _).trans (and_congr_right fun _ => ?_)
  rw [play_edit]
  exact endless_remove_iff

/-- Inserting an object does not end if the object is looked for along a circle. -/
theorem endless_insertObj {instruction : Instruction} (h : instruction.opcode = .insertObj)
    (operands : List Word) :
    Endless (machine.play host (perform instruction operands) w).1.1 ↔
      operandAt operands 0 ≠ 0 ∧ operandAt operands 1 ≠ 0 ∧
        machine.objects.Circling machine.memory (operandAt operands 0) := by
  rw [perform, play_bind_of_ok (play_get machine host w), h]
  refine (endless_ifObject _).trans (and_congr_right fun _ =>
    (endless_ifObject _).trans (and_congr_right fun _ => ?_))
  rw [play_edit]
  exact endless_insert_iff

/-- **Removing an object ends unless it is looked for along a circle.**  The bound of the search
only tells walks that end from those that do not, and every walk ends unless it goes round in a
circle.  Taking an object out of the tree does not end exactly where the object has a parent whose
first child is another object, from which the siblings go round without it; putting an object
elsewhere, and the two instructions, do not end exactly then.  A walk that ends without the object is
reported, and nothing is changed. -/
theorem removal_ends_unless_circling (host : Host (StateM W)) (w : W) :
    (∀ (table : ObjectTable) memory object parent first outcome,
      table.elder memory object parent maxChildren first = outcome ↔
        table.Walk memory object parent first outcome ∨
          (table.Circles memory object first ∧ outcome = .error (endless parent))) ∧
    (∀ (table : ObjectTable) memory object parent first,
      (∃ outcome, table.Walk memory object parent first outcome) ↔
        ¬table.Circles memory object first) ∧
    (∀ (table : ObjectTable) (draft : Draft) object,
      Endless (Work.on (table.remove object) draft).1 ↔ table.Circling draft.memory object) ∧
    (∀ (table : ObjectTable) (draft : Draft) object destination,
      Endless (Work.on (table.insert object destination) draft).1 ↔
        table.Circling draft.memory object) ∧
    (∀ (table : ObjectTable) (draft : Draft) object parent sibling first fault,
      table.link draft.memory object .parent = .ok parent → parent ≠ 0 →
      table.link draft.memory object .sibling = .ok sibling →
      table.link draft.memory parent .child = .ok first → first ≠ object →
      table.Walk draft.memory object parent first (.error fault) →
        Work.on (table.remove object) draft = (.error fault, draft)) ∧
    (∀ (machine : Machine) (instruction : Instruction) operands,
      instruction.opcode = .removeObj →
        (Endless (machine.play host (perform instruction operands) w).1.1 ↔
          operandAt operands 0 ≠ 0 ∧
            machine.objects.Circling machine.memory (operandAt operands 0))) ∧
    (∀ (machine : Machine) (instruction : Instruction) operands,
      instruction.opcode = .insertObj →
        (Endless (machine.play host (perform instruction operands) w).1.1 ↔
          operandAt operands 0 ≠ 0 ∧ operandAt operands 1 ≠ 0 ∧
            machine.objects.Circling machine.memory (operandAt operands 0))) := by
  refine ⟨fun _ _ _ _ _ _ => elder_eq_iff, fun _ _ _ _ _ => exists_walk_iff,
    fun _ _ _ => endless_remove_iff, fun _ _ _ _ => endless_insert_iff, ?reported,
    fun _ _ operands h => endless_removeObj h operands,
    fun _ _ operands h => endless_insertObj h operands⟩
  case reported =>
    intro table draft object parent sibling first fault hparent hzero hsibling hfirst hne hwalk
    exact on_remove_of_error hparent hzero hsibling hfirst hne (elder_eq_iff.mpr (.inl hwalk))

/-- A version 3 story with three objects.  The second is the only child of the first, and its own
sibling; the third has the first for its parent.  The code takes the third out of the tree. -/
def ring : Array UInt8 :=
  (([3, 0, 0, 7, 0, 0, 0, 160, 0, 0, 0, 64, 0, 64, 0, 160] : List UInt8) ++ List.replicate 116 0
    ++ [2] ++ List.replicate 6 0 ++ [1, 2] ++ List.replicate 7 0 ++ [1] ++ List.replicate 11 0
    ++ [0x99, 3, 0xba]).toArray

def ringed : Machine :=
  ((create deaf ring {} ()).1.toOption).get (by decide +kernel)

def removing : Instruction :=
  ((Instruction.decode ringed.memory ringed.pc).toOption).get (by decide +kernel)

/-- The instruction does not end. -/
theorem removal_ends_unless_circling_ringed :
    removing.opcode = .removeObj ∧ removing.operands = [.small 3] ∧
      Endless (ringed.play deaf (perform removing [3]) ()).1.1 := by
  have hlink {object value : Word} {link : Link}
      (h : (ringed.objects.link ringed.memory object link).toOption = some value) :
      ringed.objects.link ringed.memory object link = .ok value := eq_ok_of_toOption h
  have hself : ringed.objects.link ringed.memory 2 .sibling = .ok 2 := hlink (by decide +kernel)
  have hcircles : ringed.objects.Circles ringed.memory 3 2 :=
    ⟨fun _ => 2, rfl, fun _ => ⟨show (2 : Word) ≠ 0 by decide, hself, show (2 : Word) ≠ 3 by decide⟩⟩
  have hcircling : ringed.objects.Circling ringed.memory 3 :=
    ⟨1, 0, 2, hlink (by decide +kernel), by decide, hlink (by decide +kernel),
      hlink (by decide +kernel), by decide, hcircles⟩
  obtain ⟨-, -, -, -, -, hremove, -⟩ := removal_ends_unless_circling deaf ()
  exact ⟨by decide +kernel, by decide +kernel,
    (hremove ringed removing [3] (by decide +kernel)).mpr ⟨by decide, hcircling⟩⟩

end Play

end StoryMachine
