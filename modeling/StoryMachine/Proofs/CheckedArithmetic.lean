import Mathlib.Algebra.Group.Int.Defs
import Mathlib.Algebra.Group.Nat.Defs
import StoryMachine.Proofs.CheckedReading
import StoryMachine.Proofs.Running

/-!
# Arithmetic that is checked

The machine counts addresses without a bound, and looks into its lists in a way that
cannot go wrong.  A program that keeps addresses in 64 bits and reads its lists by
position breaks off where a number leaves its range or a position its list.  It has no
outcome then, not even a fault.

Here is what such a program is written with: sums, products and differences that are
checked, positions that are checked, and work that may break off, on a state
(`CheckedWork`) or with a host as well (`CheckedHosted`).

`Follows` compares such work with the work of the machine.  Where the state is as it
should be, the checked work does not break off and does the same, and it leaves a state
as it should be.  Like a Hoare triple it is put together along the text of the work.
-/

namespace StoryMachine

variable {σ W α β : Type}

/-- Work that can break off without an outcome of any kind. -/
class Breaks (m : Type → Type) where
  /-- Breaks off. -/
  breakOff {α : Type} : m α

export Breaks (breakOff)

instance : Breaks Checked := ⟨ExceptT.mk none⟩

namespace Checked

section

variable {m : Type → Type} [Monad m] [Breaks m]

/-- A number that has to fit in some bits. -/
def fitting (bits n : Nat) : m Nat :=
  if n < 2 ^ bits then pure n else breakOff

/-- The sum of two addresses. -/
def sum (a b : Nat) : m Nat := fitting 64 (a + b)

/-- The product of two addresses. -/
def product (a b : Nat) : m Nat := fitting 64 (a * b)

/-- The difference of two numbers without a sign. -/
def difference (a b : Nat) : m Nat :=
  if b ≤ a then pure (a - b) else breakOff

/-- The sum of two numbers with a sign, in 64 bits. -/
def signedSum (a b : Int) : m Int :=
  if -2 ^ 63 ≤ a + b ∧ a + b < 2 ^ 63 then pure (a + b) else breakOff

/-- The absolute value of a number with a sign, in 16 bits. -/
def magnitude (n : Int) : m Nat :=
  if n.natAbs < 2 ^ 15 then pure n.natAbs else breakOff

/-- Goes on where a condition holds that the program takes for granted. -/
def require (c : Prop) [Decidable c] : m Unit :=
  if c then pure () else breakOff

/-- The item at a position. -/
def item (list : List α) (place : Nat) : m α :=
  match list[place]? with
  | some a => pure a
  | none => breakOff

/-- The items from one position up to another. -/
def cut (list : List α) (start stop : Nat) : m (List α) :=
  if start ≤ stop ∧ stop ≤ list.length then pure ((list.drop start).take (stop - start))
  else breakOff

variable {a b n : Nat}

/-- A number that fits is the answer. -/
theorem fitting_of_lt {bits : Nat} (h : n < 2 ^ bits) : (fitting bits n : m Nat) = pure n :=
  if_pos h

/-- A sum in range is the answer. -/
theorem sum_of_lt (h : a + b < 2 ^ 64) : (sum a b : m Nat) = pure (a + b) := if_pos h

/-- A product in range is the answer. -/
theorem product_of_lt (h : a * b < 2 ^ 64) : (product a b : m Nat) = pure (a * b) := if_pos h

/-- A smaller number can be taken away. -/
theorem difference_of_le (h : b ≤ a) : (difference a b : m Nat) = pure (a - b) := if_pos h

/-- Sixteen bits hold every absolute value but that of the lowest number. -/
theorem magnitude_of_lt {n : Int} (h : n.natAbs < 2 ^ 15) : (magnitude n : m Nat) = pure n.natAbs :=
  if_pos h

/-- A condition that holds does not stop the program. -/
theorem require_of {c : Prop} [Decidable c] (h : c) : (require c : m Unit) = pure () := if_pos h

/-- A position in the list has its item. -/
theorem item_of_eq {list : List α} {place : Nat} {a : α} (h : list[place]? = some a) :
    (item list place : m α) = pure a := by
  rw [item, h]

/-- Positions in the list have the items between them. -/
theorem cut_of_le {list : List α} {start stop : Nat} (h : start ≤ stop)
    (hstop : stop ≤ list.length) :
    (cut list start stop : m (List α)) = pure ((list.drop start).take (stop - start)) :=
  if_pos ⟨h, hstop⟩

end

/-! ## Reading -/

@[simp] theorem inRange_ok (a : α) : inRange (.ok a) = pure a := rfl

/-- Where both go on alike from each answer, they agree. -/
theorem bind_congr_inRange {outcome : Except Fault α} {next : α → Checked β}
    {next' : α → Except Fault β}
    (h : ∀ a, outcome = .ok a → next a = inRange (next' a)) :
    inRange outcome >>= next = inRange (outcome >>= next') := by
  rw [inRange_bind]
  cases outcome with
  | error fault => rfl
  | ok a =>
      rw [inRange_ok, pure_bind, pure_bind]
      exact h a rfl

/-- Reading one after the other is in range if each of them is. -/
theorem mapM_inRange {list : List α} {f : α → Checked β} {g : α → Except Fault β}
    (h : ∀ a ∈ list, f a = inRange (g a)) : list.mapM f = inRange (list.mapM g) := by
  induction list with
  | nil => rfl
  | cons a list ih =>
      rw [List.mapM_cons, List.mapM_cons, h a List.mem_cons_self]
      refine bind_congr_inRange fun b _ => ?_
      rw [ih fun a ha => h a (List.mem_cons_of_mem _ ha)]
      exact bind_congr_inRange fun bs _ => rfl

/-- Answers that cannot fail, one after the other. -/
theorem mapM_pure_of_mem {list : List α} {f : α → Checked β} {g : α → β}
    (h : ∀ a ∈ list, f a = pure (g a)) : list.mapM f = pure (list.map g) := by
  induction list with
  | nil => rfl
  | cons a list ih =>
      rw [List.mapM_cons, h a List.mem_cons_self, ih fun a ha => h a (List.mem_cons_of_mem _ ha)]
      rfl

end Checked

/-! ## Work on a state -/

/-- What has to hold of a state while work goes on, and what of the state that a fault leaves. -/
structure Upkeep (σ : Type) where
  during : σ → Prop
  atFault : σ → Prop
  imp : ∀ s, during s → atFault s

/-- What holds all the time. -/
def Upkeep.always (P : σ → Prop) : Upkeep σ where
  during := P
  atFault := P
  imp := fun _ h => h

/-- What work has to leave: a state as it should be, and an answer as it should be. -/
def Upkeep.Leaves (keep : Upkeep σ) (P : α → Prop) : Except Fault α × σ → Prop
  | (.ok a, after) => keep.during after ∧ P a
  | (.error _, after) => keep.atFault after

/-- What is left may be said in weaker words. -/
theorem Upkeep.Leaves.imp {keep : Upkeep σ} {P Q : α → Prop} {result : Except Fault α × σ}
    (h : keep.Leaves P result) (hPQ : ∀ a, P a → Q a) : keep.Leaves Q result := by
  rcases result with ⟨_ | a, after⟩
  · exact h
  · exact ⟨h.1, hPQ a h.2⟩

/-- Work on a state with checked arithmetic. -/
abbrev CheckedWork (σ α : Type) := ExceptT Fault (StateT σ Option) α

instance : Breaks (CheckedWork σ) := ⟨ExceptT.mk fun _ => none⟩

namespace CheckedWork

/-- Does the work on a state: its outcome and the state afterwards, if it does not break off. -/
def on (work : CheckedWork σ α) (s : σ) : Option (Except Fault α × σ) :=
  StateT.run (ExceptT.run work) s

/-- Reads without touching the state. -/
def compute (reading : Checked α) : CheckedWork σ α :=
  ExceptT.mk fun s => (ExceptT.run reading).map fun outcome => (outcome, s)

/-- Reads the state. -/
def look (f : σ → Checked α) : CheckedWork σ α :=
  ExceptT.mk fun s => (ExceptT.run (f s)).map fun outcome => (outcome, s)

/-- Work in which there is nothing to check. -/
def whole (work : Work σ α) : CheckedWork σ α :=
  ExceptT.mk fun s => some (work.on s)

/-- Work done in turn has an outcome where both parts do. -/
theorem on_bind (work : CheckedWork σ α) (next : α → CheckedWork σ β) (s : σ) :
    on (work >>= next) s
      = (on work s).bind fun result =>
        match result with
        | (.ok a, middle) => on (next a) middle
        | (.error fault, middle) => some (.error fault, middle) := by
  simp only [on, ExceptT.run_bind, StateT.run_bind]
  rcases StateT.run (ExceptT.run work) s with _ | ⟨_ | _, middle⟩ <;> rfl

variable {s : σ}

/-- Work goes on from where the first part has gone well. -/
theorem on_bind_of_ok {work : CheckedWork σ α} {next : α → CheckedWork σ β} {a : α} {middle : σ}
    (h : on work s = some (.ok a, middle)) : on (work >>= next) s = on (next a) middle := by
  rw [on_bind, h]
  rfl

/-- The state that is got is the state. -/
theorem on_get_bind (next : σ → CheckedWork σ β) (s : σ) : on (get >>= next) s = on (next s) s :=
  on_bind_of_ok rfl

/-- The state that is set is the state from there on. -/
theorem on_set_bind (next : PUnit → CheckedWork σ β) (s s' : σ) :
    on (set s' >>= next) s = on (next ⟨⟩) s' :=
  on_bind_of_ok rfl

/-- What has been read is gone on with. -/
theorem on_compute_bind (a : α) (next : α → CheckedWork σ β) (s : σ) :
    on (compute (Checked.inRange (.ok a)) >>= next) s = on (next a) s :=
  on_bind_of_ok rfl

/-- A look gives what the reading gives. -/
theorem on_look {f : σ → Checked α} {outcome : Except Fault α} (h : f s = Checked.inRange outcome) :
    (look f).on s = some (outcome, s) := by
  show (ExceptT.run (f s)).map _ = _
  rw [h]
  rfl

end CheckedWork

/-- **Checked work follows work of the machine.**  Where the state is as it should be, it does
not break off and does the same, and leaves a state and an answer as they should be. -/
def Follows (keep : Upkeep σ) (checked : CheckedWork σ α) (work : Work σ α)
    (P : α → Prop := fun _ => True) : Prop :=
  ∀ s, keep.during s → checked.on s = some (work.on s) ∧ keep.Leaves P (work.on s)

namespace Follows

variable {keep : Upkeep σ} {P : α → Prop} {Q : β → Prop}

/-- Giving a value follows giving it. -/
theorem pure {a : α} (h : P a) : Follows keep (pure a) (pure a) P := fun _ hs => ⟨rfl, hs, h⟩

/-- What follows has to follow from each answer that there may be. -/
theorem bind {checked : CheckedWork σ α} {work : Work σ α} {next : α → CheckedWork σ β}
    {next' : α → Work σ β} (h : Follows keep checked work P)
    (hnext : ∀ a, P a → Follows keep (next a) (next' a) Q) :
    Follows keep (checked >>= next) (work >>= next') Q := by
  intro s hs
  obtain ⟨hsame, hleaves⟩ := h s hs
  rw [CheckedWork.on_bind, Work.on_bind, hsame, Option.bind_some]
  rcases hwork : work.on s with ⟨fault | a, middle⟩ <;> rw [hwork] at hleaves
  · exact ⟨rfl, hleaves⟩
  · exact hnext a hleaves.2 middle hleaves.1

/-- A choice follows a choice, side by side. -/
theorem ite {c : Prop} [Decidable c] {checked other : CheckedWork σ α} {work other' : Work σ α}
    (h : c → Follows keep checked work P) (hother : ¬c → Follows keep other other' P) :
    Follows keep (if c then checked else other) (if c then work else other') P := by
  split
  · exact h ‹_›
  · exact hother ‹_›

/-- Work that follows with a fact follows with what the fact implies. -/
theorem imp {P' : α → Prop} {checked : CheckedWork σ α} {work : Work σ α}
    (h : Follows keep checked work P) (hP : ∀ a, P a → P' a) : Follows keep checked work P' :=
  fun s hs => ⟨(h s hs).1, (h s hs).2.imp hP⟩

/-- The state that is got is as it should be. -/
theorem get : Follows keep (MonadState.get : CheckedWork σ σ) MonadState.get keep.during :=
  fun _ hs => ⟨rfl, hs, hs⟩

/-- Work in which there is nothing to check follows if it leaves what it should. -/
theorem whole {work : Work σ α} (h : ∀ s, keep.during s → keep.Leaves P (work.on s)) :
    Follows keep (CheckedWork.whole work) work P :=
  fun s hs => ⟨rfl, h s hs⟩

/-- Reading the state follows if it stays in range there. -/
theorem look {f : σ → Checked α} {work : Work σ α} {g : σ → Except Fault α}
    (hwork : ∀ s, work.on s = (g s, s)) (h : ∀ s, keep.during s → f s = Checked.inRange (g s))
    (hP : ∀ s a, keep.during s → g s = .ok a → P a) :
    Follows keep (CheckedWork.look f) work P := by
  intro s hs
  rw [hwork]
  refine ⟨CheckedWork.on_look (h s hs), ?_⟩
  cases hg : g s with
  | error fault => exact keep.imp s hs
  | ok a => exact ⟨hs, hP s a hs hg⟩

/-- A look that goes well changes nothing. -/
theorem check {f : σ → Checked β} {checked : CheckedWork σ α} {work : Work σ α}
    (hf : ∀ s, keep.during s → ∃ b, f s = Pure.pure b) (h : Follows keep checked work P) :
    Follows keep (CheckedWork.look f >>= fun _ => checked) work P := by
  intro s hs
  obtain ⟨b, hb⟩ := hf s hs
  rw [CheckedWork.on_bind_of_ok (CheckedWork.on_look hb)]
  exact h s hs

end Follows

/-! ## Work with a host -/

/-- Work on a state with a host: that of the machine and that of the streams. -/
abbrev Hosted (σ W α : Type) := ReaderT (Host (StateM W)) (ExceptT Fault (StateT σ (StateM W))) α

/-- Work on a state with a host and checked arithmetic. -/
abbrev CheckedHosted (σ W α : Type) :=
  ReaderT (Host (StateM W)) (ExceptT Fault (StateT σ (StateT W Option))) α

instance : Breaks (CheckedHosted σ W) := ⟨fun _ => ExceptT.mk fun _ _ => none⟩

/-- Does the work: its outcome, the state afterwards, and the host's world. -/
def Hosted.on (work : Hosted σ W α) (host : Host (StateM W)) (s : σ) (w : W) :
    (Except Fault α × σ) × W :=
  StateT.run (ExceptT.run (work host)) s w

/-- Work with a host that is done in turn goes on where the first part ended. -/
theorem Hosted.on_bind (work : Hosted σ W α) (next : α → Hosted σ W β) (host : Host (StateM W))
    (s : σ) (w : W) :
    on (work >>= next) host s w
      = match on work host s w with
        | ((.ok a, middle), v) => on (next a) host middle v
        | ((.error fault, middle), v) => ((.error fault, middle), v) := by
  unfold on
  simp only [bind, ReaderT.bind, ExceptT.bind, ExceptT.run, ExceptT.mk, StateT.run, StateT.bind]
  rcases (work host s w : (Except Fault α × σ) × W) with ⟨⟨_ | _, middle⟩, v⟩ <;> rfl

/-- Work with a host that leaves a state as it should be, whether it goes well or not. -/
def Hosted.Maintains (P : σ → Prop) (work : Hosted σ W α) : Prop :=
  ∀ (host : Host (StateM W)) (s : σ) (w : W), P s → P (work.on host s w).1.2

namespace Hosted.Maintains

variable {P : σ → Prop}

/-- What leaves the state as it is maintains everything. -/
theorem of_eq {work : Hosted σ W α} (h : ∀ host s w, (work.on host s w).1.2 = s) :
    Maintains P work := fun host s w hs => (h host s w).symm ▸ hs

/-- Giving a value maintains every fact. -/
theorem pure (a : α) : Maintains P (pure a : Hosted σ W α) := fun _ _ _ h => h

/-- Stopping maintains every fact. -/
theorem throw (fault : Fault) : Maintains P (throw fault : Hosted σ W α) := fun _ _ _ h => h

/-- Looking at the state maintains every fact. -/
theorem get : Maintains P (MonadState.get : Hosted σ W σ) := fun _ _ _ h => h

/-- **Work done in turn maintains** what its parts do. -/
theorem bind {work : Hosted σ W α} {next : α → Hosted σ W β} (h : Maintains P work)
    (hnext : ∀ a, Maintains P (next a)) : Maintains P (work >>= next) := by
  intro host s w hs
  have hmiddle := h host s w hs
  rw [on_bind]
  rcases hwork : work.on host s w with ⟨⟨fault | a, middle⟩, v⟩ <;> rw [hwork] at hmiddle
  · exact hmiddle
  · exact hnext a host middle v hmiddle

/-- A choice maintains what both sides do. -/
theorem ite {c : Prop} [Decidable c] {work other : Hosted σ W α} (h : Maintains P work)
    (hother : Maintains P other) : Maintains P (if c then work else other) := by
  split
  · exact h
  · exact hother

end Hosted.Maintains

namespace CheckedHosted

/-- Does the work, if it does not break off. -/
def on (work : CheckedHosted σ W α) (host : Host (StateM W)) (s : σ) (w : W) :
    Option ((Except Fault α × σ) × W) :=
  StateT.run (StateT.run (ExceptT.run (work host)) s) w

/-- Reads without touching the state. -/
def compute (reading : Checked α) : CheckedHosted σ W α := fun _ => ExceptT.mk fun s w =>
  (ExceptT.run reading).map fun outcome => ((outcome, s), w)

/-- Reads the state. -/
def look (f : σ → Checked α) : CheckedHosted σ W α := fun _ => ExceptT.mk fun s w =>
  (ExceptT.run (f s)).map fun outcome => ((outcome, s), w)

/-- Work in which there is nothing to check. -/
def whole (work : Hosted σ W α) : CheckedHosted σ W α := fun host => ExceptT.mk fun s w =>
  some (work.on host s w)

/-- Checked work with a host that is done in turn has an outcome where both parts do. -/
theorem on_bind (work : CheckedHosted σ W α) (next : α → CheckedHosted σ W β)
    (host : Host (StateM W)) (s : σ) (w : W) :
    on (work >>= next) host s w
      = (on work host s w).bind fun result =>
        match result with
        | ((.ok a, middle), v) => on (next a) host middle v
        | ((.error fault, middle), v) => some ((.error fault, middle), v) := by
  unfold on
  simp only [bind, ReaderT.bind, ExceptT.bind, ExceptT.run, ExceptT.mk, StateT.run, StateT.bind]
  rcases (work host s w : Option ((Except Fault α × σ) × W)) with _ | ⟨⟨_ | _, middle⟩, v⟩ <;> rfl

/-- A look gives what the reading gives. -/
theorem on_look {f : σ → Checked α} {outcome : Except Fault α} {s : σ}
    (h : f s = Checked.inRange outcome) (host : Host (StateM W)) (w : W) :
    on (look f) host s w = some ((outcome, s), w) := by
  show (ExceptT.run (f s)).map _ = _
  rw [h]
  rfl

/-- Checked work that is tried has an outcome where it and, if it fails, the handler do. -/
theorem on_tryCatch (work : CheckedHosted σ W α) (handler : Fault → CheckedHosted σ W α)
    (host : Host (StateM W)) (s : σ) (w : W) :
    on (tryCatch work handler) host s w
      = (on work host s w).bind fun result =>
        match result with
        | ((.ok a, middle), v) => some ((.ok a, middle), v)
        | ((.error fault, middle), v) => on (handler fault) host middle v := by
  unfold on
  simp only [tryCatch, tryCatchThe, MonadExceptOf.tryCatch, ExceptT.tryCatch, ExceptT.run,
    ExceptT.mk, StateT.run, StateT.bind, bind]
  rcases (work host s w : Option ((Except Fault α × σ) × W)) with _ | ⟨⟨_ | _, middle⟩, v⟩ <;> rfl

end CheckedHosted

/-- Checked work with a host follows work of the machine or of its streams. -/
def Accompanies (keep : Upkeep σ) (checked : CheckedHosted σ W α) (work : Hosted σ W α)
    (P : α → Prop := fun _ => True) : Prop :=
  ∀ (host : Host (StateM W)) (s : σ) (w : W), keep.during s →
    checked.on host s w = some (work.on host s w) ∧ keep.Leaves P (work.on host s w).1

namespace Accompanies

variable {keep : Upkeep σ} {P : α → Prop} {Q : β → Prop}

/-- Giving a value accompanies giving it. -/
theorem pure {a : α} (h : P a) :
    Accompanies keep (pure a : CheckedHosted σ W α) (pure a) P :=
  fun _ _ _ hs => ⟨rfl, hs, h⟩

/-- Stopping with a fault accompanies stopping with it. -/
theorem throw (fault : Fault) :
    Accompanies keep (throw fault : CheckedHosted σ W α) (throw fault) P :=
  fun _ s _ hs => ⟨rfl, keep.imp s hs⟩

/-- **Work done in turn accompanies work done in turn**, part by part. -/
theorem bind {checked : CheckedHosted σ W α} {work : Hosted σ W α}
    {next : α → CheckedHosted σ W β} {next' : α → Hosted σ W β}
    (h : Accompanies keep checked work P)
    (hnext : ∀ a, P a → Accompanies keep (next a) (next' a) Q) :
    Accompanies keep (checked >>= next) (work >>= next') Q := by
  intro host s w hs
  obtain ⟨hsame, hleaves⟩ := h host s w hs
  rw [CheckedHosted.on_bind, Hosted.on_bind, hsame, Option.bind_some]
  rcases hwork : work.on host s w with ⟨⟨fault | a, middle⟩, v⟩ <;> rw [hwork] at hleaves
  · exact ⟨rfl, hleaves⟩
  · exact hnext a hleaves.2 host middle v hleaves.1

/-- A choice accompanies a choice, side by side. -/
theorem ite {c : Prop} [Decidable c] {checked other : CheckedHosted σ W α}
    {work other' : Hosted σ W α} (h : c → Accompanies keep checked work P)
    (hother : ¬c → Accompanies keep other other' P) :
    Accompanies keep (if c then checked else other) (if c then work else other') P := by
  split
  · exact h ‹_›
  · exact hother ‹_›

/-- Work that accompanies with a fact does so with what the fact implies. -/
theorem imp {P' : α → Prop} {checked : CheckedHosted σ W α} {work : Hosted σ W α}
    (h : Accompanies keep checked work P) (hP : ∀ a, P a → P' a) :
    Accompanies keep checked work P' :=
  fun host s w hs => ⟨(h host s w hs).1, (h host s w hs).2.imp hP⟩

/-- A reading in its range accompanies its outcome. -/
theorem compute {reading : Checked α} {outcome : Except Fault α}
    (h : reading = Checked.inRange outcome) (hP : ∀ a, outcome = .ok a → P a) :
    Accompanies keep (CheckedHosted.compute reading : CheckedHosted σ W α)
      (MonadExcept.ofExcept outcome) P := by
  intro host s w hs
  rw [h]
  cases outcome with
  | error fault => exact ⟨rfl, keep.imp s hs⟩
  | ok a => exact ⟨rfl, hs, hP a rfl⟩

/-- Work without arithmetic accompanies itself. -/
theorem whole {work : Hosted σ W α}
    (h : ∀ host s w, keep.during s → keep.Leaves P (work.on host s w).1) :
    Accompanies keep (CheckedHosted.whole work) work P :=
  fun host s w hs => ⟨rfl, h host s w hs⟩

/-- The state that is got is as it should be. -/
theorem get : Accompanies keep (MonadState.get : CheckedHosted σ W σ) MonadState.get keep.during :=
  fun _ _ _ hs => ⟨rfl, hs, hs⟩

/-- Reading the state follows if it stays in range there. -/
theorem look {f : σ → Checked α} {work : Hosted σ W α} {g : σ → Except Fault α}
    (hwork : ∀ host s w, work.on host s w = ((g s, s), w))
    (h : ∀ s, keep.during s → f s = Checked.inRange (g s))
    (hP : ∀ s a, keep.during s → g s = .ok a → P a) :
    Accompanies keep (CheckedHosted.look f) work P := by
  intro host s w hs
  rw [hwork, CheckedHosted.on_look (h s hs)]
  refine ⟨rfl, ?_⟩
  cases hg : g s with
  | error fault => exact keep.imp s hs
  | ok a => exact ⟨hs, hP s a hs hg⟩

/-- A look that goes well changes nothing. -/
theorem check {f : σ → Checked β} {checked : CheckedHosted σ W α} {work : Hosted σ W α}
    (hf : ∀ s, keep.during s → ∃ b, f s = Pure.pure b) (h : Accompanies keep checked work P) :
    Accompanies keep (CheckedHosted.look f >>= fun _ => checked) work P := by
  intro host s w hs
  obtain ⟨b, hb⟩ := hf s hs
  rw [CheckedHosted.on_bind, CheckedHosted.on_look hb]
  exact h host s w hs

/-- Reading that cannot fail may go before work. -/
theorem computed {a : β} {reading : Checked β} {next : β → CheckedHosted σ W α}
    {work : Hosted σ W α}
    (h : reading = Pure.pure a) (hnext : Accompanies keep (next a) work P) :
    Accompanies keep (CheckedHosted.compute reading >>= next) work P := by
  intro host s w hs
  rw [h, CheckedHosted.on_bind]
  exact hnext host s w hs

/-- Work that maintains what has to hold may be left whole. -/
theorem maintained {work : Hosted σ W α} (h : work.Maintains keep.during) :
    Accompanies keep (CheckedHosted.whole work) work := by
  refine .whole fun host s w hs => ?_
  have hafter := h host s w hs
  rcases hwork : work.on host s w with ⟨⟨fault | a, after⟩, v⟩ <;> rw [hwork] at hafter
  · exact keep.imp after hafter
  · exact ⟨hafter, trivial⟩

end Accompanies

end StoryMachine
