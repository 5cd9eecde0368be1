import StoryMachine.Machine.Run

/-!
# What playing does, piece by piece

`Machine.play` hides three layers: the host, the fault and the machine.  From here
on a host is any `Host (StateM W)`: it has a world `W` of its own, answers from it
and changes it as it likes.  One law for each building block says what playing it
gives, as an outcome, a machine and a world; later proofs go through a piece of
work with these laws and never open the layers.

`play_bind` is the law of sequencing.  `play_bind_ok` reads it backwards: work that
succeeded as a whole succeeded in each of its parts.
-/

namespace StoryMachine

variable {W α β : Type}

/-- What playing gives: an outcome, the machine afterwards, and the host's world. -/
abbrev Played (W α : Type) := (Except Fault α × Machine) × W

/-- What goes well as a whole goes well in both its parts. -/
theorem bind_eq_ok {outcome : Except Fault α} {next : α → Except Fault β} {b : β} :
    outcome >>= next = .ok b ↔ ∃ a, outcome = .ok a ∧ next a = .ok b := by
  cases outcome with
  | error fault =>
      constructor
      · intro h
        exact nomatch h
      · rintro ⟨a, h, _⟩
        exact nomatch h
  | ok a =>
      constructor
      · intro h
        exact ⟨a, rfl, h⟩
      · rintro ⟨a, ⟨⟩, h⟩
        exact h

/-- A list of steps that goes well gives one value for each step, and each step goes
well. -/
theorem mapM_eq_ok {f : α → Except Fault β} {xs : List α} {ys : List β}
    (h : xs.mapM f = .ok ys) : ys.length = xs.length ∧ ∀ x ∈ xs, ∃ y, f x = .ok y := by
  induction xs generalizing ys with
  | nil =>
      obtain rfl : [] = ys := by simpa [pure, Except.pure] using h
      exact ⟨rfl, fun x hx => nomatch hx⟩
  | cons x xs ih =>
      rw [List.mapM_cons] at h
      obtain ⟨y, hy, h⟩ := bind_eq_ok.mp h
      obtain ⟨rest, hrest, h⟩ := bind_eq_ok.mp h
      obtain rfl : y :: rest = ys := Except.ok.inj h
      obtain ⟨hlength, hall⟩ := ih hrest
      refine ⟨congrArg Nat.succ hlength, fun other hother => ?_⟩
      rcases List.mem_cons.mp hother with rfl | hother
      · exact ⟨y, hy⟩
      · exact hall other hother

/-- Steps that all go well give their values in the order of the steps. -/
theorem getElem?_of_mapM {f : α → Except Fault β} {xs : List α} {ys : List β}
    (h : xs.mapM f = .ok ys) {i : Nat} {x : α} (hx : xs[i]? = some x) :
    ∃ y, f x = .ok y ∧ ys[i]? = some y := by
  induction xs generalizing ys i with
  | nil => exact nomatch hx
  | cons first xs ih =>
      rw [List.mapM_cons] at h
      obtain ⟨y, hy, h⟩ := bind_eq_ok.mp h
      obtain ⟨rest, hrest, h⟩ := bind_eq_ok.mp h
      obtain rfl : y :: rest = ys := Except.ok.inj h
      cases i with
      | zero =>
          obtain rfl : first = x := by simpa using hx
          exact ⟨y, hy, rfl⟩
      | succ i => exact ih hrest (by simpa using hx)

/-- What went well can be told from the value it gave. -/
theorem eq_ok_of_toOption {outcome : Except Fault α} {a : α} (h : outcome.toOption = some a) :
    outcome = .ok a := by
  cases outcome with
  | error fault => exact nomatch h
  | ok b => exact congrArg _ (Option.some.inj h)

/-- An outcome that gives a value is that value. -/
theorem eq_of_toOption {σ : Type} {result : Except Fault α × σ} {a : α}
    (h : result.1.toOption = some a) : result = (.ok a, result.2) :=
  Prod.ext (eq_ok_of_toOption h) rfl

/-- A play that gives a value ended well. -/
theorem play_eq_of_toOption {played : Played W α} {a : α} (h : played.1.1.toOption = some a) :
    played = ((.ok a, played.1.2), played.2) :=
  Prod.ext (eq_of_toOption h) rfl

/-- Work with a host that remembers nothing. -/
theorem play_unit_of_toOption {played : Played Unit α} {a : α}
    (h : played.1.1.toOption = some a) : played = ((.ok a, played.1.2), ()) :=
  play_eq_of_toOption h

/-- Work on a state that may stop with a fault: on memory, on the call stack, on the
words of the stack. -/
abbrev Work (σ α : Type) := ExceptT Fault (StateM σ) α

namespace Work

variable {σ : Type}

/-- Does the work on a state: its outcome, and the state afterwards. -/
def on (work : Work σ α) (s : σ) : Except Fault α × σ :=
  StateT.run (ExceptT.run work) s

variable (s : σ)

theorem on_get : on (get : Work σ σ) s = (.ok s, s) := rfl

theorem on_set (s' : σ) : on (set s' : Work σ PUnit) s = (.ok ⟨⟩, s') := rfl

theorem on_modify (f : σ → σ) : on (modify f : Work σ PUnit) s = (.ok ⟨⟩, f s) := rfl

/-- Taking over an outcome has that outcome and leaves the state. -/
theorem on_ofExcept (outcome : Except Fault α) :
    on (MonadExcept.ofExcept outcome : Work σ α) s = (outcome, s) := by
  cases outcome <;> rfl

/-- Work done in turn goes on where the first part ended, or stops with its fault. -/
theorem on_bind (work : Work σ α) (next : α → Work σ β) :
    on (work >>= next) s
      = match on work s with
        | (.ok a, middle) => on (next a) middle
        | (.error fault, middle) => (.error fault, middle) := by
  simp only [on, ExceptT.run_bind, StateT.run_bind]
  rcases StateT.run (ExceptT.run work) s with ⟨_ | _, middle⟩ <;> rfl

theorem on_liftM (f : StateM σ α) : on (liftM f : Work σ α) s = (.ok (f s).1, (f s).2) := rfl

variable {s}

/-- Work goes on with the value of a first part that ended well. -/
theorem on_bind_of_ok {work : Work σ α} {next : α → Work σ β} {a : α} {middle : σ}
    (h : on work s = (.ok a, middle)) : on (work >>= next) s = on (next a) middle := by
  rw [on_bind, h]

/-- Work stops with the fault of a first part that failed. -/
theorem on_bind_of_error {work : Work σ α} {next : α → Work σ β} {fault : Fault} {middle : σ}
    (h : on work s = (.error fault, middle)) : on (work >>= next) s = (.error fault, middle) := by
  rw [on_bind, h]

/-- Work that ended well had a first part that did. -/
theorem on_bind_ok {work : Work σ α} {next : α → Work σ β} {b : β} {after : σ}
    (h : on (work >>= next) s = (.ok b, after)) :
    ∃ a middle, on work s = (.ok a, middle) ∧ on (next a) middle = (.ok b, after) := by
  rw [on_bind] at h
  rcases hwork : on work s with ⟨fault | a, middle⟩ <;> rw [hwork] at h
  · exact nomatch h
  · exact ⟨a, middle, rfl, h⟩

end Work

namespace Edit

open Work

variable (draft : Draft)

theorem run_eq_on (edit : Edit α) (memory : Memory) : edit.run memory = on edit { memory } := rfl

theorem on_view (f : Memory → α) : on (view f) draft = (.ok (f draft.memory), draft) := rfl

variable {draft}

/-- A byte is written below the end of dynamic memory. -/
theorem on_writeByte_of_lt {address : Nat} (h : address < draft.memory.dynamicCeiling)
    (value : UInt8) :
    on (writeByte address value) draft
      = (.ok (), { draft with memory := draft.memory.set address value h }) := dif_pos h

/-- A byte is not written from the end of dynamic memory on. -/
theorem on_writeByte_of_le {address : Nat} (h : draft.memory.dynamicCeiling ≤ address)
    (value : UInt8) :
    on (writeByte address value) draft = (.error (draft.memory.writeFault address), draft) :=
  dif_neg (Nat.not_lt.mpr h)

/-- A word is written where both its bytes are below the end of dynamic memory. -/
theorem on_writeWord_of_lt {address : Nat} (h : address + 1 < draft.memory.dynamicCeiling)
    (value : Word) :
    on (writeWord address value) draft
      = (.ok (), { draft with memory := draft.memory.setWord address value h }) := dif_pos h

/-- A write that is not allowed is fatal. -/
theorem isFatal_writeFault (memory : Memory) (address : Nat) :
    (memory.writeFault address).isFatal = true := by
  unfold Memory.writeFault
  split <;> rfl

/-- A word of which only the second byte is in static memory. -/
theorem on_writeWord_last {address : Nat} (h : address + 1 = draft.memory.dynamicCeiling)
    (value : Word) :
    on (writeWord address value) draft
      = (.error (draft.memory.writeFault (address + 1)), draft) :=
  (dif_neg (by omega)).trans (if_pos (by omega))

/-- A word is not written from the end of dynamic memory on. -/
theorem on_writeWord_behind {address : Nat} (h : draft.memory.dynamicCeiling ≤ address)
    (value : Word) :
    on (writeWord address value) draft = (.error (draft.memory.writeFault address), draft) :=
  (dif_neg (by omega)).trans (if_neg (by omega))

/-- A word that cannot be written leaves memory as it is. -/
theorem on_writeWord_of_le {address : Nat} (h : draft.memory.dynamicCeiling ≤ address + 1)
    (value : Word) :
    ∃ place, on (writeWord address value) draft = (.error (draft.memory.writeFault place), draft) := by
  by_cases hfirst : address < draft.memory.dynamicCeiling
  · exact ⟨_, on_writeWord_last (by omega) value⟩
  · exact ⟨_, on_writeWord_behind (Nat.not_lt.mp hfirst) value⟩

end Edit

namespace StreamWork

/-- Does the work of the streams: its outcome, the desk afterwards, and the host's world. -/
def on (work : StreamWork (StateM W) α) (host : Host (StateM W)) (desk : Desk) (w : W) :
    (Except Fault α × Desk) × W :=
  StateT.run (ExceptT.run (work host)) desk w

variable {host : Host (StateM W)} {desk : Desk} {w : W}

/-- Work with a host that is done in turn goes on where the first part ended, or stops with its
fault. -/
theorem on_bind (work : StreamWork (StateM W) α) (next : α → StreamWork (StateM W) β) :
    on (work >>= next) host desk w
      = match on work host desk w with
        | ((.ok a, middle), v) => on (next a) host middle v
        | ((.error fault, middle), v) => ((.error fault, middle), v) := by
  unfold on
  simp only [bind, ReaderT.bind, ExceptT.bind, ExceptT.run, ExceptT.mk, StateT.run, StateT.bind]
  rcases (work host desk w : (Except Fault α × Desk) × W) with ⟨⟨_ | _, middle⟩, v⟩ <;> rfl

/-- Work with a host goes on with the value of a first part that ended well. -/
theorem on_bind_of_ok {work : StreamWork (StateM W) α} {next : α → StreamWork (StateM W) β} {a : α}
    {middle : Desk} {v : W} (h : on work host desk w = ((.ok a, middle), v)) :
    on (work >>= next) host desk w = on (next a) host middle v := by
  rw [on_bind, h]

end StreamWork

namespace Machine

variable (machine : Machine) (host : Host (StateM W)) (w : W)

/-- A machine plays work in turn: it goes on where the first part ended, or stops with its fault.
-/
theorem play_bind (work : Play (StateM W) α) (next : α → Play (StateM W) β) :
    machine.play host (work >>= next) w
      = match machine.play host work w with
        | ((.ok a, middle), w) => middle.play host (next a) w
        | ((.error fault, middle), w) => ((.error fault, middle), w) := by
  unfold play
  simp only [bind, ReaderT.bind, ExceptT.bind, ExceptT.run, ExceptT.mk, StateT.run, StateT.bind]
  rcases (work host machine w : Played W α) with ⟨⟨_ | _, middle⟩, w⟩ <;> rfl

variable {machine host w}

/-- Work that goes well goes on with the next. -/
theorem play_bind_of_ok {work : Play (StateM W) α} {next : α → Play (StateM W) β} {a : α}
    {middle : Machine} {w' : W} (h : machine.play host work w = ((.ok a, middle), w')) :
    machine.play host (work >>= next) w = middle.play host (next a) w' := by
  rw [play_bind, h]

/-- Work that fails ends there. -/
theorem play_bind_of_error {work : Play (StateM W) α} {next : α → Play (StateM W) β}
    {fault : Fault} {middle : Machine} {w' : W}
    (h : machine.play host work w = ((.error fault, middle), w')) :
    machine.play host (work >>= next) w = ((.error fault, middle), w') := by
  rw [play_bind, h]

/-- Work that went well as a whole went well in both its parts. -/
theorem play_bind_ok {work : Play (StateM W) α} {next : α → Play (StateM W) β} {b : β}
    {after : Machine} {w' : W}
    (h : machine.play host (work >>= next) w = ((.ok b, after), w')) :
    ∃ a middle v, machine.play host work w = ((.ok a, middle), v) ∧
      middle.play host (next a) v = ((.ok b, after), w') := by
  rw [play_bind] at h
  rcases hwork : (machine.play host work w : Played W α) with ⟨⟨fault | a, middle⟩, v⟩
  · rw [hwork] at h
    exact nomatch h
  · rw [hwork] at h
    exact ⟨a, middle, v, rfl, h⟩

/-- What follows may be changed for something that does the same after all that may come before. -/
theorem play_bind_congr {work : Play (StateM W) α} {next next' : α → Play (StateM W) β}
    (h : ∀ a middle v, machine.play host work w = ((.ok a, middle), v) →
      middle.play host (next a) v = middle.play host (next' a) v) :
    machine.play host (work >>= next) w = machine.play host (work >>= next') w := by
  rw [play_bind, play_bind]
  rcases hwork : (machine.play host work w : Played W α) with ⟨⟨fault | a, middle⟩, v⟩
  · rfl
  · exact h a middle v hwork

variable (machine host w)

theorem play_get : machine.play host (get : Play (StateM W) Machine) w
    = ((.ok machine, machine), w) := rfl

theorem play_set (next : Machine) :
    machine.play host (set next : Play (StateM W) PUnit) w = ((.ok ⟨⟩, next), w) := rfl

theorem play_modify (f : Machine → Machine) :
    machine.play host (modify f : Play (StateM W) PUnit) w = ((.ok ⟨⟩, f machine), w) := rfl

theorem play_setPc (pc : Nat) :
    machine.play host (Play.setPc pc) w = ((.ok (), { machine with pc }), w) := rfl

/-- Asking the host changes its state and leaves the machine. -/
theorem play_ask (f : Host (StateM W) → StateM W α) :
    machine.play host (Play.ask f) w = ((.ok (f host w).1, machine), (f host w).2) := rfl

/-- Sending a notice changes the state of the host and leaves the machine. -/
theorem play_note (notice : Notice) :
    machine.play host (Play.note notice) w = ((.ok (), machine), (host.note notice w).2) := rfl

theorem play_view (f : Memory → α) :
    machine.play host (Play.view f) w = ((.ok (f machine.memory), machine), w) := rfl

/-- Taking over an outcome leaves the machine. -/
theorem play_ofExcept (outcome : Except Fault α) :
    machine.play host (MonadExcept.ofExcept outcome) w = ((outcome, machine), w) := by
  cases outcome <;> rfl

/-- Reading memory leaves the machine, whatever the outcome. -/
theorem play_look (f : Memory → Except Fault α) :
    machine.play host (Play.look f) w = ((f machine.memory, machine), w) := by
  rw [Play.look, play_bind_of_ok (play_get machine host w)]
  exact play_ofExcept machine host w _

/-- Work on the stack changes the stack of the machine. -/
theorem play_onStack (work : StackWork α) :
    machine.play host (Play.onStack work) w
      = (((machine.stack.run work).1, { machine with stack := (machine.stack.run work).2 }), w) :=
  rfl

/-- Work on memory leaves its notices with the host. -/
theorem play_edit (work : Edit α) :
    machine.play host (Play.edit work) w
      = (((work.run machine.memory).1,
          { machine with memory := (work.run machine.memory).2.memory }),
        (((work.run machine.memory).2.notices.forM host.note : StateM W PUnit) w).2) := rfl

variable {machine host w} in
/-- Work on memory that ends well leaves its memory and sends its notices. -/
theorem play_edit_of_ok {work : Edit α} {a : α} {draft : Draft}
    (h : Work.on work { memory := machine.memory } = (.ok a, draft)) :
    machine.play host (Play.edit work) w = ((.ok a, { machine with memory := draft.memory }),
      ((draft.notices.forM host.note : StateM W PUnit) w).2) := by
  rw [play_edit, Edit.run_eq_on, h]

/-- The streams work on memory and on themselves. -/
theorem play_onStreams (work : StreamWork (StateM W) α) :
    machine.play host (Play.onStreams work) w
      = match work.on host { memory := machine.memory, streams := machine.streams } w with
        | ((outcome, desk), v) =>
          ((outcome, { machine with memory := desk.memory, streams := desk.streams }), v) := by
  show (StateT.run (ExceptT.run (work host)) { memory := machine.memory, streams := machine.streams }
    >>= _) w = _
  unfold StreamWork.on
  simp only [bind, StateT.bind]
  rcases StateT.run (ExceptT.run (work host))
    { memory := machine.memory, streams := machine.streams } w with ⟨⟨outcome, desk⟩, v⟩
  rfl

/-- Work that is tried and fails goes on with the handler, in the state that it left. -/
theorem play_tryCatch (work : Play (StateM W) α) (handler : Fault → Play (StateM W) α) :
    machine.play host (tryCatch work handler) w
      = match machine.play host work w with
        | ((.ok a, middle), w) => ((.ok a, middle), w)
        | ((.error fault, middle), w) => middle.play host (handler fault) w := by
  unfold play
  simp only [tryCatch, tryCatchThe, MonadExceptOf.tryCatch, ExceptT.tryCatch, ExceptT.run,
    ExceptT.mk, StateT.run, StateT.bind, bind]
  rcases (work host machine w : Played W α) with ⟨⟨_ | _, middle⟩, w⟩ <;> rfl

end Machine

end StoryMachine
