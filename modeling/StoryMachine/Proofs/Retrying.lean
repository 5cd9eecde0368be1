import StoryMachine.Proofs.Timeouts

/-!
# What is offered when a line read is asked for again

A read that has run out of time and whose routine has returned zero is asked for again, and
the host is to begin with what had been typed.  It does so in most cases: what had been typed
is handed on with the read, whatever the routine did in between.  But from version 5 on
nothing typed is taken for nothing typed yet, so a player who had emptied the line finds in it
whatever text is in the buffer of the story (`retry_offers`).

All that comes before the question is `prepare`, so that what the host is given, a
`LineRequest`, can be spoken of for every host.
-/

namespace StoryMachine

/-- The text in a buffer of the story. -/
def Machine.bufferText (machine : Machine) (address : Nat) : Except Fault String :=
  (TextBuffer.readText machine.memory address).map machine.codec.unicode.decode

namespace Play

open Machine

variable {V W : Type}

section

variable {host : Host (StateM W)} {machine poised entered returned : Machine} {w v t t' : W}
  {read : LineRead} {typed : String}

/-- What leaves the machine leaves it, however it ends. -/
theorem Reads.after_eq {α : Type} {work : Play (StateM W) α} (h : Reads work)
    {outcome : Except Fault α} {after : Machine} {w' : W}
    (hplay : machine.play host work w = ((outcome, after), w')) : after = machine :=
  (congrArg (·.1.2) hplay).symm.trans (h host machine w)

/-- Where the text comes from with which the host is to begin. -/
theorem play_initialText (host : Host (StateM W)) (machine : Machine) (read : LineRead) (w : W) :
    machine.play host (initialText read) w
      = ((if 5 ≤ machine.memory.version ∧ read.typed = "" then machine.bufferText read.text
          else .ok read.typed, machine), w) := by
  rw [initialText, play_bind_of_ok (play_view machine host w _)]
  simp only [String.isEmpty_iff]
  split
  case isTrue =>
    rw [play_bind_of_ok (play_get machine host w), play_bind, play_look, bufferText]
    cases TextBuffer.readText machine.memory read.text <;> rfl
  case isFalse => rfl

/-- What is prepared begins with that text. -/
theorem initial_of_prepare {asked : LineRequest} {after : Machine} {w' : W}
    (h : machine.play host (prepare read) w = ((.ok asked, after), w')) :
    (if 5 ≤ machine.memory.version ∧ read.typed = "" then machine.bufferText read.text
      else .ok read.typed) = .ok asked.initial := by
  obtain ⟨_, shown, _, hstatus, hlooking⟩ := play_bind_ok h
  obtain rfl := reads_showStatus.after_eq hstatus
  obtain ⟨room, looked, _, hroom, hbeginning⟩ := play_bind_ok hlooking
  obtain rfl := (reads_look _).after_eq hroom
  obtain ⟨initial, middle, _, hinitial, hlisting⟩ := play_bind_ok hbeginning
  obtain ⟨terminators, last, _, -, hasked⟩ := play_bind_ok hlisting
  rw [play_initialText] at hinitial
  obtain rfl := Except.ok.inj (congrArg (·.1.1) hasked)
  exact congrArg (·.1.1) hinitial

/-- The next step of a machine to which a read has come back asks the host for the line. -/
def AsksAgain (host : Host (StateM W)) (machine : Machine) (w : W) (read : LineRead)
    (asked : LineRequest) : Prop :=
  ∃ v, Machine.play { machine with resume := none } host (prepare read) w
      = ((.ok asked, { machine with resume := none }), v) ∧
    machine.play host step w
      = Machine.play { machine with resume := none } host (request asked >>= respond (.line read)) v

/-- The next step of such a machine fails before the host is asked. -/
def CannotAsk (host : Host (StateM W)) (machine : Machine) (w : W) (read : LineRead) : Prop :=
  ∃ fault v, Machine.play { machine with resume := none } host (prepare read) w
      = ((.error fault, { machine with resume := none }), v) ∧
    machine.play host step w = ((.error fault, { machine with resume := none }), v)

/-- What the host would be given, if nothing fails before. -/
def prepared? (host : Host (StateM W)) (machine : Machine) (w : W) (read : LineRead) :
    Option LineRequest :=
  (Machine.play { machine with resume := none } host (prepare read) w).1.1.toOption

/-- Where the question can be prepared, the host can be asked. -/
theorem not_cannotAsk_of_isSome (h : (prepared? host machine w read).isSome) :
    ¬ CannotAsk host machine w read := by
  rintro ⟨fault, v, hfailed, -⟩
  rw [prepared?, hfailed] at h
  exact nomatch h

/-- A read that has come back is asked for again, or fails before. -/
theorem asksAgain_or_cannotAsk (hresume : machine.resume = some (.line read, 0))
    (hroutine : read.routine ≠ 0) (hreplay : machine.streams.replay = none) (w : W) :
    CannotAsk host machine w read ∨ ∃ asked, AsksAgain host machine w read asked := by
  have hstep : machine.play host step w = Machine.play { machine with resume := none } host
      (prepare read >>= fun asked => request asked >>= respond (.line read)) w := by
    have hagain : (PendingRead.line read).routine ≠ 0 := hroutine
    have hnone : ({ machine with resume := none } : Machine).streams.replay = none := hreplay
    rw [play_step_of_resume hresume, play_resumeRead hagain hnone, inquire_line, bind_assoc]
  rcases hprepare : Machine.play { machine with resume := none } host (prepare read) w with
      ⟨⟨fault | asked, after⟩, v⟩ <;>
    obtain rfl := (reads_prepare read).after_eq hprepare
  · exact .inl ⟨fault, v, hprepare, hstep.trans (play_bind_of_error hprepare)⟩
  · exact .inr ⟨asked, v, hprepare, hstep.trans (play_bind_of_ok hprepare)⟩

/-- **What a retried line read offers.**  A machine asks for a line, for the first time or
again, time runs out with something typed, and the routine of the read, whatever it does, returns
zero.  Then the next step asks the host for that read again, unless it fails before.  The host is
to begin with exactly what had been typed if and only if the version is at most 4, or something
had been typed, or there is no text in the buffer; otherwise it is to begin with the text in the
buffer. -/
theorem retry_offers (hasks : Asks host machine w (.line read) poised v)
    (hroutine : read.routine ≠ 0) (hreplay : poised.streams.replay = none)
    (hout : RunsOut host machine w typed entered t)
    (hreturn : Returns host entered t 0 returned t') (hreplay' : returned.streams.replay = none) :
    returned.resume = some (.line { read with typed }, 0) ∧
      ∀ (V : Type) (other : Host (StateM V)) (y : V),
        CannotAsk other returned y { read with typed } ∨
        ∃ asked, AsksAgain other returned y { read with typed } asked ∧
          (asked.initial = typed ↔ returned.memory.version ≤ 4 ∨ typed ≠ "" ∨
            returned.bufferText read.text = .ok "") ∧
          (5 ≤ returned.memory.version → typed = "" →
            returned.bufferText read.text = .ok asked.initial) := by
  obtain ⟨-, hresume, -⟩ := returns_to_read hasks hroutine hreplay hout hreturn
  refine ⟨hresume, fun V other y => ?_⟩
  rcases @asksAgain_or_cannotAsk V other returned { read with typed } hresume hroutine hreplay' y with
    hcannot | ⟨asked, z, hprepare, hstep⟩
  · exact .inl hcannot
  · have hinitial : (if 5 ≤ returned.memory.version ∧ typed = ""
        then returned.bufferText read.text else .ok typed) = .ok asked.initial :=
      initial_of_prepare hprepare
    refine .inr ⟨asked, ⟨z, hprepare, hstep⟩, ?_, ?_⟩
    · by_cases hbuffer : 5 ≤ returned.memory.version ∧ typed = ""
      · rw [if_pos hbuffer] at hinitial
        obtain ⟨hversion, rfl⟩ := hbuffer
        rw [hinitial, Except.ok.injEq]
        simp [Nat.not_le.mpr hversion]
      · rw [if_neg hbuffer] at hinitial
        refine iff_of_true (Except.ok.inj hinitial).symm ?_
        by_cases hversion : returned.memory.version ≤ 4
        · exact .inl hversion
        · exact .inr (.inl fun htyped => hbuffer ⟨Nat.not_le.mp hversion, htyped⟩)
    · intro hversion htyped
      rwa [if_pos ⟨hversion, htyped⟩] at hinitial

end

/-! ## A line that is emptied -/

/-- A routine that returns at once. -/
theorem returns_of_step {host : Host (StateM W)} {entered returned : Machine} {v u : W}
    {pending : PendingRead} {value : Word}
    (hplay : entered.play host step v = ((.ok (), returned), u))
    (hdepth : entered.stack.depth = returned.stack.depth + 1) (hhalted : entered.halted = none)
    (hresume : returned.resume = some (pending, value)) :
    Returns host entered v value returned u :=
  ⟨.step .refl (by omega) hhalted hplay, hdepth, pending, hresume⟩

/-- A host whose player has typed something whenever the time for a line is over. -/
def slow (typed : String) : Host (StateM Unit) :=
  .plain (fun _ => pure ()) (fun _ _ _ _ => pure (.timedOut typed)) (fun _ => pure (.key 13))

/-- A host that keeps the texts with which lines are to begin. -/
def keeper : Host (StateM (List String)) :=
  .plain (fun _ => pure ()) (fun initial _ _ _ seen => (.done "" 13, seen ++ [initial]))
    (fun _ => pure (.key 13))

/-- A story that reads a line with `hi` in the buffer and a routine that returns zero. -/
def greetingImage : Array UInt8 :=
  ((((storyOf [0xe4, 0x55, 0x42, 0x00, 0x0a, 0x14, 0x10, 0xba, 0x00, 0xb1]).setIfInBounds 66
    3).setIfInBounds 67 2).setIfInBounds 68 104).setIfInBounds 69 105

def greeting : Machine :=
  ((create deaf greetingImage {} ()).1.toOption).get rfl

/-- The line for which it asks, with something typed before. -/
def greeted (typed : String) : LineRead :=
  { text := 66, parse := 0, time := 10, routine := 20, store := some 16, typed }

/-- That story in the routine of its read, and behind it. -/
def greetingPaused (typed : String) : Machine :=
  (greeting.play (slow typed) step ()).1.2

def greetingBack (typed : String) : Machine :=
  ((greetingPaused typed).play (slow typed) step ()).1.2

/-- With `hi` in the buffer, whoever had typed `no` goes on with that, but whoever had emptied
the line finds `hi` in it. -/
theorem retry_offers_emptied :
    greeting.bufferText 66 = .ok "hi" ∧ ∀ typed ∈ ["", "no"],
      RunsOut (slow typed) greeting () typed (greetingPaused typed) () ∧
        Returns (slow typed) (greetingPaused typed) () 0 (greetingBack typed) () ∧
        (∃ asked, AsksAgain keeper (greetingBack typed) [] (greeted typed) asked ∧
          asked.initial = if typed = "" then "hi" else typed) ∧
        ((greetingBack typed).play keeper step []).2 = [if typed = "" then "hi" else typed] := by
  have hopening : ∀ typed ∈ ["", "no"],
      (greeting.play (slow typed) opening ()).1.1.toOption = some (some (.line (greeted ""))) := by
    decide +kernel
  have hinquire : ∀ typed ∈ ["", "no"], ((greeting.play (slow typed) opening ()).1.2.play
      (slow typed) (inquire (.line (greeted ""))) ()).1.1.toOption = some (.timedOut typed) := by
    decide +kernel
  have hsteps : ∀ typed ∈ ["", "no"],
      (greeting.play (slow typed) step ()).1.1.toOption = some () ∧
        ((greetingPaused typed).play (slow typed) step ()).1.1.toOption = some () := by
    decide +kernel
  have hback : ∀ typed ∈ ["", "no"],
      (greetingPaused typed).stack.depth = (greetingBack typed).stack.depth + 1 ∧
        (greetingPaused typed).halted = none ∧
        (greetingBack typed).resume = some (.line (greeted typed), 0) := by
    decide +kernel
  have hsilent : ∀ typed ∈ ["", "no"],
      (greeting.play (slow typed) opening ()).1.2.streams.replay = none ∧
        (greetingBack typed).streams.replay = none := by
    decide +kernel
  have hbuffer : ∀ typed ∈ ["", "no"], 5 ≤ (greetingBack typed).memory.version ∧
      ((greetingBack typed).bufferText (greeted "").text).toOption = some "hi" := by
    decide +kernel
  have hprepared : ∀ typed ∈ ["", "no"],
      (prepared? keeper (greetingBack typed) [] (greeted typed)).isSome := by
    decide +kernel
  have hkept : ∀ typed ∈ ["", "no"],
      ((greetingBack typed).play keeper step []).2 = [if typed = "" then "hi" else typed] := by
    decide +kernel
  refine ⟨eq_ok_of_toOption (by decide +kernel), fun typed htyped => ?_⟩
  have hasks : Asks (slow typed) greeting () (.line (greeted ""))
      (greeting.play (slow typed) opening ()).1.2 () :=
    asks_of_opening (by decide +kernel) (play_unit_of_toOption (hopening typed htyped))
  have hout : RunsOut (slow typed) greeting () typed (greetingPaused typed) () :=
    .intro hasks ((reads_inquire _).play_of_toOption (hinquire typed htyped))
      (play_unit_of_toOption (hsteps typed htyped).1)
  obtain ⟨hdepth, hhalted, hresume⟩ := hback typed htyped
  have hreturn : Returns (slow typed) (greetingPaused typed) () 0 (greetingBack typed) () :=
    returns_of_step (play_unit_of_toOption (hsteps typed htyped).2) hdepth hhalted hresume
  obtain ⟨hreplay, hreplay'⟩ := hsilent typed htyped
  refine ⟨hout, hreturn, ?_, hkept typed htyped⟩
  rcases (retry_offers hasks (by decide) hreplay hout hreturn hreplay').2 _ keeper [] with
    hcannot | ⟨asked, hagain, hexact, hemptied⟩
  · exact absurd hcannot (not_cannotAsk_of_isSome (hprepared typed htyped))
  · refine ⟨asked, hagain, ?_⟩
    obtain ⟨hversion, htext⟩ := hbuffer typed htyped
    by_cases hempty : typed = ""
    · have hboth := (hemptied hversion hempty).symm.trans (eq_ok_of_toOption htext)
      rw [if_pos hempty, Except.ok.inj hboth]
    · rw [if_neg hempty, hexact]
      exact .inr (.inl hempty)

end Play

end StoryMachine
