import StoryMachine.Terminal.Script
import StoryMachine.Terminal.Session

/-!
# Text on its way to the screen

A session holds text back that may turn out to be a prompt.  What is held back is written when a line
ends, before the style, the colours or the window change, before a status line and before a key is
read, and it is handed over as the prompt when a line is read, to be held back again if time runs
out.

**The account.**  `Balanced` goes by the characters, each with the style that it has: what was pending
and what is printed come to the same as what is shown and what is still pending.  Text is shown in
pieces, each with a style of its own, and what a terminal makes of a style (`Piece.render`) does not
come into it.  A step that writes, hands over or holds back is balanced, and so are two balanced steps
one after the other (`Balanced.trans`).

**Main statement.**  Every call of the host is made of such steps (`Call.balanced`), as long as the
terminal does not fail, and so nothing is lost, shown twice or shown in a later style, whatever calls
are made (`text_shown_once`).
-/

namespace StoryMachine.Terminal

variable {α β : Type}

/-- Characters, each with the style that it has. -/
def inked (style : Style) (text : String) : List (Style × Char) :=
  text.toList.map (style, ·)

/-- A script in which nothing fails. -/
structure Succeeds (script : Script) : Prop where
  failing : script.failing = []
  writes : script.writes = none
  lines : .failed ∉ script.lines
  keys : .failed ∉ script.keys

/-- What an act shows of the text of a story.  The writes that hand over pending text are those of
one piece; a status line is written in two.  A prompt counts if the line read is completed. -/
def Act.shown (completes : Bool) : Act → List (Style × Char)
  | .wrote [piece] => inked piece.style piece.text
  | .prompted text => if completes then inked {} text else []
  | _ => []

/-- What was pending and what is printed come to the same as what is shown and what is still
pending. -/
structure Balanced (completes : Bool) (fresh : List (Style × Char)) (session : Session)
    (script : Script) (after : Session) (later : Script) : Prop where
  succeeds : Succeeds later
  balance : ∃ acts : List Act, later.acts = acts.reverse ++ script.acts ∧
    inked session.style session.pending ++ fresh
      = acts.flatMap (Act.shown completes) ++ inked after.style after.pending

variable {completes : Bool} {fresh more : List (Style × Char)} {session middle after : Session}
  {script between later : Script}

/-- The empty text has no characters in any style. -/
@[simp] theorem inked_empty (style : Style) : inked style "" = [] := rfl

/-- Characters of two texts are those of one and then of the other. -/
@[simp] theorem inked_append (style : Style) (text rest : String) :
    inked style (text ++ rest) = inked style text ++ inked style rest := by
  rw [inked, String.toList_append, List.map_append]
  rfl

/-! ## Balanced steps -/

/-- **Balanced steps follow one another.** -/
theorem Balanced.trans (h : Balanced completes fresh session script middle between)
    (h' : Balanced completes more middle between after later) :
    Balanced completes (fresh ++ more) session script after later := by
  obtain ⟨acts, hacts, hbalance⟩ := h.balance
  obtain ⟨rest, hrest, hbalance'⟩ := h'.balance
  refine ⟨h'.succeeds, acts ++ rest, ?_, ?_⟩
  · rw [hrest, hacts, List.reverse_append, List.append_assoc]
  · calc inked session.style session.pending ++ (fresh ++ more)
        = (inked session.style session.pending ++ fresh) ++ more := (List.append_assoc _ _ _).symm
      _ = acts.flatMap (Act.shown completes) ++ (inked middle.style middle.pending ++ more) := by
          rw [hbalance, List.append_assoc]
      _ = (acts ++ rest).flatMap (Act.shown completes) ++ inked after.style after.pending := by
          rw [hbalance', List.flatMap_append, List.append_assoc]

/-- Where nothing is done, nothing is out of balance. -/
theorem Balanced.refl (hsucceeds : Succeeds script) :
    Balanced completes [] session script session script :=
  ⟨hsucceeds, [], rfl, List.append_nil _⟩

/-- Text that is held back is pending. -/
theorem Balanced.held (session : Session) (hsucceeds : Succeeds script) (text : String) :
    Balanced completes (inked session.style text) session script
      { session with pending := session.pending ++ text } script :=
  ⟨hsucceeds, [], rfl, (inked_append session.style session.pending text).symm⟩

/-- An act, and what it leaves pending. -/
theorem Balanced.acted {act : Act} (hlater : Succeeds later) (hacts : later.acts = act :: script.acts)
    (hact : inked session.style session.pending
      = act.shown completes ++ inked after.style after.pending) :
    Balanced completes [] session script after later :=
  ⟨hlater, [act], hacts, by rw [List.append_nil, hact, List.flatMap_singleton]⟩

/-- Where nothing is pending, the style can change. -/
theorem Balanced.restyled (hsucceeds : Succeeds script) (hpending : session.pending = "")
    (hafter : after.pending = "") : Balanced completes [] session script after script :=
  ⟨hsucceeds, [], rfl, by rw [hpending, hafter, inked_empty, inked_empty]; rfl⟩

/-- What happens at a console without anything being shown. -/
def Quiet (script later : Script) : Prop :=
  ∀ completes session, Balanced completes [] session script session later

/-- What happens twice without anything shown happens without anything shown. -/
theorem Quiet.trans (h : Quiet script between) (h' : Quiet between later) : Quiet script later :=
  fun completes session => (h completes session).trans (h' completes session)

/-- Nothing fails after what happens in quiet. -/
theorem Quiet.succeeds (h : Quiet script later) : Succeeds later :=
  (h true { storyName := "", saveDirectory := "" }).succeeds

/-- An act that shows nothing of the text of a story. -/
theorem quiet_of_act {act : Act} (hlater : Succeeds later) (hacts : later.acts = act :: script.acts)
    (hact : ∀ completes, act.shown completes = []) : Quiet script later :=
  fun completes _ => .acted hlater hacts (by rw [hact completes, List.nil_append])

namespace Script

/-- No step fails at a console where nothing fails. -/
theorem outcome_of_succeeds (h : Succeeds script) (step : Step) : script.outcome step = .ok () := by
  rw [outcome, h.failing]
  rfl

/-- An act that is done leaves nothing to fail. -/
theorem succeeds_add (h : Succeeds script) (act : Act) : Succeeds (script.add act) :=
  ⟨h.failing, h.writes, h.lines, h.keys⟩

/-- Waiting for a line shows nothing, and does not fail.  The induction is on what happens at the
editor. -/
theorem quiet_lineFrom (timed : Option Word) (cues : List LineCue) (hsucceeds : Succeeds script)
    (hcues : .failed ∉ cues) :
    ∃ event later, lineFrom timed cues script = (.ok event, later) ∧ Quiet script later := by
  induction cues generalizing script with
  | nil =>
      have houtcome := outcome_of_succeeds (succeeds_add hsucceeds (.awaitedLine timed.isSome))
        .awaitLine
      have hlater : Succeeds { script.add (.awaitedLine timed.isSome) with lines := [] } :=
        ⟨hsucceeds.failing, hsucceeds.writes, hcues, hsucceeds.keys⟩
      refine ⟨.closed, _, ?_, quiet_of_act hlater rfl fun _ => rfl⟩
      simp only [lineFrom, houtcome]
  | cons cue rest ih =>
      have houtcome := outcome_of_succeeds (succeeds_add hsucceeds (.awaitedLine timed.isSome))
        .awaitLine
      have hrest : .failed ∉ rest := fun h => hcues (List.mem_cons_of_mem _ h)
      have hlater : Succeeds { script.add (.awaitedLine timed.isSome) with lines := rest } :=
        ⟨hsucceeds.failing, hsucceeds.writes, hrest, hsucceeds.keys⟩
      cases cue with
      | entered text =>
          refine ⟨.entered text, _, ?_, quiet_of_act hlater rfl fun _ => rfl⟩
          simp only [lineFrom, houtcome]
      | interrupted =>
          refine ⟨.interrupted, _, ?_, quiet_of_act hlater rfl fun _ => rfl⟩
          simp only [lineFrom, houtcome]
      | closed =>
          refine ⟨.closed, _, ?_, quiet_of_act hlater rfl fun _ => rfl⟩
          simp only [lineFrom, houtcome]
      | failed => exact absurd List.mem_cons_self hcues
      | typed text =>
          have htyped : Succeeds { script.add (.awaitedLine timed.isSome) with buffer := text } :=
            ⟨hsucceeds.failing, hsucceeds.writes, hsucceeds.lines, hsucceeds.keys⟩
          by_cases htimed : timed.isSome = true
          · have htypedLast : Succeeds
                { script.add (.awaitedLine timed.isSome) with buffer := text, lines := rest } :=
              ⟨hsucceeds.failing, hsucceeds.writes, hrest, hsucceeds.keys⟩
            refine ⟨.timedOut, _, ?_, quiet_of_act htypedLast rfl fun _ => rfl⟩
            simp only [lineFrom, houtcome]
            rw [if_pos htimed]
          · obtain ⟨event, later, hfrom, hquiet⟩ := ih htyped hrest
            refine ⟨event, later, ?_, (quiet_of_act htyped rfl fun _ => rfl).trans hquiet⟩
            simp only [lineFrom, houtcome]
            rw [if_neg htimed]
            exact hfrom

/-- So does waiting for a key.  What means nothing to a story is passed over. -/
theorem quiet_keyFrom (timed : Option Word) (cues : List KeyCue) (hsucceeds : Succeeds script)
    (hcues : .failed ∉ cues) :
    ∃ event later, keyFrom timed cues script = (.ok event, later) ∧ Quiet script later := by
  induction cues generalizing script with
  | nil =>
      have houtcome := outcome_of_succeeds (succeeds_add hsucceeds (.awaitedKey timed.isSome))
        .awaitKey
      have hlater : Succeeds { script.add (.awaitedKey timed.isSome) with keys := [] } :=
        ⟨hsucceeds.failing, hsucceeds.writes, hsucceeds.lines, hcues⟩
      refine ⟨.interrupted, _, ?_, quiet_of_act hlater rfl fun _ => rfl⟩
      simp only [keyFrom, houtcome]
  | cons cue rest ih =>
      have houtcome := outcome_of_succeeds (succeeds_add hsucceeds (.awaitedKey timed.isSome))
        .awaitKey
      have hrest : .failed ∉ rest := fun h => hcues (List.mem_cons_of_mem _ h)
      have hlater : Succeeds { script.add (.awaitedKey timed.isSome) with keys := rest } :=
        ⟨hsucceeds.failing, hsucceeds.writes, hsucceeds.lines, hrest⟩
      have hpassed : ∃ event later,
          keyFrom timed rest (script.add (.awaitedKey timed.isSome)) = (.ok event, later) ∧
            Quiet script later := by
        have hnext := succeeds_add hsucceeds (.awaitedKey timed.isSome)
        obtain ⟨event, later, hfrom, hquiet⟩ := ih hnext hrest
        exact ⟨event, later, hfrom, (quiet_of_act hnext rfl fun _ => rfl).trans hquiet⟩
      cases cue with
      | interrupted =>
          refine ⟨.interrupted, _, ?_, quiet_of_act hlater rfl fun _ => rfl⟩
          simp only [keyFrom, houtcome]
      | failed => exact absurd List.mem_cons_self hcues
      | resized =>
          simp only [keyFrom, houtcome]
          exact hpassed
      | nothing =>
          by_cases htimed : timed.isSome = true
          · refine ⟨.timedOut, _, ?_, quiet_of_act hlater rfl fun _ => rfl⟩
            simp only [keyFrom, houtcome]
            rw [if_pos htimed]
          · simp only [keyFrom, houtcome]
            rw [if_neg htimed]
            exact hpassed
      | pressed key =>
          cases hevent : key.event? with
          | some event =>
              refine ⟨event, _, ?_, quiet_of_act hlater rfl fun _ => rfl⟩
              simp only [keyFrom, houtcome, hevent]
          | none =>
              simp only [keyFrom, houtcome, hevent]
              exact hpassed

/-- A step that is taken succeeds. -/
theorem take_eq (hsucceeds : Succeeds script) (step : Step) (act : Act) :
    (take step act).run script = (.ok (), script.add act) := by
  rw [← outcome_of_succeeds (succeeds_add hsucceeds act) step]
  rfl

/-- Pieces are written, and noted as written. -/
theorem write_eq (hsucceeds : Succeeds script) (pieces : List Piece) :
    (write pieces).run script = (.ok (), script.add (.wrote pieces)) := by
  obtain ⟨size, lines, keys, failing, writes, disk⟩ := script
  obtain rfl : writes = none := hsucceeds.writes
  obtain rfl : failing = [] := hsucceeds.failing
  rfl

end Script

namespace Session

open Terminal.Script

/-- Does something in a session at a scripted console. -/
def on (work : StateT Session Scripted α) (session : Session) (script : Script) :
    (α × Session) × Script :=
  (work.run session).run script

/-- Does something that may fail. -/
def sit (work : Sitting Scripted α) (session : Session) (script : Script) :
    (Except SystemFault α × Session) × Script :=
  on work.run session script

/-- A session does work in turn. -/
theorem on_bind (work : StateT Session Scripted α) (next : α → StateT Session Scripted β) :
    on (work >>= next) session script
      = on (next (on work session script).1.1) (on work session script).1.2
          (on work session script).2 := rfl

/-- A session goes on with what the first part gave. -/
theorem on_bind_of {work : StateT Session Scripted α} {next : α → StateT Session Scripted β} {a : α}
    (h : on work session script = ((a, middle), between)) :
    on (work >>= next) session script = on (next a) middle between := by
  rw [on_bind, h]

/-- A session goes on with what the first part gave, where that went well. -/
theorem sit_bind_of_ok {work : Sitting Scripted α} {next : α → Sitting Scripted β} {a : α}
    (h : sit work session script = ((.ok a, middle), between)) :
    sit (work >>= next) session script = sit (next a) middle between := by
  rw [sit, ExceptT.run_bind]
  exact on_bind_of h

/-- A step of the console that goes well leaves the session. -/
theorem sit_perform {step : Scripted (Except SystemFault α)} {a : α}
    (h : step.run script = (.ok a, later)) :
    sit (perform step) session script = ((.ok a, session), later) := by
  have : sit (perform step) session script = (((step.run script).1, session), (step.run script).2) :=
    rfl
  rw [this, h]

theorem sit_get_bind {next : Session → Sitting Scripted α} :
    sit (get >>= next) session script = sit (next session) session script := rfl

theorem sit_set (other : Session) :
    sit (set other) session script = ((.ok (), other), script) := rfl

/-- Writing what is pending. -/
theorem sit_flush (session : Session) (hsucceeds : Succeeds script) :
    ∃ later, sit (flush console) session script = ((.ok (), { session with pending := "" }), later) ∧
      ∀ completes, Balanced completes [] session script { session with pending := "" } later := by
  rw [flush, sit_get_bind]
  by_cases hempty : session.pending.isEmpty = true
  · have hpending : session.pending = "" := String.isEmpty_iff.mp hempty
    have hsame : { session with pending := "" } = session := by rw [← hpending]
    rw [if_pos hempty, hsame]
    exact ⟨script, rfl, fun completes => .restyled hsucceeds hpending hpending⟩
  · rw [if_neg hempty]
    refine ⟨script.add (.wrote [⟨session.style, session.pending⟩]), ?_, fun completes =>
      .acted (succeeds_add hsucceeds _) rfl (List.append_nil _).symm⟩
    exact (sit_bind_of_ok (sit_set _)).trans (sit_perform (write_eq hsucceeds _))

/-- Work that goes well leaves nothing to complain of. -/
theorem on_complaining {work : Sitting Scripted Unit}
    (h : sit work session script = ((.ok (), after), later)) :
    on (complaining console work) session script = (((), after), later) :=
  (on_bind_of h).trans rfl

/-- Text is cut in two. -/
theorem splitLines_append (text : String) :
    (splitLines text).1 ++ (splitLines text).2 = text := by
  have hdrop (chars : List Char) : chars.drop (chars.takeWhile (· ≠ '\n')).length
      = chars.dropWhile (· ≠ '\n') := by
    calc chars.drop (chars.takeWhile (· ≠ '\n')).length
        = (chars.takeWhile (· ≠ '\n') ++ chars.dropWhile (· ≠ '\n')).drop
            (chars.takeWhile (· ≠ '\n')).length := by rw [List.takeWhile_append_dropWhile]
      _ = chars.dropWhile (· ≠ '\n') := List.drop_left
  rw [splitLines]
  dsimp only
  rw [hdrop, ← String.ofList_append, ← List.reverse_append, List.takeWhile_append_dropWhile,
    List.reverse_reverse, String.ofList_toList]

/-- Text for the one window is printed, and no other. -/
def printed (session : Session) (text : String) : List (Style × Char) :=
  if session.window = 0 then inked session.style text else []

/-- Held text is pending behind what is pending already. -/
theorem on_hold (text : String) : on (hold text) session script
    = (((), { session with pending := session.pending ++ text }), script) := rfl

theorem on_get_bind {next : Session → StateT Session Scripted α} :
    on (get >>= next) session script = on (next session) session script := rfl

/-- Printing holds text back, and writes it if a line ends in it. -/
theorem print_balanced (session : Session) (text : String) (hsucceeds : Succeeds script) :
    ∃ after later, on (print console text) session script = (((), after), later) ∧
      ∀ completes, Balanced completes (session.printed text) session script after later := by
  rw [print, on_get_bind, printed]
  by_cases hwindow : session.window = 0
  case neg =>
    rw [if_pos hwindow, if_neg hwindow]
    exact ⟨session, script, rfl, fun completes => .refl hsucceeds⟩
  have hwhole := splitLines_append text
  rw [if_neg (not_not_intro hwindow), if_pos hwindow]
  generalize splitLines text = parts at hwhole
  obtain ⟨lines, tail⟩ := parts
  dsimp only at hwhole ⊢
  by_cases hlines : lines.isEmpty = true
  · obtain rfl : lines = "" := String.isEmpty_iff.mp hlines
    rw [if_neg (by rw [hlines]; decide), ← hwhole, String.empty_append]
    exact ⟨_, script, rfl, fun completes => .held session hsucceeds tail⟩
  · rw [if_pos (by simpa using hlines), on_bind, on_hold, on_bind]
    dsimp only
    obtain ⟨later, hflush, hflushed⟩ :=
      sit_flush { session with pending := session.pending ++ lines } hsucceeds
    rw [on_complaining hflush, on_hold]
    refine ⟨{ session with pending := "" ++ tail }, later, rfl, fun completes => ?_⟩
    have htail : Balanced completes (inked session.style tail) { session with pending := "" } later
        { session with pending := "" ++ tail } later :=
      .held { session with pending := "" } (hflushed completes).succeeds tail
    rw [← hwhole, inked_append, ← List.append_nil (inked session.style lines)]
    exact ((Balanced.held session hsucceeds lines).trans (hflushed completes)).trans htail

/-- What is pending is written before the style changes. -/
theorem restyle_balanced (session : Session) (f : Session → Session)
    (hf : ∀ session, (f session).pending = session.pending) (hsucceeds : Succeeds script) :
    ∃ after later, on (restyle console f) session script = (((), after), later) ∧
      ∀ completes, Balanced completes [] session script after later := by
  obtain ⟨later, hflush, hflushed⟩ := sit_flush session hsucceeds
  exact ⟨f { session with pending := "" }, later, (on_bind_of (on_complaining hflush)).trans rfl,
    fun completes => (hflushed completes).trans (.restyled (hflushed completes).succeeds rfl (hf _))⟩

/-- A status line comes behind what is pending, and is no part of the account. -/
theorem showStatus_balanced (session : Session) (status : StatusLine) (hsucceeds : Succeeds script) :
    ∃ after later, on (showStatus console status) session script = (((), after), later) ∧
      ∀ completes, Balanced completes [] session script after later := by
  obtain ⟨later, hflush, hflushed⟩ := sit_flush session hsucceeds
  have hlater := (hflushed true).succeeds
  refine ⟨{ session with pending := "" }, later.add (.wrote
    [{ style := { reverse := true }, text := statusText session.columns.toNat status },
      { text := "\n" }]), ?_, fun completes =>
        (hflushed completes).trans
          (quiet_of_act (succeeds_add hlater _) rfl (fun _ => rfl) completes _)⟩
  rw [showStatus, on_get_bind]
  exact on_complaining ((sit_bind_of_ok hflush).trans (sit_perform (write_eq hlater _)))

/-! ## Reading keys and lines -/

/-- A step that cannot fail is a step of the session. -/
theorem sit_quietly (step : Scripted α) :
    sit (quietly step) session script
      = ((.ok (step.run script).1, session), (step.run script).2) := rfl

theorem sit_ofExcept (a : α) :
    sit (MonadExcept.ofExcept (.ok a : Except SystemFault α)) session script
      = ((.ok a, session), script) := rfl

/-- Asking everybody to stop is no part of the account. -/
theorem quiet_stop (hsucceeds : Succeeds script) : Quiet script { script with stopped := true } :=
  fun _ _ => ⟨⟨hsucceeds.failing, hsucceeds.writes, hsucceeds.lines, hsucceeds.keys⟩, [], rfl,
    List.append_nil _⟩

/-- That work succeeds, and is balanced, without anything being printed. -/
def Settles (work : Sitting Scripted α) (session : Session) (script : Script) : Prop :=
  ∃ a after later, sit work session script = ((.ok a, after), later) ∧
    ∀ completes, Balanced completes [] session script after later

/-- Giving a value settles, where nothing fails. -/
theorem settles_pure (a : α) (session : Session) (hsucceeds : Succeeds script) :
    Settles (pure a) session script :=
  ⟨a, session, script, rfl, fun _ => .refl hsucceeds⟩

/-- Work that settles behind a balanced step. -/
theorem Settles.behind {work : Sitting Scripted α} {next : α → Sitting Scripted β} {a : α}
    (h : sit work session script = ((.ok a, middle), between))
    (hbalanced : ∀ completes, Balanced completes [] session script middle between)
    (hnext : Settles (next a) middle between) : Settles (work >>= next) session script := by
  obtain ⟨b, after, later, hsit, hrest⟩ := hnext
  exact ⟨b, after, later, (sit_bind_of_ok h).trans hsit, fun completes =>
    (hbalanced completes).trans (hrest completes)⟩

/-- Work that settles behind a step that takes nothing. -/
theorem Settles.behind_take {step : Step} {next : Unit → Sitting Scripted α}
    (hsucceeds : Succeeds script)
    (hnext : Settles (next ()) session (script.add (.took step))) :
    Settles (perform (take step (.took step)) >>= next) session script :=
  .behind (sit_perform (take_eq hsucceeds step (.took step)))
    (fun completes => quiet_of_act (succeeds_add hsucceeds _) rfl (fun _ => rfl) completes session) hnext

/-- What is pending is written before a key is read. -/
theorem settles_awaitKey (session : Session) (timeout : Word) (hsucceeds : Succeeds script) :
    Settles (awaitKey console timeout) session script := by
  obtain ⟨flushed, hflush, hflushed⟩ := sit_flush session hsucceeds
  have hopen := (hflushed true).succeeds
  have hprepare := succeeds_add hopen (.took .openTerminal)
  have hprepared := succeeds_add hprepare (.took .prepare)
  obtain ⟨event, waited, hfrom, hwaited⟩ :=
    quiet_keyFrom (limit? timeout) _ hprepared hprepared.keys
  have hwait : sit (quietly (console.awaitKey (limit? timeout))) { session with pending := "" }
      ((flushed.add (.took .openTerminal)).add (.took .prepare))
        = ((.ok (.ok event), { session with pending := "" }), waited) :=
    congrArg (fun outcome => ((Except.ok outcome.1, { session with pending := "" }), outcome.2)) hfrom
  refine .behind hflush hflushed (.behind_take hopen (.behind_take hprepare
    (.behind hwait (fun completes => hwaited completes _) (.behind_take hwaited.succeeds ?_))))
  have hrestored := succeeds_add hwaited.succeeds (.took .restore)
  refine .behind (sit_ofExcept event) (fun _ => .refl hrestored) ?_
  cases event with
  | code code => exact settles_pure _ _ hrestored
  | timedOut => exact settles_pure _ _ hrestored
  | interrupted =>
      exact .behind (sit_quietly _) (fun completes => quiet_stop hrestored completes _)
        (settles_pure _ _ (quiet_stop hrestored).succeeds)

/-- **Reading a key is balanced**: what is pending is shown. -/
theorem readChar_balanced (session : Session) (timeout : Word) (hsucceeds : Succeeds script) :
    ∃ input after later, on (readChar console timeout) session script = ((input, after), later) ∧
      ∀ completes, Balanced completes [] session script after later := by
  obtain ⟨input, after, later, hawait, hbalanced⟩ := settles_awaitKey session timeout hsucceeds
  exact ⟨input, after, later, (on_bind_of hawait).trans rfl, hbalanced⟩

/-- What is pending becomes the prompt, or is written if it could not be shown as it is. -/
theorem sit_takePrompt (session : Session) (hsucceeds : Succeeds script) :
    ∃ prompt later,
      sit (takePrompt console) session script
        = ((.ok prompt, { session with pending := "" }), later) ∧
      inked session.style prompt = inked {} prompt ∧
      (session.style = {} → prompt = session.pending) ∧
      ∀ completes, Balanced completes [] session script { session with pending := prompt } later := by
  rw [takePrompt, sit_get_bind]
  by_cases hplain : session.style = {}
  · rw [if_pos hplain]
    refine ⟨session.pending, script, rfl, ?_, fun _ => rfl, fun completes => .refl hsucceeds⟩
    rw [hplain]
  · obtain ⟨later, hflush, hflushed⟩ := sit_flush session hsucceeds
    rw [if_neg hplain]
    refine ⟨"", later, (sit_bind_of_ok hflush).trans rfl, rfl, fun h => absurd h hplain, hflushed⟩

/-- Whether a line read is completed. -/
def completed : LineInput → Bool
  | .done _ _ => true
  | .timedOut _ => false

/-- Filling the input line shows nothing. -/
theorem sit_setBuffer (session : Session) (initial : String) (hsucceeds : Succeeds script) :
    ∃ later, sit (perform (console.setBuffer initial)) session script = ((.ok (), session), later) ∧
      Quiet script later := by
  have hfilled : Succeeds { script with buffer := initial } :=
    ⟨hsucceeds.failing, hsucceeds.writes, hsucceeds.lines, hsucceeds.keys⟩
  exact ⟨_, sit_perform (take_eq hfilled .setBuffer (.filled initial)),
    quiet_of_act (succeeds_add hfilled _) rfl fun _ => rfl⟩

/-- Waiting for a line shows nothing. -/
theorem sit_awaitLine (session : Session) (timed : Option Word) (hsucceeds : Succeeds script) :
    ∃ event later, sit (perform (console.awaitLine timed)) session script
      = ((.ok event, session), later) ∧ Quiet script later := by
  obtain ⟨event, later, hfrom, hquiet⟩ := quiet_lineFrom timed _ hsucceeds hsucceeds.lines
  exact ⟨event, later, sit_perform hfrom, hquiet⟩

/-- A line that is read takes the prompt with it.  If time runs out, what was pending is pending
again, as long as no style is set and no colour.  The prompt counts if the line is completed, and
else it is still pending. -/
theorem awaitLine_balanced (session : Session) (initial : String) (timeout : Word)
    (hsucceeds : Succeeds script) :
    ∃ input after later,
      sit (awaitLine console initial timeout) session script = ((.ok input, after), later) ∧
      Balanced (completed input) [] session script after later ∧
      (completed input = false → session.style = {} → after = session) := by
  obtain ⟨prompt, taken, htake, hink, hsame, htaken⟩ := sit_takePrompt session hsucceeds
  have hprompted := succeeds_add (htaken true).succeeds (.prompted prompt)
  have hprompt : sit (perform (console.setPrompt prompt)) { session with pending := "" } taken
      = ((.ok (), { session with pending := "" }), taken.add (.prompted prompt)) :=
    sit_perform (take_eq (htaken true).succeeds _ _)
  obtain ⟨filled, hfill, hfilled⟩ := sit_setBuffer { session with pending := "" } initial hprompted
  obtain ⟨event, heard, hwait, hheard⟩ :=
    sit_awaitLine { session with pending := "" } (limit? timeout) hfilled.succeeds
  have hquiet := hfilled.trans hheard
  have hcompleted : Balanced true [] session script { session with pending := "" } heard :=
    ((htaken true).trans (.acted hprompted rfl (hink.trans (List.append_nil _).symm))).trans
      (hquiet true _)
  have hpending : Balanced false [] session script { session with pending := prompt } heard :=
    ((htaken false).trans (.acted hprompted rfl rfl)).trans (hquiet false _)
  rw [awaitLine, sit_bind_of_ok htake, sit_bind_of_ok hprompt, sit_bind_of_ok hfill,
    sit_bind_of_ok hwait]
  have hcancelled := succeeds_add hquiet.succeeds (.took .cancelLine)
  have hcancel (middle : Session) : sit (perform console.cancelLine) middle heard
      = ((.ok (), middle), heard.add (.took .cancelLine)) :=
    sit_perform (take_eq hquiet.succeeds _ _)
  have hcancelling : Quiet heard (heard.add (.took .cancelLine)) :=
    quiet_of_act hcancelled rfl fun _ => rfl
  cases event with
  | entered text =>
      by_cases hempty : text.isEmpty = true
      · refine ⟨.done text 13, _, heard, ?_, hcompleted, fun h => nomatch h⟩
        dsimp only
        rw [if_neg (by rw [hempty]; decide)]
        rfl
      · have hremembered := succeeds_add hquiet.succeeds (.remembered text)
        refine ⟨.done text 13, _, heard.add (.remembered text), ?_,
          hcompleted.trans (quiet_of_act hremembered rfl (fun _ => rfl) true _), fun h => nomatch h⟩
        dsimp only
        rw [if_pos (by simpa using hempty)]
        rfl
  | timedOut =>
      refine ⟨.timedOut heard.buffer, { session with pending := prompt }, _, ?_,
        hpending.trans (hcancelling false _), fun _ hplain => ?_⟩
      · dsimp only
        rw [sit_bind_of_ok (sit_quietly console.buffer)]
        exact (sit_bind_of_ok (hcancel _)).trans rfl
      · rw [hsame hplain]
  | interrupted =>
      refine ⟨noLine, _, { heard.add (.took .cancelLine) with stopped := true },
        (sit_bind_of_ok (hcancel _)).trans rfl,
        hcompleted.trans ((hcancelling.trans (quiet_stop hcancelled)) true _), fun h => nomatch h⟩
  | closed =>
      exact ⟨noLine, _, { heard with stopped := true }, rfl,
        hcompleted.trans (quiet_stop hquiet.succeeds true _), fun h => nomatch h⟩

/-- **Reading a line is balanced**, whether it is completed or not. -/
theorem readLine_balanced (session : Session) (initial : String) (timeout : Word)
    (hsucceeds : Succeeds script) :
    ∃ input after later,
      on (readLine console initial timeout) session script = ((input, after), later) ∧
      Balanced (completed input) [] session script after later ∧
      (completed input = false → session.style = {} → after = session) := by
  obtain ⟨input, after, later, hawait, hrest⟩ :=
    awaitLine_balanced session initial timeout hsucceeds
  exact ⟨input, after, later, (on_bind_of hawait).trans rfl, hrest⟩

end Session

/-! ## Calls of the host -/

open Session

/-- The calls that print, that wait for the player, and that text has to be written for. -/
inductive Call where
  | print (text : String)
  | setStyle (bits : Word)
  | setColour (foreground background window : Word)
  | setWindow (window : Word)
  | showStatus (status : StatusLine)
  | readChar (timeout : Word)
  | readLine (initial : String) (maxLength : Nat) (timeout : Word) (terminators : List Word)

/-- What a call gives. -/
inductive Answer where
  | nothing
  | char (input : CharInput)
  | line (input : LineInput)

/-- Makes a call. -/
def Call.make {m : Type → Type} [Monad m] (host : Host m) : Call → m Answer
  | print text => do
    host.print text
    return .nothing
  | setStyle bits => do
    host.setStyle bits
    return .nothing
  | setColour foreground background window => do
    host.setColour foreground background window
    return .nothing
  | setWindow window => do
    host.setWindow window
    return .nothing
  | showStatus status => do
    host.showStatus status
    return .nothing
  | readChar timeout => return .char (← host.readChar timeout)
  | readLine initial maxLength timeout terminators =>
    return .line (← host.readLine initial maxLength timeout terminators)

/-- A call that has been made: its answer, the session before and after it, and what was done at the
console for it, the oldest first. -/
structure Turn where
  call : Call
  answer : Answer
  before : Session
  after : Session
  acts : List Act

/-- What has been done at a console since its script was another, the oldest first. -/
def Script.since (script later : Script) : List Act :=
  (later.acts.take (later.acts.length - script.acts.length)).reverse

/-- Makes calls one after the other, of the host of a session at a scripted console. -/
def played : List Call → Session → Script → List Turn × Session × Script
  | [], session, script => ([], session, script)
  | call :: calls, session, script =>
    let ((answer, middle), between) :=
      Session.on (call.make (Session.host Script.console)) session script
    let (turns, after, later) := played calls middle between
    (⟨call, answer, session, middle, script.since between⟩ :: turns, after, later)

/-- Whether a line was read to its end. -/
def Answer.completed : Answer → Bool
  | .line input => Session.completed input
  | _ => false

/-- The text that a call prints. -/
def Call.printed (session : Session) : Call → List (Style × Char)
  | .print text => session.printed text
  | _ => []

/-- The text that a turn prints. -/
def Turn.printed (turn : Turn) : List (Style × Char) :=
  turn.call.printed turn.before

/-- The text that is written in a turn, or handed over as the prompt of a line read to its end. -/
def Turn.shown (turn : Turn) : List (Style × Char) :=
  turn.acts.flatMap (Act.shown turn.answer.completed)

/-- **One call is balanced.** -/
theorem Call.balanced (call : Call) (session : Session) (hsucceeds : Succeeds script) :
    ∃ answer after later,
      on (call.make (host Script.console)) session script = ((answer, after), later) ∧
      Balanced answer.completed (call.printed session) session script after later ∧
      (∀ typed, answer = .line (.timedOut typed) → session.style = {} → after = session) := by
  cases call with
  | print text =>
      obtain ⟨after, later, hon, hbalanced⟩ := print_balanced session text hsucceeds
      exact ⟨.nothing, after, later, (on_bind_of hon).trans rfl, hbalanced false, nofun⟩
  | setStyle bits =>
      obtain ⟨after, later, hon, hbalanced⟩ :=
        restyle_balanced session (withStyle bits) (fun _ => rfl) hsucceeds
      exact ⟨.nothing, after, later, (on_bind_of hon).trans rfl, hbalanced false, nofun⟩
  | setColour foreground background window =>
      obtain ⟨after, later, hon, hbalanced⟩ :=
        restyle_balanced session (withColours foreground background) (fun _ => rfl) hsucceeds
      exact ⟨.nothing, after, later, (on_bind_of hon).trans rfl, hbalanced false, nofun⟩
  | setWindow window =>
      obtain ⟨after, later, hon, hbalanced⟩ :=
        restyle_balanced session (fun session => { session with window }) (fun _ => rfl) hsucceeds
      exact ⟨.nothing, after, later, (on_bind_of hon).trans rfl, hbalanced false, nofun⟩
  | showStatus status =>
      obtain ⟨after, later, hon, hbalanced⟩ := showStatus_balanced session status hsucceeds
      exact ⟨.nothing, after, later, (on_bind_of hon).trans rfl, hbalanced false, nofun⟩
  | readChar timeout =>
      obtain ⟨input, after, later, hon, hbalanced⟩ := readChar_balanced session timeout hsucceeds
      exact ⟨.char input, after, later, (on_bind_of hon).trans rfl, hbalanced false, nofun⟩
  | readLine initial maxLength timeout terminators =>
      obtain ⟨input, after, later, hon, hbalanced, hsame⟩ :=
        readLine_balanced session initial timeout hsucceeds
      refine ⟨.line input, after, later, (on_bind_of hon).trans rfl, hbalanced, ?_⟩
      intro typed hinput
      obtain rfl := Answer.line.inj hinput
      exact hsame rfl

/-- What has been done since is what was put on top. -/
theorem since_eq {acts : List Act} (hacts : later.acts = acts.reverse ++ script.acts) :
    script.since later = acts := by
  rw [Script.since, hacts, List.length_append, Nat.add_sub_cancel, List.take_left,
    List.reverse_reverse]

/-- Calls are played one after another. -/
theorem played_cons {call : Call} {answer : Answer} (calls : List Call)
    (h : Session.on (call.make (Session.host Script.console)) session script
      = ((answer, middle), between)) :
    played (call :: calls) session script
      = (⟨call, answer, session, middle, script.since between⟩ :: (played calls middle between).1,
          (played calls middle between).2) := by
  rw [played, h]

/-- **Text is shown once, in its order and in its style.**  Calls are made of a host whose terminal
does not fail.  What was pending and what is printed for the one window there is, each character in
the style of the session at that time, come to the same as what is written as text and handed over as
the prompts of lines read to their end, each character in the style that it is painted in, and what is
still pending, in the style of the session then.  The acts of the turns are those that are done.  And
a line read that runs out of time leaves the session as it was, as long as no style is set and no
colour. -/
theorem text_shown_once (calls : List Call) (session : Session) (script : Script)
    (hsucceeds : Succeeds script) :
    inked session.style session.pending ++ (played calls session script).1.flatMap Turn.printed
        = (played calls session script).1.flatMap Turn.shown
          ++ inked (played calls session script).2.1.style (played calls session script).2.1.pending ∧
      (played calls session script).2.2.acts
        = ((played calls session script).1.flatMap Turn.acts).reverse ++ script.acts ∧
      ∀ turn ∈ (played calls session script).1, ∀ typed, turn.answer = .line (.timedOut typed) →
        turn.before.style = {} → turn.after = turn.before := by
  induction calls generalizing session script with
  | nil => exact ⟨List.append_nil _, rfl, fun _ h => nomatch h⟩
  | cons call calls ih =>
      obtain ⟨answer, middle, between, hmake, hbalanced, hsame⟩ := call.balanced session hsucceeds
      obtain ⟨hsucceeds, acts, hacts, hbalance⟩ := hbalanced
      obtain ⟨htext, hdone, hkept⟩ := ih middle between hsucceeds
      rw [played_cons calls hmake, since_eq hacts]
      refine ⟨?_, ?_, ?_⟩
      · calc inked session.style session.pending ++ (call.printed session
              ++ (played calls middle between).1.flatMap Turn.printed)
            = acts.flatMap (Act.shown answer.completed) ++ (inked middle.style middle.pending
                ++ (played calls middle between).1.flatMap Turn.printed) := by
              rw [← List.append_assoc, hbalance, List.append_assoc]
          _ = (acts.flatMap (Act.shown answer.completed)
                ++ (played calls middle between).1.flatMap Turn.shown)
              ++ inked (played calls middle between).2.1.style
                (played calls middle between).2.1.pending := by
              rw [htext, List.append_assoc]
      · rw [hdone, hacts, List.flatMap_cons, List.reverse_append, List.append_assoc]
      · intro turn hturn
        cases List.mem_cons.mp hturn with
        | inl hfirst =>
            rw [hfirst]
            exact hsame
        | inr hlater => exact hkept turn hlater

/-- Somebody who begins to type and is late, and then goes on. -/
def latecomer : Script :=
  { lines := [.typed "n", .entered "n"] }

/-- A line, a prompt that runs out of time before it is answered, and text in bold behind it. -/
def dialogue : List Call :=
  [.print "Hall\n>", .readLine "" 80 10 [], .readLine "n" 80 0 [], .setStyle 2, .print "Dark."]

/-- What comes of it. -/
def conversation : List Turn × Session × Script :=
  played dialogue { storyName := "hall", saveDirectory := "." } latecomer

/-- The prompt is handed over twice, and counts once.  The text in bold is still pending. -/
theorem text_shown_once_latecomer : Succeeds latecomer ∧
    conversation.1.flatMap Turn.shown = inked {} "Hall\n>" ∧
    conversation.2.2.acts.count (.prompted ">") = 2 := by
  have hsucceeds : Succeeds latecomer := ⟨rfl, rfl, by decide, nofun⟩
  obtain ⟨htext, -, -⟩ :=
    text_shown_once dialogue { storyName := "hall", saveDirectory := "." } latecomer hsucceeds
  have hprinted : conversation.1.flatMap Turn.printed
      = inked {} "Hall\n>" ++ inked { bold := true } "Dark." := by
    decide +kernel
  have hpending : inked conversation.2.1.style conversation.2.1.pending
      = inked { bold := true } "Dark." := by
    decide +kernel
  refine ⟨hsucceeds, ?_, by decide +kernel⟩
  have hall : inked {} "Hall\n>" ++ inked { bold := true } "Dark."
      = conversation.1.flatMap Turn.shown ++ inked { bold := true } "Dark." := by
    rw [← hprinted, ← hpending]
    exact htext
  exact (List.append_cancel_right hall).symm

end StoryMachine.Terminal
