import Mathlib.Data.List.Infix
import StoryMachine.Proofs.LineBreaking
import StoryMachine.Proofs.Restoring

/-!
# Printing back what was broken into lines

A table with a width is a row of records that ends with one of length zero, and that is what a form
is: it is printed record by record, with a new line behind each, up to the first of length zero
(`play_printRecords`).  So the form of some lines (`form`) ends in front of the first line without
codes.

**A line without codes** comes from a new line when nothing waits.  Nothing waits after a new line,
and nothing waits after a blank that did not fit any more, because it has been left out
(`LineTable.waiting_take_eq_nil_iff`).  A text without blank lines has no two new lines together, but
it may have a new line behind such a blank (`LineTable.Strands`); the text after that is stranded
behind an empty record.  By induction on the text, the form has the visible codes up to the first
place of that kind, and all of them if there is none (`LineTable.exists_front`).
-/

namespace StoryMachine

open Memory

namespace Memory

/-- Bytes that stand in memory are the slice there. -/
theorem Holds.slice_eq {memory : Memory} {address : Nat} {bytes : List UInt8}
    (h : memory.Holds address bytes) (haddress : address ≤ memory.size) :
    memory.slice address bytes.length = .ok bytes := by
  have hend := h.end_le haddress
  rw [slice, if_pos hend]
  unfold size at hend
  refine congrArg Except.ok (List.ext_getElem ?_ fun i hi hi' => ?_)
  · rw [Array.length_toList, Array.size_extract]
    omega
  · obtain ⟨hlt, hbyte⟩ := h.byteAt_eq hi'
    unfold size at hlt
    rw [Array.getElem_toList, Array.getElem_extract, ← hbyte, byteAt, Array.getD, dif_pos hlt]
    rfl

end Memory

/-! ## What is read back -/

/-- The code that is read back where a code was stored. -/
def stored (code : Word) : Word :=
  (MemoryStream.byteOf code).toUInt16

/-- The codes that are seen: all but blanks and new lines. -/
def visible (codes : List Word) : List Word :=
  codes.filter fun code => code ≠ 32 ∧ code ≠ 13

/-- A text that does not begin with a new line and has no two of them together. -/
def NoBlankLine (text : List Word) : Prop :=
  text.head? ≠ some 13 ∧ ¬[13, 13] <:+: text

instance (text : List Word) : Decidable (NoBlankLine text) :=
  inferInstanceAs (Decidable (_ ∧ _))

/-- Lines that all have codes. -/
def Solid (lines : List TextLine) : Prop :=
  ∀ line ∈ lines, line.codes ≠ []

/-- What is printed for lines: each up to the first without codes, and a new line behind it. -/
def form : List TextLine → List (List Word)
  | [] => []
  | line :: later => if line.codes = [] then [] else line.codes.map stored :: [13] :: form later

variable {lines : List TextLine} {code : Word}

/-- Only question marks stand for other codes. -/
theorem stored_eq_iff {value : Word} (hle : value ≤ 255) (hne : value ≠ 63) :
    stored code = value ↔ code = value := by
  unfold stored MemoryStream.byteOf
  by_cases hlong : 255 < code
  · rw [if_pos hlong]
    constructor
    · intro h
      exact absurd h.symm hne
    · rintro rfl
      exact absurd hle (UInt16.not_le.mpr hlong)
  · rw [if_neg hlong]
    have hsmall := UInt16.le_iff_toNat_le.mp (UInt16.not_lt.mp hlong)
    have hback : code.toUInt8.toUInt16 = code := by
      refine UInt16.toNat.inj ?_
      rw [UInt8.toNat_toUInt16, UInt16.toNat_toUInt8]
      exact Nat.mod_eq_of_lt (Nat.lt_succ_of_le hsmall)
    rw [hback]

/-- What is seen of codes one after the other is seen of each. -/
theorem visible_append (codes others : List Word) :
    visible (codes ++ others) = visible codes ++ visible others := List.filter_append ..

/-- Storing a code does not change whether it is seen. -/
theorem visible_map_stored (codes : List Word) :
    visible (codes.map stored) = (visible codes).map stored := by
  unfold visible
  rw [List.filter_map]
  refine congrArg (List.map stored) (List.filter_congr fun code _ => decide_eq_decide.mpr ?_)
  have hblank : stored code = 32 ↔ code = 32 := stored_eq_iff (by decide) (by decide)
  have hnew : stored code = 13 ↔ code = 13 := stored_eq_iff (by decide) (by decide)
  exact and_congr (not_congr hblank) (not_congr hnew)

/-- What is left out behind a line is not seen. -/
theorem visible_printed (line : TextLine) : visible line.printed = visible line.codes := by
  rw [TextLine.printed, visible_append]
  cases line.gap <;> exact List.append_nil _

/-! ## What the form of some lines has -/

/-- A line with codes is printed, and a new line behind it. -/
theorem form_cons_of_ne {line : TextLine} (h : line.codes ≠ []) (later : List TextLine) :
    form (line :: later) = line.codes.map stored :: [13] :: form later := if_neg h

/-- A line without codes ends the form. -/
theorem form_cons_of_eq {line : TextLine} (h : line.codes = []) (later : List TextLine) :
    form (line :: later) = [] := if_pos h

/-- A form ends in front of a line without codes. -/
theorem form_append_of_eq {line : TextLine} (h : line.codes = []) (lines later : List TextLine) :
    form (lines ++ line :: later) = form lines := by
  induction lines with
  | nil => exact form_cons_of_eq h later
  | cons first rest ih =>
      rw [List.cons_append]
      by_cases hfirst : first.codes = []
      · rw [form_cons_of_eq hfirst, form_cons_of_eq hfirst]
      · rw [form_cons_of_ne hfirst, form_cons_of_ne hfirst, ih]

/-- What is seen of a form begins with what is seen of its first line. -/
theorem visible_flatten_cons (codes : List Word) (rest : List (List Word)) :
    visible (codes.map stored :: [13] :: rest).flatten
      = (visible codes).map stored ++ visible rest.flatten := by
  rw [List.flatten_cons, visible_append, visible_map_stored, List.flatten_cons, visible_append]
  rfl

/-- What is seen of lines begins with what is seen of the first. -/
theorem visible_flatMap_cons (line : TextLine) (later : List TextLine) :
    visible ((line :: later).flatMap TextLine.printed)
      = visible line.codes ++ visible (later.flatMap TextLine.printed) := by
  rw [List.flatMap_cons, visible_append, visible_printed]

/-- A form shows what was printed for its lines, from the beginning on. -/
theorem visible_form_prefix (lines : List TextLine) :
    visible (form lines).flatten <+: (visible (lines.flatMap TextLine.printed)).map stored := by
  induction lines with
  | nil => exact List.prefix_refl _
  | cons line later ih =>
      by_cases hline : line.codes = []
      · rw [form_cons_of_eq hline]
        exact List.nil_prefix
      · rw [form_cons_of_ne hline, visible_flatten_cons, visible_flatMap_cons, List.map_append]
        exact List.prefix_append_right_inj _ |>.mpr ih

/-- If all its lines have codes, it shows all of it. -/
theorem visible_form_of_solid (h : Solid lines) :
    visible (form lines).flatten = (visible (lines.flatMap TextLine.printed)).map stored := by
  induction lines with
  | nil => rfl
  | cons line later ih =>
      obtain ⟨hline, hlater⟩ := List.forall_mem_cons.mp h
      rw [form_cons_of_ne hline, visible_flatten_cons, visible_flatMap_cons, List.map_append,
        ih hlater]

/-- Then it has the new lines too, among others. -/
theorem sublist_form_of_solid (h : Solid lines) :
    List.Sublist (((lines.flatMap TextLine.printed).filter (· ≠ 32)).map stored)
      (form lines).flatten := by
  induction lines with
  | nil => exact List.Sublist.refl _
  | cons line later ih =>
      obtain ⟨hline, hlater⟩ := List.forall_mem_cons.mp h
      have hgap : List.Sublist ((line.gap.codes.filter (· ≠ 32)).map stored) [13] := by
        cases line.gap <;> decide
      rw [form_cons_of_ne hline, List.flatMap_cons, TextLine.printed, List.filter_append,
        List.filter_append, List.map_append, List.map_append, List.append_assoc,
        List.flatten_cons, List.flatten_cons]
      exact (List.filter_sublist.map stored).append (hgap.append (ih hlater))

namespace LineTable

variable {table : LineTable}

/-! ## Lines without codes -/

/-- A blank at the end is the last blank. -/
theorem lastBlank?_append_blank (codes : List Word) :
    MemoryStream.lastBlank? (codes ++ [32]) = some codes.length := by
  unfold MemoryStream.lastBlank?
  rw [List.reverse_append, List.length_append]
  rfl

/-- A blank behind a full line is left out. -/
theorem take_blank_of_full (hwidth : 1 ≤ table.width) (hfull : table.waiting.length = table.width) :
    table.take 32 = table.emit ⟨table.waiting, .blank⟩ [] := by
  have hlong : table.width < (table.waiting ++ [32]).length := by
    rw [List.length_append, hfull]
    exact Nat.lt_succ_self _
  have hplace : MemoryStream.breakPlace table.width (table.waiting ++ [32]) = table.waiting.length := by
    rw [MemoryStream.breakPlace, lastBlank?_append_blank]
    exact if_pos (by omega)
  rw [take, if_neg (by decide)]
  dsimp only
  rw [if_pos hlong, hplace, List.take_left, List.drop_left]
  rfl

/-- A code ends the line, or it waits, or the line is full and is broken in front of the code. -/
theorem take_cases (h : Broken table) (hwidth : 1 ≤ table.width) (code : Word) :
    (code = 13 ∧ table.take code = table.emit ⟨table.waiting, .newLine⟩ []) ∨
      (code ≠ 13 ∧ table.waiting.length < table.width ∧
        table.take code = { table with waiting := table.waiting ++ [code] }) ∨
      (code ≠ 13 ∧ table.waiting.length = table.width ∧ ∃ place, 1 ≤ place ∧
        table.take code = table.emit
          ⟨table.waiting.take place, gapBefore (table.waiting.drop place ++ [code])⟩
          (MemoryStream.dropBlank (table.waiting.drop place ++ [code]))) := by
  by_cases hnew : code = 13
  · exact .inl ⟨hnew, if_pos hnew⟩
  right
  have hwaiting := h.waiting_le
  have hlength : (table.waiting ++ [code]).length = table.waiting.length + 1 := List.length_append
  have htake : table.take code = if table.width < (table.waiting ++ [code]).length then _ else _ :=
    if_neg hnew
  by_cases hroom : table.waiting.length < table.width
  · exact .inl ⟨hnew, hroom, htake.trans (if_neg (by omega))⟩
  · have hover : (table.waiting ++ [code]).length = table.width + 1 := by omega
    obtain ⟨hpos, hle, -⟩ := breakPlace_spec hwidth hover
    rw [if_pos (by omega)] at htake
    generalize MemoryStream.breakPlace table.width (table.waiting ++ [code]) = place at *
    have hinside : place ≤ table.waiting.length := by omega
    dsimp only at htake
    rw [List.take_append_of_le_length hinside, List.drop_append_of_le_length hinside] at htake
    exact .inr ⟨hnew, by omega, place, hpos, htake⟩

/-- A code that is no blank waits behind all the rest. -/
theorem dropBlank_append_ne_nil (codes : List Word) (h : code ≠ 32) :
    MemoryStream.dropBlank (codes ++ [code]) ≠ [] := by
  cases codes with
  | nil =>
      rw [List.nil_append, MemoryStream.dropBlank, if_neg h]
      exact List.cons_ne_nil _ _
  | cons first rest =>
      rw [List.cons_append, MemoryStream.dropBlank]
      split
      · exact List.append_ne_nil_of_right_ne_nil _ (List.cons_ne_nil _ _)
      · exact List.cons_ne_nil _ _

/-- **What waits is gone** after a new line, and after a blank behind a full line. -/
theorem waiting_take_eq_nil_iff (h : Broken table) (hwidth : 1 ≤ table.width) :
    (table.take code).waiting = [] ↔
      code = 13 ∨ (code = 32 ∧ table.waiting.length = table.width) := by
  rcases take_cases h hwidth code with
    ⟨hnew, htake⟩ | ⟨hnew, hroom, htake⟩ | ⟨hnew, hfull, place, -, htake⟩
  · rw [htake]
    exact ⟨fun _ => .inl hnew, fun _ => rfl⟩
  · rw [htake]
    refine ⟨fun hnil => ?_, fun hor => ?_⟩
    · exact absurd hnil (List.append_ne_nil_of_right_ne_nil _ (List.cons_ne_nil code []))
    · exact absurd hor (not_or.mpr ⟨hnew, fun hand => Nat.ne_of_lt hroom hand.2⟩)
  · by_cases hblank : code = 32
    · subst hblank
      rw [take_blank_of_full hwidth hfull]
      exact ⟨fun _ => .inr ⟨rfl, hfull⟩, fun _ => rfl⟩
    · rw [htake]
      exact ⟨fun hnil => absurd hnil (dropBlank_append_ne_nil _ hblank),
        fun hor => absurd hor (not_or.mpr ⟨hnew, fun hand => hblank hand.1⟩)⟩

/-- Lines that all have codes still do with one more that has. -/
theorem solid_emit (h : Solid table.lines) {line : TextLine} (hline : line.codes ≠ [])
    (waiting : List Word) : Solid (table.emit line waiting).lines := by
  intro other hother
  rcases List.mem_append.mp hother with hother | hother
  · exact h other hother
  · obtain rfl := List.mem_singleton.mp hother
    exact hline

/-- **One code** more, and each line has codes, unless it is a new line when nothing waits. -/
theorem solid_take (h : Solid table.lines) (hbroken : Broken table) (hwidth : 1 ≤ table.width)
    (hcode : code = 13 → table.waiting ≠ []) : Solid (table.take code).lines := by
  rcases take_cases hbroken hwidth code with
    ⟨hnew, htake⟩ | ⟨-, -, htake⟩ | ⟨-, hfull, place, hpos, htake⟩
  · rw [htake]
    exact solid_emit h (hcode hnew) []
  · rw [htake]
    exact h
  · rw [htake]
    refine solid_emit h (List.ne_nil_of_length_pos ?_) _
    rw [List.length_take]
    omega

/-! ## Where text is stranded -/

/-- A place in a text where a blank behind a full line is left out, and then comes a new line. -/
def Strands (table : LineTable) (text before after : List Word) : Prop :=
  text = before ++ 32 :: 13 :: after ∧ (table.takeAll before).waiting.length = table.width

/-- A place that strands a line is one in a longer text. -/
theorem Strands.cons {text before after : List Word}
    (h : (table.take code).Strands text before after) :
    table.Strands (code :: text) (code :: before) after :=
  ⟨congrArg (code :: ·) h.1, h.2.trans (place_take table code).2⟩

/-- **A text without blank lines** gives lines that all have codes, at least up to a place where it
is stranded.  This is by induction on the text: when nothing waits, the next code is no new line. -/
theorem exists_front {text : List Word} (hsolid : Solid table.lines) (hbroken : Broken table)
    (hwidth : 1 ≤ table.width) (hhead : table.waiting = [] → text.head? ≠ some 13)
    (htwo : ¬[13, 13] <:+: text) :
    Solid (table.takeAll text).lines ∨
      ∃ before after, table.Strands text before after ∧ Solid (table.takeAll before).lines := by
  induction text generalizing table with
  | nil => exact .inl hsolid
  | cons code rest ih =>
      by_cases hhere : table.Strands (code :: rest) [] rest.tail
      · exact .inr ⟨[], rest.tail, hhere, hsolid⟩
      have htake : Solid (table.take code).lines :=
        solid_take hsolid hbroken hwidth fun hnew hnil =>
          hhead hnil (congrArg some hnew)
      have hnext : (table.take code).waiting = [] → rest.head? ≠ some 13 := by
        intro hnil hnew
        obtain ⟨later, rfl⟩ := List.head?_eq_some_iff.mp hnew
        rcases (waiting_take_eq_nil_iff hbroken hwidth).mp hnil with rfl | ⟨rfl, hfull⟩
        · exact htwo ⟨[], later, rfl⟩
        · exact hhere ⟨rfl, hfull⟩
      rcases ih htake (hbroken.take hwidth code) ((place_take table code).2 ▸ hwidth) hnext
          fun hpair => htwo (hpair.trans (List.suffix_cons code rest).isInfix) with
        hall | ⟨before, after, hstrands, hfront⟩
      · exact .inl hall
      · exact .inr ⟨code :: before, after, hstrands.cons, hfront⟩

/-- Taking a code leaves the lines that are written. -/
theorem lines_prefix_take (table : LineTable) (code : Word) :
    table.lines <+: (table.take code).lines := by
  unfold take
  split
  · exact List.prefix_append _ _
  · dsimp only
    split
    · exact List.prefix_append _ _
    · exact List.prefix_refl _

/-- Taking codes leaves the lines that are written. -/
theorem lines_prefix_takeAll (table : LineTable) (codes : List Word) :
    table.lines <+: (table.takeAll codes).lines := by
  induction codes generalizing table with
  | nil => exact List.prefix_refl _
  | cons code rest ih => exact (lines_prefix_take table code).trans (ih (table.take code))

/-- Closing leaves the lines that are written. -/
theorem lines_prefix_finish (table : LineTable) : table.lines <+: table.finish.lines := by
  unfold finish
  split
  · exact List.prefix_refl _
  · exact List.prefix_append _ _

/-- Where text is stranded, a line without codes comes behind the full one. -/
theorem Strands.lines_eq {text before after : List Word} (h : table.Strands text before after)
    (hwidth : 1 ≤ table.width) :
    ∃ later, (table.takeAll text).finish.lines
      = (table.takeAll before).lines ++ [⟨(table.takeAll before).waiting, .blank⟩]
        ++ ⟨[], .newLine⟩ :: later := by
  obtain ⟨htext, hfull⟩ := h
  have hplace := (place_takeAll table before).2
  have hall : table.takeAll text = (((table.takeAll before).take 32).take 13).takeAll after := by
    rw [htext]
    exact List.foldl_append
  rw [hall, take_blank_of_full (hplace ▸ hwidth) (hfull.trans hplace.symm)]
  obtain ⟨later, hlater⟩ := (lines_prefix_takeAll _ after).trans (lines_prefix_finish _)
  exact ⟨later, by rw [← hlater]; exact List.append_assoc ..⟩

/-- What is visible of the lines up to there was printed before. -/
theorem visible_flatMap_append_waiting (table : LineTable) :
    visible ((table.lines ++ [(⟨table.waiting, .blank⟩ : TextLine)]).flatMap TextLine.printed)
      = visible table.printed := by
  rw [List.flatMap_append, List.flatMap_singleton, visible_append, visible_printed, printed,
    visible_append]

/-- Where text is stranded, the form shows nothing that comes later. -/
theorem Strands.form_prefix {text before after : List Word} (h : table.Strands text before after)
    (hwidth : 1 ≤ table.width) :
    visible (form (table.takeAll text).finish.lines).flatten
      <+: (visible (table.takeAll before).printed).map stored := by
  obtain ⟨later, hlines⟩ := h.lines_eq hwidth
  rw [hlines, form_append_of_eq rfl, ← visible_flatMap_append_waiting]
  exact visible_form_prefix _

/-- If all lines before have codes, it shows all that comes before. -/
theorem Strands.form_eq {text before after : List Word} (h : table.Strands text before after)
    (hwidth : 1 ≤ table.width) (hsolid : Solid (table.takeAll before).lines) :
    visible (form (table.takeAll text).finish.lines).flatten
      = (visible (table.takeAll before).printed).map stored := by
  obtain ⟨later, hlines⟩ := h.lines_eq hwidth
  rw [hlines, form_append_of_eq rfl, ← visible_flatMap_append_waiting]
  have hwaiting : (table.takeAll before).waiting ≠ [] := by
    refine List.ne_nil_of_length_pos ?_
    rw [h.2]
    exact hwidth
  exact visible_form_of_solid (solid_emit hsolid hwaiting [])

/-- Lines that all have codes still do when the table is closed. -/
theorem solid_finish (h : Solid table.lines) : Solid table.finish.lines := by
  unfold finish
  cases hwaiting : table.waiting with
  | nil => exact h
  | cons code rest => exact solid_emit h (List.cons_ne_nil code rest) []

/-- What is seen of a stranded text is what is seen on both sides of the place. -/
theorem Strands.visible_eq {text before after : List Word} (h : table.Strands text before after) :
    visible text = visible before ++ visible after := by
  rw [h.1, visible_append]
  rfl

section Text

variable {address width : Nat} {text before after : List Word}

/-- No more of a text is shown than comes before a place where it is stranded. -/
theorem Strands.form_layOut_prefix (hwidth : 1 ≤ width)
    (h : ({ address, width } : LineTable).Strands text before after) :
    visible (form (layOut address width text).lines).flatten <+: (visible before).map stored := by
  have hprefix := h.form_prefix hwidth
  rw [printed_takeAll] at hprefix
  exact hprefix

/-- **A text is laid out solid or stranded.** -/
theorem solid_or_strands (address : Nat) (hwidth : 1 ≤ width) (htext : NoBlankLine text) :
    Solid (layOut address width text).lines ∨
      ∃ before after, ({ address, width } : LineTable).Strands text before after ∧
        visible (form (layOut address width text).lines).flatten
          = (visible before).map stored := by
  have hfront := @exists_front { address, width } text (List.forall_mem_nil _)
    (broken_start address width) hwidth (fun _ => htext.1) htext.2
  refine hfront.imp solid_finish ?_
  rintro ⟨before, after, hstrands, hsolid⟩
  have hform := hstrands.form_eq hwidth hsolid
  rw [printed_takeAll] at hform
  exact ⟨before, after, hstrands, hform⟩

/-- A text of lines that all have codes is shown. -/
theorem visible_form_layOut_of_solid (h : Solid (layOut address width text).lines) :
    visible (form (layOut address width text).lines).flatten = (visible text).map stored := by
  rw [visible_form_of_solid h, flatMap_printed_layOut]

/-- What is seen of a form is the beginning of what is seen of the text. -/
theorem visible_form_layOut_prefix (address : Nat) (hwidth : 1 ≤ width) (htext : NoBlankLine text) :
    visible (form (layOut address width text).lines).flatten <+: (visible text).map stored := by
  rcases solid_or_strands address hwidth htext with hsolid | ⟨before, after, hstrands, hform⟩
  · rw [visible_form_layOut_of_solid hsolid]
  · rw [hform, hstrands.visible_eq, List.map_append]
    exact List.prefix_append _ _

/-- **All of a text is shown** exactly if nothing visible of it is stranded. -/
theorem visible_form_layOut_iff (address : Nat) (hwidth : 1 ≤ width) (htext : NoBlankLine text) :
    visible (form (layOut address width text).lines).flatten = (visible text).map stored ↔
      ∀ before after, ({ address, width } : LineTable).Strands text before after →
        visible after = [] := by
  constructor
  · intro hall before after hstrands
    have hle := (hstrands.form_layOut_prefix hwidth).length_le
    rw [hall, hstrands.visible_eq, List.length_map, List.length_map, List.length_append] at hle
    exact List.eq_nil_of_length_eq_zero (by omega)
  · intro hnone
    rcases solid_or_strands address hwidth htext with hsolid | ⟨before, after, hstrands, hform⟩
    · exact visible_form_layOut_of_solid hsolid
    · rw [hform, hstrands.visible_eq, hnone before after hstrands, List.append_nil]

/-- If there is no such place at all, each line has codes, and only then. -/
theorem solid_layOut_iff (address : Nat) (hwidth : 1 ≤ width) (htext : NoBlankLine text) :
    Solid (layOut address width text).lines ↔
      ∀ before after, ¬({ address, width } : LineTable).Strands text before after := by
  constructor
  · intro hsolid before after hstrands
    obtain ⟨later, hlines⟩ := hstrands.lines_eq hwidth
    refine hsolid ⟨[], .newLine⟩ ?_ rfl
    rw [layOut, hlines]
    exact List.mem_append_right _ List.mem_cons_self
  · intro hnone
    rcases solid_or_strands address hwidth htext with hsolid | ⟨before, after, hstrands, -⟩
    · exact hsolid
    · exact absurd hstrands (hnone before after)

/-- Then the new lines of the text are in the form too. -/
theorem sublist_form_layOut (h : Solid (layOut address width text).lines) :
    List.Sublist ((text.filter (· ≠ 32)).map stored)
      (form (layOut address width text).lines).flatten := by
  have hsublist := sublist_form_of_solid h
  rwa [flatMap_printed_layOut] at hsublist

end Text

end LineTable

/-! ## Printing a form -/

namespace Streams

open StreamWork

variable {W : Type} {host : Host (StateM W)}

/-- Whatever a transcript does, memory and the tables stay. -/
theorem on_writeTranscript_same (text : String) (desk : Desk) (w : W) :
    ∃ streams v, (writeTranscript text).on host desk w = ((.ok (), { desk with streams }), v) ∧
      streams.tables = desk.streams.tables := by
  unfold writeTranscript
  rw [on_bind_of_ok (on_get host desk w)]
  dsimp only
  cases desk.streams.transcript with
  | none => exact ⟨desk.streams, w, rfl, rfl⟩
  | some file =>
      cases desk.streams.transcriptOn with
      | false => exact ⟨desk.streams, w, rfl, rfl⟩
      | true =>
          simp only [if_true]
          rw [on_bind_of_ok (on_ask host desk w _)]
          cases (host.write file (Utf8.encode text) w).1 with
          | ok _ => exact ⟨desk.streams, _, rfl, rfl⟩
          | error _ => exact ⟨_, _, rfl, rfl⟩

/-- What is printed when no table is open does not go into memory. -/
theorem on_print_same (unicode : UnicodeTable) (codes : List Word) {desk : Desk}
    (hclosed : desk.streams.tables = []) (w : W) :
    ∃ streams v, (print unicode codes).on host desk w = ((.ok (), { desk with streams }), v) ∧
      streams.tables = [] := by
  unfold print
  rw [on_bind_of_ok (on_get host desk w), hclosed]
  dsimp only
  rw [on_bind_of_ok (on_get host desk w)]
  cases desk.streams.screen with
  | true =>
      simp only [if_true]
      rw [on_bind_of_ok (on_ask host desk w _)]
      exact hclosed ▸ on_writeTranscript_same (unicode.decode codes) desk _
  | false =>
      simp only [Bool.false_eq_true, if_false]
      exact hclosed ▸ on_writeTranscript_same (unicode.decode codes) desk w

end Streams

namespace Play

open Machine

variable {W : Type} {host : Host (StateM W)} {machine : Machine} {w : W} {address : Nat}
  {bytes : List UInt8}

/-- Prints pieces of text one after the other. -/
def printAll {m : Type → Type} [Monad m] : List (List Word) → Play m Unit
  | [] => pure ()
  | codes :: rest => do
    printCodes codes
    printAll rest

/-- That some bytes of memory stand where they do as long as pieces of text are printed. -/
def Spares (host : Host (StateM W)) (address : Nat) (bytes : List UInt8) :
    List (List Word) → Machine → W → Prop
  | [], machine, _ => machine.memory.Holds address bytes
  | codes :: rest, machine, w => machine.memory.Holds address bytes ∧
      ∀ after v, machine.play host (printCodes codes) w = ((.ok (), after), v) →
        Spares host address bytes rest after v

/-- Bytes that are spared stand in memory. -/
theorem Spares.holds {pieces : List (List Word)}
    (h : Spares host address bytes pieces machine w) : machine.memory.Holds address bytes := by
  cases pieces with
  | nil => exact h
  | cons codes rest => exact h.1

/-- Printing spares all of memory if no table is open. -/
theorem spares_of_nil (pieces : List (List Word)) (hheld : machine.memory.Holds address bytes)
    (hclosed : machine.streams.tables = []) (w : W) :
    Spares host address bytes pieces machine w := by
  induction pieces generalizing machine w with
  | nil => exact hheld
  | cons codes rest ih =>
      refine ⟨hheld, fun after v hprint => ?_⟩
      obtain ⟨streams, v', hon, hsame⟩ := @Streams.on_print_same W host machine.codec.unicode codes
        { memory := machine.memory, streams := machine.streams } hclosed w
      unfold printCodes at hprint
      rw [play_bind_of_ok (play_get machine host w), play_onStreams, hon] at hprint
      cases hprint
      exact @ih { machine with streams } hheld hsame v

/-- Bytes are printed as codes. -/
theorem play_printBytes (h : machine.memory.Holds address bytes)
    (haddress : address ≤ machine.memory.size) :
    machine.play host (printBytes address bytes.length) w
      = machine.play host (printCodes (bytes.map (·.toUInt16))) w := by
  unfold printBytes
  rw [play_bind_of_ok]
  rw [play_look, h.slice_eq haddress]

/-- A record of length zero ends a form. -/
theorem play_printRecords_zero (h : machine.memory.Holds address [0, 0]) (left : Nat) :
    machine.play host (printRecords (left + 1) address) w = ((.ok (), machine), w) := by
  have hread : machine.memory.readWord address = .ok 0 := readWord_eq_ok.mpr h
  rw [printRecords, play_bind_of_ok (by rw [play_look, hread])]
  rfl

/-- The codes of a line are printed, and a new line, and then what comes behind the record. -/
theorem play_printRecords_record {line : TextLine} (hline : line.codes ≠ [])
    (hshort : line.codes.length.toUInt16.toNat = line.codes.length)
    (h : machine.memory.Holds address line.record) (left : Nat) :
    machine.play host (printRecords (left + 1) address) w
      = machine.play host (do
        printCodes (line.codes.map stored)
        printCodes [13]
        printRecords left (address + line.record.length)) w := by
  obtain ⟨hword, hrest⟩ := holds_append.mp h
  have hbytes : machine.memory.Holds (address + 2) (line.codes.map MemoryStream.byteOf) := hrest
  have hread := readWord_eq_ok.mpr hword
  have hin := (holds_toBytes_iff.mp hword).1
  have hlength : (line.codes.map MemoryStream.byteOf).length = line.codes.length := List.length_map _
  have hpositive : line.codes.length ≠ 0 := fun hzero => hline (List.eq_nil_of_length_eq_zero hzero)
  rw [printRecords, play_bind_of_ok (by rw [play_look, hread])]
  dsimp only
  rw [hshort, if_pos hpositive, LineTable.length_record, ← Nat.add_assoc, play_bind, play_bind,
    ← hlength, play_printBytes hbytes hin, List.map_map]
  rfl

/-- **Records are printed as the form of their lines**, as long as printing spares them.  This is
by induction on the lines that are still to be printed; `front` are the records before them. -/
theorem play_printRecords {lines : List TextLine} {front : List UInt8} {left : Nat}
    (hleft : lines.length < left)
    (hshort : ∀ line ∈ lines, line.codes.length.toUInt16.toNat = line.codes.length)
    (h : Spares host address (front ++ (lines.flatMap TextLine.record ++ [0, 0])) (form lines)
      machine w) :
    machine.play host (printRecords left (address + front.length)) w
      = machine.play host (printAll (form lines)) w := by
  have hheld := (holds_append.mp h.holds).2
  obtain ⟨less, rfl⟩ : ∃ less, left = less + 1 :=
    Nat.exists_eq_succ_of_ne_zero (Nat.ne_zero_of_lt hleft)
  induction lines generalizing front less machine w with
  | nil => exact play_printRecords_zero hheld less
  | cons line later ih =>
      obtain ⟨hline, hlater⟩ := List.forall_mem_cons.mp hshort
      rw [List.flatMap_cons, List.append_assoc] at h hheld
      have hrecord := (holds_append.mp hheld).1
      by_cases hempty : line.codes = []
      · have hzero : line.record = [0, 0] := by
          rw [TextLine.record, hempty]
          rfl
        rw [form_cons_of_eq hempty]
        exact play_printRecords_zero (hzero ▸ hrecord) less
      · rw [form_cons_of_ne hempty] at h ⊢
        rw [play_printRecords_record hempty hline hrecord]
        refine play_bind_congr fun _ middle v hprint => play_bind_congr fun _ after v' hnew => ?_
        have hrest := (h.2 middle v hprint).2 after v' hnew
        rw [← List.append_assoc front] at hrest
        have hlength : later.length < less := Nat.lt_of_succ_lt_succ hleft
        obtain ⟨fewer, rfl⟩ : ∃ fewer, less = fewer + 1 :=
          Nat.exists_eq_succ_of_ne_zero (Nat.ne_zero_of_lt hlength)
        rw [Nat.add_assoc, ← List.length_append]
        exact ih hlater hrest (holds_append.mp hrest.holds).2 fewer hlength

/-- A record takes at least one byte. -/
theorem length_le_flatMap_record (lines : List TextLine) :
    lines.length ≤ (lines.flatMap TextLine.record).length := by
  induction lines with
  | nil => exact Nat.le_refl _
  | cons line later ih =>
      rw [List.length_cons, List.flatMap_cons, List.length_append, LineTable.length_record]
      omega

/-- **A table of lines is printed as their form.** -/
theorem play_printForm {table : Word} {lines : List TextLine}
    (hshort : ∀ line ∈ lines, line.codes.length.toUInt16.toNat = line.codes.length)
    (h : Spares host table.toNat (lines.flatMap TextLine.record ++ [0, 0]) (form lines)
      machine w) :
    machine.play host (printForm table) w = machine.play host (printAll (form lines)) w := by
  have hlength := length_le_flatMap_record lines
  have hend : table.toNat + (lines.flatMap TextLine.record).length < machine.memory.size :=
    (h.holds.byteAt_eq (by rw [List.length_append]; exact Nat.lt_add_of_pos_right Nat.two_pos)).1
  have hleft : lines.length < machine.memory.size - table.toNat := by omega
  rw [printForm, play_bind_of_ok (play_view machine host w _)]
  exact @play_printRecords W host machine w table.toNat lines [] _ hleft hshort h

/-- **Text that was broken into lines is printed back, unless it is stranded.**  Text without blank
lines is printed to a table with a width, piece by piece, and the table is closed.  When the form in
it is printed, what is seen is the visible text from the beginning on, each code as it was stored;
and it is all of it exactly if nothing visible is stranded behind a new line that follows a blank
behind a full line.  No record is empty, but for the last, exactly if there is no such place; then
the new lines are printed too.  The form may be printed to any streams that leave it as it is, and
they do if no table is open. -/
theorem text_printed_back_unless_stranded {table : Word} {width : Int} (hwidth : width ≠ 0)
    {desk : Desk} (hroom : desk.streams.tables.length < Streams.maxTables)
    {prints : List (List Word)}
    (hfit : (LineTable.layOut table.toNat width.natAbs prints.flatten).next + 2
      ≤ desk.memory.dynamicCeiling)
    (hblank : NoBlankLine prints.flatten) (host : Host (StateM W)) (unicode : UnicodeTable) (w : W) :
    ∃ memory lines v,
      (StreamCall.makeAll unicode (.select 3 (some table) (some width) ::
        (prints.map .print ++ [.select (-3) none none]))).on host desk w
        = ((.ok (), { desk with memory }), v) ∧
      lines = (LineTable.layOut table.toNat width.natAbs prints.flatten).lines ∧
      memory.Holds table.toNat (lines.flatMap TextLine.record ++ [0, 0]) ∧
      (∀ machine u, machine.memory = memory → machine.streams.tables = [] →
        Spares host table.toNat (lines.flatMap TextLine.record ++ [0, 0]) (form lines)
          machine u) ∧
      (∀ machine u,
        Spares host table.toNat (lines.flatMap TextLine.record ++ [0, 0]) (form lines)
          machine u →
        machine.play host (printForm table) u = machine.play host (printAll (form lines)) u) ∧
      visible (form lines).flatten <+: (visible prints.flatten).map stored ∧
      (visible (form lines).flatten = (visible prints.flatten).map stored ↔
        ∀ before after,
          LineTable.Strands { address := table.toNat, width := width.natAbs } prints.flatten
            before after → visible after = []) ∧
      (Solid lines ↔
        ∀ before after,
          ¬LineTable.Strands { address := table.toNat, width := width.natAbs } prints.flatten
            before after) ∧
      (Solid lines →
        List.Sublist ((prints.flatten.filter (· ≠ 32)).map stored) (form lines).flatten) := by
  have hpositive : 1 ≤ width.natAbs := Int.natAbs_pos.mpr hwidth
  obtain ⟨memory, lines, v, hcalls, rfl, hholds, hlengths, -⟩ :=
    Streams.lines_recovered hwidth hroom hfit host unicode w
  refine ⟨memory, _, v, hcalls, rfl, hholds, ?spares,
    fun machine u h => play_printForm (fun line hline => (hlengths line hline).2) h,
    LineTable.visible_form_layOut_prefix table.toNat hpositive hblank,
    LineTable.visible_form_layOut_iff table.toNat hpositive hblank,
    LineTable.solid_layOut_iff table.toNat hpositive hblank, LineTable.sublist_form_layOut⟩
  case spares =>
    rintro machine u rfl hclosed
    exact spares_of_nil _ hholds hclosed u

/-- A line that is full, a blank behind it, and more behind a new line. -/
def twoLines : List (List Word) := [[97, 98, 99, 32], [13, 100]]

/-- Of the two lines only the first is printed. -/
theorem text_printed_back_unless_stranded_twoLines :
    NoBlankLine twoLines.flatten ∧
      ∃ memory, ((StreamCall.makeAll .standard (.select 3 (some 64) (some (-3)) ::
          (twoLines.map .print ++ [.select (-3) none none]))).on deaf Streams.emptyDesk ()).1
          = (.ok (), { Streams.emptyDesk with memory }) ∧
        memory.Holds 64 [0, 3, 97, 98, 99, 0, 0, 0, 1, 100, 0, 0] ∧
        ({ quitter with memory } : Machine).play deaf (printForm 64) ()
          = ({ quitter with memory } : Machine).play deaf (printAll [[97, 98, 99], [13]]) () ∧
        visible ([[97, 98, 99], [13]] : List (List Word)).flatten
          ≠ (visible twoLines.flatten).map stored := by
  have hblank : NoBlankLine twoLines.flatten := by decide
  have hroom : Streams.emptyDesk.streams.tables.length < Streams.maxTables := by decide
  have hfit : (LineTable.layOut (64 : Word).toNat (-3 : Int).natAbs twoLines.flatten).next + 2
      ≤ Streams.emptyDesk.memory.dynamicCeiling := by decide +kernel
  have hlayOut : (LineTable.layOut (64 : Word).toNat (-3 : Int).natAbs twoLines.flatten).lines
      = [⟨[97, 98, 99], .blank⟩, ⟨[], .newLine⟩, ⟨[100], .nothing⟩] := by decide +kernel
  have hform : form [⟨[97, 98, 99], .blank⟩, ⟨[], .newLine⟩, ⟨[100], .nothing⟩]
      = [[97, 98, 99], [13]] := by decide +kernel
  obtain ⟨memory, lines, v, hcalls, hlines, hholds, hspares, hplay, -, hall, -⟩ :=
    text_printed_back_unless_stranded (by decide : (-3 : Int) ≠ 0) hroom hfit hblank deaf .standard ()
  rw [hlayOut] at hlines
  subst hlines
  rw [hform] at hplay hspares hall
  refine ⟨hblank, memory, congrArg Prod.fst hcalls, hholds,
    hplay { quitter with memory } () (hspares { quitter with memory } () rfl rfl),
    fun hseen => ?_⟩
  have hstrands : LineTable.Strands { address := (64 : Word).toNat, width := (-3 : Int).natAbs }
      twoLines.flatten [97, 98, 99] [100] := ⟨rfl, by decide +kernel⟩
  exact absurd (hall.mp hseen [97, 98, 99] [100] hstrands) (by decide)

end Play

end StoryMachine
