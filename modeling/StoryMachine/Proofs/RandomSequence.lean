import StoryMachine.Random

/-!
# The sequence of random numbers

A generator turns its ring in place: two taps go round, and each new number replaces the oldest.
What it computes is the recurrence `s n = s (n - 55) + s (n - 24)` of the numbers that the ring
began with, modulo 2^32 (`recurrence`).

**The ring is a window on the recurrence.**  After `n` numbers have been drawn, the 55 members from
place `n` on stand in the ring, each at its place counted round (`Shows`).  One more number moves
the window by one (`Shows.advance`), so by induction all that are drawn are members of the
recurrence (`shows_after`).

**Parity** is what a seed has to care for.  The congruential sequence alternates between odd and
even, so that 27 or 28 of the 55 members are odd and the ring is never filled twice
(`ofSeed_eq`).  A window that has an odd member is followed by one that has an odd member, because
the sum that comes in and the member that goes out differ by another one of the window
(`exists_odd`).
-/

namespace StoryMachine.Random

/-! ## Parity -/

/-- A number is odd as a word where it is odd. -/
theorem mod_two_eq_one_iff {x : UInt32} : x % 2 = 1 ↔ x.toNat % 2 = 1 := by
  rw [← UInt32.toNat_inj, UInt32.toNat_mod]
  rfl

/-- A sum is odd if exactly one of the two is. -/
theorem odd_add_iff {x y : UInt32} : (x + y) % 2 = 1 ↔ (x % 2 = 1 ↔ ¬y % 2 = 1) := by
  simp only [mod_two_eq_one_iff, UInt32.toNat_add]
  omega

/-- The sign does not matter. -/
theorem odd_magnitude_iff {x : UInt32} : magnitude x % 2 = 1 ↔ x % 2 = 1 := by
  have hlt := x.toNat_lt
  unfold magnitude
  split
  · rfl
  · rw [mod_two_eq_one_iff, mod_two_eq_one_iff, UInt32.toNat_sub, UInt32.toNat_zero]
    omega

/-- An odd factor does not matter. -/
theorem odd_mul_iff {x y : UInt32} (hodd : y % 2 = 1) : (x * y) % 2 = 1 ↔ x % 2 = 1 := by
  have hmod : (x * y).toNat % 2 = x.toNat * y.toNat % 2 := by
    rw [UInt32.toNat_mul, Nat.mod_mod_of_dvd _ (by decide)]
  rw [mod_two_eq_one_iff, mod_two_eq_one_iff, hmod, Nat.mul_mod, mod_two_eq_one_iff.mp hodd,
    Nat.mul_one, Nat.mod_mod]

/-- The congruential sequence alternates. -/
theorem odd_congruent_iff {x : UInt32} : congruent x % 2 = 1 ↔ ¬x % 2 = 1 := by
  have hone : (1 : UInt32) % 2 = 1 := rfl
  rw [congruent, odd_add_iff, odd_mul_iff rfl]
  exact ⟨fun h hx => h.mp hx hone, fun h => ⟨fun hx => absurd hx h, fun hnot => absurd hone hnot⟩⟩

/-! ## Seeding -/

/-- Of the members after an odd number every second is odd, beginning with the second, and after an
even one beginning with the first. -/
theorem countP_congruentAfter (x : UInt32) (n : Nat) :
    (congruentAfter x n).countP (· % 2 = 1) = if x % 2 = 1 then n / 2 else (n + 1) / 2 := by
  induction n generalizing x with
  | zero => simp [congruentAfter]
  | succ n ih =>
      rw [congruentAfter, List.countP_cons, ih]
      by_cases hodd : x % 2 = 1
      · have hnext : ¬congruent x % 2 = 1 := fun h => odd_congruent_iff.mp h hodd
        simp [hodd, hnext]
      · have hnext : congruent x % 2 = 1 := odd_congruent_iff.mpr hodd
        simp [hodd, hnext]
        omega

/-- Of the numbers that a ring is filled with, 27 are odd, or 28. -/
theorem oddCount_fill (x : UInt32) : oddCount (fill x) = if x % 2 = 1 then 27 else 28 := by
  show (congruentAfter x 55).countP _ = _
  rw [countP_congruentAfter]

/-- A ring that is filled is balanced at once. -/
theorem balanced_fill (x : UInt32) : balanced (fill x) = true := by
  unfold balanced
  rw [oddCount_fill]
  split <;> rfl

/-- However many more passes there might be, the first is the last. -/
theorem refill_eq (passes : Nat) (x : UInt32) : refill passes x = fill x := by
  cases passes with
  | zero => rfl
  | succ passes => simp [refill, balanced_fill]

/-- A seed gives the ring that is filled from it. -/
theorem ofSeed_eq (seed : UInt32) : ofSeed seed = { ring := fill seed, near := 31, far := 0 } := by
  rw [ofSeed, refill_eq]

/-! ## The recurrence -/

/-- The sequence that begins with the members of a ring and goes on with the sum of the numbers 55
and 24 places before. -/
def recurrence (ring : Vector UInt32 55) (n : Nat) : UInt32 :=
  if h : n < 55 then ring[n] else recurrence ring (n - 55) + recurrence ring (n - 24)

section

variable (ring : Vector UInt32 55)

/-- The sequence begins with the members of the ring. -/
theorem recurrence_of_lt {n : Nat} (h : n < 55) : recurrence ring n = ring[n] := by
  rw [recurrence, dif_pos h]

/-- Any later number is the sum of those 55 and 24 places before. -/
theorem recurrence_add (n : Nat) :
    recurrence ring (n + 55) = recurrence ring n + recurrence ring (n + 31) := by
  rw [recurrence, dif_neg (by omega)]
  rfl

/-- **Any 55 members in a row** have an odd one among them, if the first 55 have.  If the only odd
one goes out, the sum that comes in is odd. -/
theorem exists_odd (hring : ∃ i, i < 55 ∧ recurrence ring i % 2 = 1) (n : Nat) :
    ∃ i, i < 55 ∧ recurrence ring (n + i) % 2 = 1 := by
  induction n with
  | zero => simpa using hring
  | succ n ih =>
      obtain ⟨i, hi, hodd⟩ := ih
      cases i with
      | succ i =>
          refine ⟨i, by omega, ?_⟩
          rw [Nat.add_assoc, Nat.add_comm 1]
          exact hodd
      | zero =>
          by_cases hstays : recurrence ring (n + 31) % 2 = 1
          · exact ⟨30, by decide, hstays⟩
          · refine ⟨54, by decide, ?_⟩
            show recurrence ring (n + 55) % 2 = 1
            rw [recurrence_add]
            exact odd_add_iff.mpr ⟨fun _ => hstays, fun _ => hodd⟩

end

/-! ## Drawing -/

/-- The generator after `n` numbers. -/
def after (r : Random) : Nat → Random
  | 0 => r
  | n + 1 => (r.after n).advance.2

/-- That a generator has the members from place `n` on in its ring, each at its place counted
round, and its taps at the first of them and 31 places further. -/
structure Shows (ring : Vector UInt32 55) (n : Nat) (r : Random) : Prop where
  far_eq : r.far.val = n % 55
  near_eq : r.near.val = (n + 31) % 55
  ring_eq : ∀ i, i < 55 → r.ring[(n + i) % 55] = recurrence ring (n + i)

variable {ring : Vector UInt32 55} {n : Nat} {r : Random}

/-- The next number is the one behind the ring. -/
theorem Shows.advance_fst (h : r.Shows ring n) : r.advance.1 = recurrence ring (n + 55) := by
  have hfar : r.ring[r.far] = recurrence ring n := by
    have hstands := h.ring_eq 0 (by decide)
    simp only [Nat.add_zero, ← h.far_eq] at hstands
    exact hstands
  have hnear : r.ring[r.near] = recurrence ring (n + 31) := by
    have hstands := h.ring_eq 31 (by decide)
    simp only [← h.near_eq] at hstands
    exact hstands
  show r.ring[r.near] + r.ring[r.far] = _
  rw [hfar, hnear, recurrence_add, UInt32.add_comm]

/-- **One number drawn** moves the window by one: the new number has come in where the oldest has
gone out. -/
theorem Shows.advance (h : r.Shows ring n) : r.advance.2.Shows ring (n + 1) := by
  refine ⟨?_, ?_, fun i hi => ?_⟩
  · show (r.far + 1).val = _
    rw [Fin.val_add, h.far_eq]
    omega
  · show (r.near + 1).val = _
    rw [Fin.val_add, h.near_eq]
    omega
  · show (r.ring.set r.far r.advance.1)[(n + 1 + i) % 55] = _
    by_cases hlast : i = 54
    · subst hlast
      have hplace : (n + 1 + 54) % 55 = r.far := by
        rw [h.far_eq]
        omega
      simp only [hplace]
      rw [Vector.getElem_set_self, h.advance_fst]
    · have hplace : (r.far : Nat) ≠ (n + 1 + i) % 55 := by
        rw [h.far_eq]
        omega
      have hstays := h.ring_eq (i + 1) (by omega)
      rw [Vector.getElem_set_ne _ _ hplace]
      simp only [show n + 1 + i = n + (i + 1) by omega]
      exact hstays

/-- A seeded generator has the ring from the beginning. -/
theorem shows_ofSeed (seed : UInt32) : (ofSeed seed).Shows (fill seed) 0 := by
  rw [ofSeed_eq]
  refine ⟨rfl, rfl, fun i hi => ?_⟩
  simp only [Nat.zero_add, Nat.mod_eq_of_lt hi]
  exact (recurrence_of_lt (fill seed) hi).symm

/-- **All numbers drawn** move the window along. -/
theorem shows_after (seed : UInt32) (n : Nat) : ((ofSeed seed).after n).Shows (fill seed) n := by
  induction n with
  | zero => exact shows_ofSeed seed
  | succ n ih => exact ih.advance

/-- The numbers of a seeded generator are those of the sequence, without their top bits. -/
theorem next_after (seed : UInt32) (n : Nat) : ((ofSeed seed).after n).next
    = (magnitude (recurrence (fill seed) (n + 55)), (ofSeed seed).after (n + 1)) := by
  show (magnitude ((ofSeed seed).after n).advance.1, _) = _
  rw [(shows_after seed n).advance_fst]
  rfl

/-- A seeded ring has an odd member. -/
theorem exists_odd_fill (seed : UInt32) : ∃ i, i < 55 ∧ recurrence (fill seed) i % 2 = 1 := by
  have hcount : 0 < oddCount (fill seed) := by
    rw [oddCount_fill]
    split <;> decide
  obtain ⟨x, hmem, hodd⟩ := List.countP_pos_iff.mp hcount
  obtain ⟨i, hi, rfl⟩ := List.getElem_of_mem hmem
  rw [Vector.length_toList] at hi
  refine ⟨i, hi, ?_⟩
  rw [recurrence_of_lt _ hi]
  simpa using hodd

/-- A number up to a range is from one to the range. -/
theorem below_range {range : UInt16} (h : 1 ≤ range) (r : Random) :
    1 ≤ (below range r).1 ∧ (below range r).1 ≤ range := by
  have hlt := range.toNat_lt
  have hpos : 0 < range.toNat := UInt16.le_iff_toNat_le.mp h
  have hmod : r.next.1.toNat % range.toNat < range.toNat := Nat.mod_lt _ hpos
  have hvalue : (below range r).1.toNat = r.next.1.toNat % range.toNat + 1 := by
    show ((r.next.1 % range.toUInt32).toUInt16 + 1).toNat = _
    rw [UInt16.toNat_add, UInt32.toNat_toUInt16, UInt32.toNat_mod, UInt16.toNat_toUInt32]
    show (r.next.1.toNat % range.toNat % 65536 + 1) % 65536 = _
    omega
  constructor
  · rw [UInt16.le_iff_toNat_le, hvalue]
    exact Nat.le_add_left 1 _
  · rw [UInt16.le_iff_toNat_le, hvalue]
    exact hmod

/-- **The sequence of a seed.**  Filled once, the ring is balanced, with 27 or 28 odd members, and
no further pass is made.  From there on the numbers drawn, but for their signs, are the members of
the recurrence that the ring begins, in their order.  Among any 55 of them one is odd.  A number
from a range, drawn at any point, lies in the range, and the ones after it are not affected by
that. -/
theorem seeded_sequence (seed : UInt32) :
    (balanced (fill seed) = true ∧ (oddCount (fill seed) = 27 ∨ oddCount (fill seed) = 28) ∧
      (∀ passes, refill passes seed = fill seed) ∧
      ofSeed seed = { ring := fill seed, near := 31, far := 0 }) ∧
    (∀ n, ((ofSeed seed).after n).advance.1 = recurrence (fill seed) (54 + (n + 1)) ∧
      ((ofSeed seed).after n).next
        = (magnitude (recurrence (fill seed) (54 + (n + 1))), (ofSeed seed).after (n + 1))) ∧
    (∀ n, ∃ i, i < 55 ∧ recurrence (fill seed) (n + i) % 2 = 1) ∧
    (∀ n, ∃ i, i < 55 ∧ ((ofSeed seed).after (n + i)).next.1 % 2 = 1) ∧
    ∀ (range : UInt16) (r : Random), 1 ≤ range →
      1 ≤ (below range r).1 ∧ (below range r).1 ≤ range ∧ (below range r).2 = r.next.2 := by
  refine ⟨⟨balanced_fill seed, ?_, (refill_eq · seed), ofSeed_eq seed⟩, ?_, ?_, ?_, ?_⟩
  · rw [oddCount_fill]
    split
    · exact .inl rfl
    · exact .inr rfl
  · intro n
    have hplace : 54 + (n + 1) = n + 55 := by omega
    rw [hplace]
    exact ⟨(shows_after seed n).advance_fst, next_after seed n⟩
  · exact exists_odd _ (exists_odd_fill seed)
  · intro n
    obtain ⟨i, hi, hodd⟩ := exists_odd _ (exists_odd_fill seed) (n + 55)
    refine ⟨i, hi, ?_⟩
    rw [next_after, odd_magnitude_iff, Nat.add_right_comm]
    exact hodd
  · intro range r hrange
    obtain ⟨hlower, hupper⟩ := below_range hrange r
    exact ⟨hlower, hupper, rfl⟩

/-- The first number of the seed 99, and a die thrown with it. -/
theorem seeded_sequence_die :
    (ofSeed 99).next.1 = 1209993601 ∧ 1 ≤ (6 : UInt16) ∧ (below 6 (ofSeed 99)).1 = 2 ∧
      1 ≤ (below 6 (ofSeed 99)).1 ∧ (below 6 (ofSeed 99)).1 ≤ 6 := by
  obtain ⟨-, hdrawn, -, -, hbelow⟩ := seeded_sequence 99
  have hsum : recurrence (fill 99) (54 + 1) = 1209993601 := by
    rw [recurrence_add (fill 99) 0, recurrence_of_lt _ (show 0 < 55 by decide),
      recurrence_of_lt _ (show 0 + 31 < 55 by decide)]
    decide +kernel
  have hnext : (ofSeed 99).next.1 = 1209993601 := by
    have hfirst : (ofSeed 99).next = _ := (hdrawn 0).2
    rw [hfirst, hsum]
    rfl
  obtain ⟨hlower, hupper, -⟩ := hbelow 6 (ofSeed 99) (by decide)
  refine ⟨hnext, by decide, ?_, hlower, hupper⟩
  show ((ofSeed 99).next.1 % _).toUInt16 + 1 = 2
  rw [hnext]
  rfl

end StoryMachine.Random
