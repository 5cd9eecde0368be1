import StoryMachine.Proofs.CheckedArithmetic
import StoryMachine.Random
import StoryMachine.Word

/-!
# Shifts and random numbers with checked ranges

Sums, products and quotients of words wrap around, and there is nothing in them to check.  A
shift goes by fewer places than a word has bits, and to the right by a number of places that
was negated.  The generator looks into its ring by position, counts the odd numbers of a ring
that was filled, and takes a remainder by a range that must not be zero.
-/

namespace StoryMachine

open Checked

variable {m : Type → Type} [Monad m] [Breaks m]

/-! ## Shifts -/

namespace CheckedShift

/-- Goes on with a number of places that is less than a word has bits. -/
def within (places : Nat) (shifted : Word) : m Word := do
  require (places < 16)
  return shifted

/-- Shift that fills with zeros. -/
def logical (value amount : Word) : m Word := do
  let places := amount.signed
  if 0 ≤ places ∧ places ≤ 15 then within places.natAbs (value <<< UInt16.ofNat places.natAbs)
  else if -15 ≤ places ∧ places ≤ -1 then
    let back ← magnitude places
    within back (value >>> UInt16.ofNat back)
  else return 0

/-- Shift whose right direction copies the sign bit. -/
def arithmetic (value amount : Word) : m Word := do
  let places := amount.signed
  if 0 ≤ places ∧ places ≤ 15 then within places.natAbs (value <<< UInt16.ofNat places.natAbs)
  else if -15 ≤ places ∧ places ≤ -1 then
    let back ← magnitude places
    within back (value.toInt16 >>> Int16.ofNat back).toUInt16
  else if places < 0 ∧ value.signed < 0 then return 0xffff
  else return 0

variable [LawfulMonad m]

/-- Fewer than 16 places are within a word. -/
theorem within_of_lt {places : Nat} (h : places < 16) (shifted : Word) :
    (within places shifted : m Word) = pure shifted := by
  rw [within, require_of h, pure_bind]

/-- A number without a sign is one of 16 places if it is less. -/
theorem ofNat_le_iff (n : Nat) : 0 ≤ Int.ofNat n ∧ Int.ofNat n ≤ 15 ↔ n < 16 := by
  rw [Int.ofNat_eq_natCast]
  omega

/-- It is not the opposite of one. -/
theorem not_ofNat_le (n : Nat) : ¬(-15 ≤ Int.ofNat n ∧ Int.ofNat n ≤ -1) := by
  rw [Int.ofNat_eq_natCast]
  omega

/-- **No shift goes by more places than a word has.** -/
theorem logical_eq (value amount : Word) :
    (logical value amount : m Word) = pure (value.logicalShift amount) := by
  unfold logical Word.logicalShift Word.Shift.ofPlaces
  cases amount.signed with
  | ofNat n =>
      by_cases h : n < 16
      · rw [if_pos ((ofNat_le_iff n).mpr h), within_of_lt (show (Int.ofNat n).natAbs < 16 from h)]
        simp only [if_pos h]
        rfl
      · rw [if_neg (mt (ofNat_le_iff n).mp h), if_neg (not_ofNat_le n)]
        simp only [if_neg h]
  | negSucc n =>
      rw [if_neg (by omega)]
      by_cases h : n + 1 < 16
      · rw [if_pos ⟨by omega, by omega⟩, magnitude_of_lt (by omega), pure_bind,
          within_of_lt (by omega)]
        simp only [if_pos h]
        rfl
      · rw [if_neg (by omega)]
        simp only [if_neg h]

/-- The sign is copied by shifts that are within a word too. -/
theorem arithmetic_eq (value amount : Word) :
    (arithmetic value amount : m Word) = pure (value.arithmeticShift amount) := by
  unfold arithmetic Word.arithmeticShift Word.Shift.ofPlaces
  cases amount.signed with
  | ofNat n =>
      by_cases h : n < 16
      · rw [if_pos ((ofNat_le_iff n).mpr h), within_of_lt (show (Int.ofNat n).natAbs < 16 from h)]
        simp only [if_pos h]
        rfl
      · have hout : ¬(Int.ofNat n < 0 ∧ value.signed < 0) := fun hneg =>
          Int.not_lt.mpr (Int.natCast_nonneg n) hneg.1
        rw [if_neg (mt (ofNat_le_iff n).mp h), if_neg (not_ofNat_le n), if_neg hout]
        simp only [if_neg h]
  | negSucc n =>
      rw [if_neg (by omega)]
      by_cases h : n + 1 < 16
      · rw [if_pos ⟨by omega, by omega⟩, magnitude_of_lt (by omega), pure_bind,
          within_of_lt (by omega)]
        simp only [if_pos h]
        rfl
      · have hback : Int.negSucc n < 0 := Int.negSucc_lt_zero n
        rw [if_neg (by omega)]
        simp only [if_neg h, hback, true_and]
        split <;> rfl

end CheckedShift

/-! ## Random numbers -/

namespace CheckedRandom

/-- Counts one more number if it is odd. -/
def countOdd (odd : Nat) (entry : UInt32) : m Nat :=
  if entry % 2 = 1 then sum odd 1 else pure odd

/-- At least five odd and five even members. -/
def balanced (ring : Vector UInt32 55) : m Bool := do
  let odd ← ring.toList.foldlM countOdd 0
  if 5 ≤ odd then
    let even ← difference 55 odd
    return decide (5 ≤ even)
  else return false

/-- Fills the ring, going on along the sequence until it is balanced. -/
def refill : (passes : Nat) → UInt32 → m (Vector UInt32 55)
  | 0, x => pure (Random.fill x)
  | passes + 1, x => do
    let ring := Random.fill x
    if ← balanced ring then return ring
    else
      let last ← item ring.toList 54
      refill passes last

/-- The generator started from a seed. -/
def ofSeed (seed : UInt32) : m Random := do
  let ring ← refill 0x100000000 seed
  return { ring, near := ⟨31, by decide⟩, far := ⟨0, by decide⟩ }

/-- The place after a place of the ring, counted round. -/
def after (place : Fin 55) : m (Fin 55) := do
  let next ← sum place 1
  return ⟨next % 55, Nat.mod_lt next (by decide)⟩

/-- The next member of the recurrence, and the generator after it. -/
def advance (r : Random) : m (UInt32 × Random) := do
  let newer ← item r.ring.toList r.near
  let older ← item r.ring.toList r.far
  let x := newer + older
  require (r.far < r.ring.size)
  let near ← after r.near
  let far ← after r.far
  return (x, { ring := r.ring.setIfInBounds r.far x, near, far })

/-- A number from 1 to `range`. -/
def below (range : Word) (r : Random) : m (Word × Random) := do
  require (0 < range.toNat)
  let (x, later) ← advance r
  let rest := (Random.magnitude x % range.toUInt32).toUInt16
  let number ← fitting 16 (rest.toNat + 1)
  return (number.toUInt16, later)

variable [LawfulMonad m]

/-- As many odd numbers are counted as there are. -/
theorem foldlM_countOdd (entries : List UInt32) {odd : Nat} (h : odd + entries.length < 2 ^ 64) :
    (entries.foldlM countOdd odd : m Nat) = pure (odd + entries.countP (· % 2 = 1)) := by
  induction entries generalizing odd with
  | nil => rfl
  | cons entry entries ih =>
      rw [List.length_cons] at h
      rw [List.foldlM_cons, List.countP_cons, countOdd]
      by_cases hodd : entry % 2 = 1
      · rw [if_pos hodd, sum_of_lt (by omega), pure_bind, ih (by omega)]
        simp only [hodd, decide_true, if_true]
        rw [Nat.add_right_comm, Nat.add_assoc]
      · rw [if_neg hodd, pure_bind, ih (by omega)]
        simp only [hodd, decide_false, Bool.false_eq_true, if_false, Nat.add_zero]

/-- The odd members of a ring are counted in their range. -/
theorem balanced_eq (ring : Vector UInt32 55) :
    (balanced ring : m Bool) = pure (Random.balanced ring) := by
  have hlength : ring.toList.length = 55 := Vector.length_toList
  have hcount : ring.toList.countP (· % 2 = 1) ≤ 55 :=
    Nat.le_trans List.countP_le_length (Nat.le_of_eq hlength)
  rw [balanced, foldlM_countOdd _ (by omega), pure_bind, Nat.zero_add]
  unfold Random.balanced Random.oddCount
  by_cases h : 5 ≤ ring.toList.countP (· % 2 = 1)
  · rw [if_pos h, difference_of_le hcount, pure_bind]
    simp only [h, decide_true, Bool.true_and]
  · rw [if_neg h]
    simp only [h, decide_false, Bool.false_and]

/-- A ring is refilled with its places in their range. -/
theorem refill_eq (passes : Nat) (x : UInt32) :
    (refill passes x : m (Vector UInt32 55)) = pure (Random.refill passes x) := by
  induction passes generalizing x with
  | zero => rfl
  | succ passes ih =>
      have hlast : (Random.fill x).toList[54]? = some (Random.fill x)[54] := by
        rw [Vector.getElem?_toList]
        exact Vector.getElem?_eq_getElem (by decide)
      rw [refill, Random.refill, balanced_eq, pure_bind]
      split
      · rfl
      · rw [item_of_eq hlast, pure_bind, ih]

/-- A seed gives its ring with places in their range. -/
theorem ofSeed_eq (seed : UInt32) : (ofSeed seed : m Random) = pure (Random.ofSeed seed) := by
  rw [ofSeed, refill_eq, pure_bind, Random.ofSeed]
  rfl

/-- The place after a place is found without overflow. -/
theorem after_eq (place : Fin 55) : (after place : m (Fin 55)) = pure (place + 1) := by
  rw [after, sum_of_lt (by omega), pure_bind]
  rfl

/-- A member of the ring can be replaced. -/
theorem setIfInBounds_eq (ring : Vector UInt32 55) (place : Fin 55) (x : UInt32) :
    ring.setIfInBounds place x = ring.set place x := by
  simp [Vector.setIfInBounds, Vector.set, Array.setIfInBounds]

/-- The places of the taps are places of the ring. -/
theorem advance_eq (r : Random) : (advance r : m (UInt32 × Random)) = pure r.advance := by
  have hitem (place : Fin 55) : r.ring.toList[place.val]? = some r.ring[place] := by
    rw [Vector.getElem?_toList]
    exact Vector.getElem?_eq_getElem place.isLt
  rw [advance, item_of_eq (hitem r.near), pure_bind, item_of_eq (hitem r.far), pure_bind,
    require_of r.far.isLt, pure_bind, after_eq, pure_bind, after_eq, pure_bind,
    setIfInBounds_eq]
  rfl

/-- **A random number is at most its range**, which 16 bits hold. -/
theorem below_eq {range : Word} (h : range ≠ 0) (r : Random) :
    (below range r : m (Word × Random)) = pure (r.below range) := by
  have hpos : 0 < range.toNat := Nat.pos_of_ne_zero fun hzero => h (UInt16.toNat_inj.mp hzero)
  have hrange := range.toNat_lt
  rw [below, require_of hpos, pure_bind, advance_eq, pure_bind]
  dsimp only
  have hrest : (Random.magnitude r.advance.1 % range.toUInt32).toUInt16.toNat < range.toNat := by
    have hmod : (Random.magnitude r.advance.1).toNat % range.toNat < range.toNat :=
      Nat.mod_lt _ hpos
    simp only [UInt32.toNat_toUInt16, UInt32.toNat_mod, UInt16.toNat_toUInt32]
    omega
  rw [fitting_of_lt (by omega), pure_bind]
  refine congrArg pure (Prod.ext ?_ rfl)
  show UInt16.ofNat (_ + 1) = _
  rw [UInt16.ofNat_add, UInt16.ofNat_toNat]
  rfl

end CheckedRandom

end StoryMachine
