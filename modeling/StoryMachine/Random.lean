/-!
# Random numbers

An additive generator over a ring of 55 numbers: every new number is the sum of
the two stored 55 and 24 places earlier, modulo 2^32, and replaces the older of
them.  A seed fills the ring from a congruential sequence.  The low bit of the
output only cycles properly if the ring holds numbers of both parities, so it
is filled again until it has at least five of each.
-/

namespace StoryMachine

/-- The generator: the ring, and the places of its two taps. -/
structure Random where
  ring : Vector UInt32 55
  near : Fin 55
  far : Fin 55
  deriving DecidableEq

namespace Random

/-- One step of the congruential sequence that fills the ring. -/
def congruent (x : UInt32) : UInt32 :=
  x * 8323199 + 1

/-- The next `n` members of the congruential sequence after `x`. -/
def congruentAfter (x : UInt32) : Nat → List UInt32
  | 0 => []
  | n + 1 => congruent x :: congruentAfter (congruent x) n

theorem length_congruentAfter (x : UInt32) (n : Nat) : (congruentAfter x n).length = n := by
  induction n generalizing x with
  | zero => rfl
  | succ n ih => simp [congruentAfter, ih]

/-- The ring filled with the 55 members that follow `x`. -/
def fill (x : UInt32) : Vector UInt32 55 :=
  ⟨(congruentAfter x 55).toArray, by simp [length_congruentAfter]⟩

/-- How many members of the ring are odd. -/
def oddCount (ring : Vector UInt32 55) : Nat :=
  ring.toList.countP (· % 2 = 1)

/-- At least five odd and five even members. -/
def balanced (ring : Vector UInt32 55) : Bool :=
  5 ≤ oddCount ring && 5 ≤ 55 - oddCount ring

/-- Fills the ring, going on along the sequence until it is balanced, at most
`passes` times more. -/
def refill : (passes : Nat) → UInt32 → Vector UInt32 55
  | 0, x => fill x
  | passes + 1, x =>
    let ring := fill x
    if balanced ring then ring else refill passes ring[54]

/-- The generator started from a seed.  The congruential sequence has 2^32
members, so looking further than that many passes would find nothing new. -/
def ofSeed (seed : UInt32) : Random where
  ring := refill 0x100000000 seed
  near := 31
  far := 0

/-- The size of a number read as two's complement. -/
def magnitude (x : UInt32) : UInt32 :=
  if x < 0x80000000 then x else 0 - x

/-- The next member of the recurrence, and the generator after it. -/
def advance (r : Random) : UInt32 × Random :=
  let x := r.ring[r.near] + r.ring[r.far]
  (x, { ring := r.ring.set r.far x, near := r.near + 1, far := r.far + 1 })

/-- The next number. -/
def next (r : Random) : UInt32 × Random :=
  let (x, r) := r.advance
  (magnitude x, r)

/-- A number from 1 to `range`. -/
def below (range : UInt16) (r : Random) : UInt16 × Random :=
  let (x, r) := r.next
  ((x % range.toUInt32).toUInt16 + 1, r)

end Random

end StoryMachine
