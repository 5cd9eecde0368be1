import StoryMachine.Fault

/-!
# Arithmetic on machine words

The machine computes with sixteen bit words that wrap.  Addition, subtraction
and multiplication are those of `UInt16`, because two's complement makes the
signed and the unsigned operation agree.  Division, remainder, comparison and
shifts depend on the sign and are defined here through `Word.signed`.
-/

namespace StoryMachine

/-- A machine word. -/
abbrev Word := UInt16

namespace Word

/-- The two's complement value of a word. -/
def signed (w : Word) : Int :=
  w.toInt16.toInt

/-- Division that goes toward zero. -/
def divide (lhs rhs : Word) : Except Fault Word :=
  if rhs = 0 then .error { kind := .divisionByZero }
  else .ok (lhs.toInt16 / rhs.toInt16).toUInt16

/-- Remainder with the sign of the dividend. -/
def modulo (lhs rhs : Word) : Except Fault Word :=
  if rhs = 0 then .error { kind := .divisionByZero }
  else .ok (lhs.toInt16 % rhs.toInt16).toUInt16

/-- Signed comparison. -/
def less (lhs rhs : Word) : Bool :=
  lhs.signed < rhs.signed

/-- Signed comparison. -/
def greater (lhs rhs : Word) : Bool :=
  rhs.signed < lhs.signed

/-- The shift asked for by a signed number of places, when it is short enough
to leave any of the sixteen bits in the word. -/
inductive Shift where
  | left (places : Nat)
  | right (places : Nat)
  | leftOut
  | rightOut
  deriving DecidableEq

/-- Positive places go left, negative ones right. -/
def Shift.ofPlaces (places : Word) : Shift :=
  match places.signed with
  | .ofNat n => if n < 16 then .left n else .leftOut
  | .negSucc n => if n + 1 < 16 then .right (n + 1) else .rightOut

/-- Shift that fills with zeros. -/
def logicalShift (value places : Word) : Word :=
  match Shift.ofPlaces places with
  | .left n => value <<< UInt16.ofNat n
  | .right n => value >>> UInt16.ofNat n
  | .leftOut => 0
  | .rightOut => 0

/-- Shift whose right direction copies the sign bit. -/
def arithmeticShift (value places : Word) : Word :=
  match Shift.ofPlaces places with
  | .left n => value <<< UInt16.ofNat n
  | .right n => (value.toInt16 >>> Int16.ofNat n).toUInt16
  | .leftOut => 0
  | .rightOut => if value.signed < 0 then 0xffff else 0

/-- The high byte. -/
def high (w : Word) : UInt8 :=
  (w / 256).toUInt8

/-- The low byte. -/
def low (w : Word) : UInt8 :=
  w.toUInt8

/-- The word with the given high and low byte. -/
def ofBytes (hi lo : UInt8) : Word :=
  hi.toUInt16 * 256 + lo.toUInt16

/-- The two bytes of a word, high byte first. -/
def toBytes (w : Word) : List UInt8 :=
  [w.high, w.low]

@[simp] theorem toNat_ofBytes (hi lo : UInt8) :
    (ofBytes hi lo).toNat = 256 * hi.toNat + lo.toNat := by
  have := hi.toNat_lt
  have := lo.toNat_lt
  simp [ofBytes]
  omega

@[simp] theorem ofBytes_high_low (w : Word) : ofBytes w.high w.low = w := by
  apply UInt16.toNat.inj
  have := w.toNat_lt
  simp [high, low]
  omega

@[simp] theorem high_ofBytes (hi lo : UInt8) : (ofBytes hi lo).high = hi := by
  apply UInt8.toNat.inj
  have := hi.toNat_lt
  have := lo.toNat_lt
  simp [high]
  omega

@[simp] theorem low_ofBytes (hi lo : UInt8) : (ofBytes hi lo).low = lo := by
  apply UInt8.toNat.inj
  have := hi.toNat_lt
  have := lo.toNat_lt
  simp [low]

theorem high_eq_shift (w : Word) : w.high = (w >>> 8).toUInt8 := by
  apply UInt8.toNat.inj
  have hshift : w.toNat >>> 8 = w.toNat / 256 := Nat.shiftRight_eq_div_pow w.toNat 8
  simp [high, hshift]

/-! The two bytes of a word go through bitwise work apart from each other. -/

theorem high_or (v w : Word) : (v ||| w).high = v.high ||| w.high := by
  rw [high_eq_shift, UInt16.shiftRight_or, UInt16.toUInt8_or, ← high_eq_shift, ← high_eq_shift]

theorem high_and (v w : Word) : (v &&& w).high = v.high &&& w.high := by
  rw [high_eq_shift, UInt16.shiftRight_and, UInt16.toUInt8_and, ← high_eq_shift, ← high_eq_shift]

theorem low_or (v w : Word) : (v ||| w).low = v.low ||| w.low := UInt16.toUInt8_or v w

theorem low_and (v w : Word) : (v &&& w).low = v.low &&& w.low := UInt16.toUInt8_and v w

end Word

end StoryMachine
