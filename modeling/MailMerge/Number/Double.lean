/-
  MailMerge.Number.Double — binary64 numbers, by their bits.

  Without its sign bit a double is a magnitude: a natural number whose order is the order of
  the absolute values, from 0 over the finite numbers to infinity, with the NaNs above. A
  finite magnitude `m` has the value `units m / 2 ^ 1074`, so every finite double is a whole
  number of the smallest one, and rounding, multiplying and dividing are done on naturals:

  - `nearest num den` is the magnitude nearest to a quotient, ties to the even one. It finds
    the unit, `2 ^ k` of the smallest, under which the quotient has 53 bits (or takes the
    smallest, when it has fewer) and rounds the number of those; `k * 2 ^ 52` plus that
    number is the magnitude, also when rounding carries into the next unit.
  - `rank?` is the place on the number line: doubles compare as their ranks, the two zeros
    share one, and a NaN has none.
-/

namespace MailMerge

/-- A binary64 number, given by its bits: sign, eleven bits of exponent, 52 of fraction. -/
structure Double where
  bits : UInt64
  deriving DecidableEq, Repr

namespace Double

/-! ## Magnitudes -/

/-- The number of magnitudes with one exponent, `2 ^ 52`. -/
def fractions : Nat := 0x10000000000000

/-- The magnitude of infinity; above it stand the NaNs. -/
def infinity : Nat := 0x7FF * fractions

/-- The value of a finite magnitude, in units of `2 ^ -1074`. -/
def units (m : Nat) : Nat :=
  if m < fractions then m else (fractions + m % fractions) <<< (m / fractions - 1)

/-- `num / den` rounded to a whole number, a tie to the even one. -/
def roundEven (num den : Nat) : Nat :=
  let low := num / den
  let rest := num % den
  if 2 * rest < den then low else if den < 2 * rest then low + 1 else low + low % 2

/-- The magnitude nearest to `num / den`, a tie to the even one; infinity when it is too large. -/
def nearest (num den : Nat) : Nat :=
  let scaled := num <<< 1074
  let k := (scaled / den).log2 - 52
  min infinity (k * fractions + roundEven scaled (den <<< k))

/-- The magnitude of a product of finite magnitudes. -/
def mul (a b : Nat) : Nat := nearest (units a * units b) (1 <<< 2148)

/-- The magnitude of a quotient of finite magnitudes, the second not zero. -/
def div (a b : Nat) : Nat := nearest (units a) (units b)

/-! ## Signed numbers -/

/-- The sign bit, which is set in negative numbers. -/
def signBit : Nat := 0x8000000000000000

def negative (x : Double) : Bool := signBit ≤ x.bits.toNat

def magnitude (x : Double) : Nat := x.bits.toNat % signBit

def ofMagnitude (negative : Bool) (m : Nat) : Double := ⟨.ofNat ((if negative then signBit else 0) + m)⟩

def isNaN (x : Double) : Bool := infinity < x.magnitude

def isFinite (x : Double) : Bool := x.magnitude < infinity

/-- Positive or negative zero. -/
def isZero (x : Double) : Bool := x.magnitude = 0

/-- The place on the number line; none for a NaN. -/
def rank? (x : Double) : Option Int :=
  if x.isNaN then none else some (if x.negative then -(x.magnitude : Int) else x.magnitude)

/-- Equality of numbers: the zeros are equal, and a NaN equals nothing. -/
def same (x y : Double) : Bool :=
  match x.rank?, y.rank? with
  | some a, some b => a == b
  | _, _ => false

/-- The order of numbers; none when one of them is a NaN. -/
def compare? (x y : Double) : Option Ordering :=
  match x.rank?, y.rank? with
  | some a, some b => some (compare a b)
  | _, _ => none

def ofNat (n : Nat) : Double := ofMagnitude false (nearest n 1)

def ofInt (n : Int) : Double := ofMagnitude (n < 0) (nearest n.natAbs 1)

end Double

/-- A binary32 number, given by its bits: sign, eight bits of exponent, 23 of fraction. -/
structure Single where
  bits : UInt32
  deriving DecidableEq, Repr

/-- Every single is a double. A NaN keeps its fraction bits. -/
def Single.toDouble (x : Single) : Double :=
  let m := x.bits.toNat % 0x80000000
  let fraction := m % 0x800000
  let exponent := m / 0x800000
  let wide :=
    if exponent = 0xFF then Double.infinity + fraction <<< 29
    else if exponent = 0 then Double.nearest fraction (1 <<< 149)
    else Double.nearest ((0x800000 + fraction) <<< (exponent - 1)) (1 <<< 149)
  .ofMagnitude (0x80000000 ≤ x.bits.toNat) wide

end MailMerge
