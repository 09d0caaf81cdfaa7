/-
  MailMerge.Number.Numeral — numerals of JSON, and the numbers they stand for.

  A numeral without fraction and exponent is an integer when its digits fit in 64 bits and,
  with a minus sign, when its value is one of a signed 64-bit integer other than zero; `-0`
  is the float. Any other numeral is a float, and its value is computed in three steps:

  1. Digits, the point left out, are gathered into a 64-bit significand for as long as they
     fit (`gather`). A digit of the whole part that does not fit counts one power of ten,
     one of the fraction nothing.
  2. The significand is rounded to a double.
  3. That is multiplied or divided by a double power of ten (`scale`), in steps of `1e308`
     when the power is below `1e-308`. A power above `1e308`, or a product that overflows,
     is an error unless the significand is zero.

  - `read_shorter`: a numeral is never empty.
-/

import MailMerge.Number.Decimal
import MailMerge.Text.Blank

namespace MailMerge.Number

/-- A number as JSON gives it. -/
inductive Literal
  | nat (n : UInt64)
  | neg (n : Int64)
  | float (x : Double)
  deriving DecidableEq, Repr

/-- The parts of a numeral: digits of the whole part, of the fraction (none: no fraction), and a
    power of ten. -/
structure Numeral where
  negative : Bool
  whole : Text
  fraction : Text
  exponent : Option Int
  deriving DecidableEq, Repr

namespace Numeral

/-! ## Reading -/

def digit (c : Char) : Nat := c.toNat - '0'.toNat

/-- The number that digits stand for. -/
def ofDigits (ds : Text) : Nat := ds.foldl (fun n c => n * 10 + digit c) 0

/-- One or more digits, and what follows them. -/
def splitDigits (s : Text) : Option (Text × Text) :=
  match s.takeWhile Char.isDigit with
  | [] => none
  | ds => some (ds, s.dropWhile Char.isDigit)

def splitSign : Text → Bool × Text
  | '-' :: s => (true, s)
  | s => (false, s)

/-- The whole part: a zero alone, or digits that begin with another one. -/
def splitWhole : Text → Option (Text × Text)
  | '0' :: s => some (['0'], s)
  | s => splitDigits s

/-- A fraction, if a point follows; a point without a digit after it is an error. -/
def splitFraction : Text → Option (Text × Text)
  | '.' :: s => splitDigits s
  | s => some ([], s)

/-- The sign and digits of a power of ten. -/
def splitPower : Text → Option (Int × Text)
  | '+' :: s => (splitDigits s).map fun (ds, rest) => ((ofDigits ds : Int), rest)
  | '-' :: s => (splitDigits s).map fun (ds, rest) => (-(ofDigits ds : Int), rest)
  | s => (splitDigits s).map fun (ds, rest) => ((ofDigits ds : Int), rest)

/-- A power of ten, if its mark follows; the mark without digits after it is an error. -/
def splitExponent : Text → Option (Option Int × Text)
  | 'e' :: s => (splitPower s).map fun (n, rest) => (some n, rest)
  | 'E' :: s => (splitPower s).map fun (n, rest) => (some n, rest)
  | s => some (none, s)

/-- The numeral at the front of the text, and what follows it. -/
def read (s : Text) : Option (Numeral × Text) := do
  let (negative, s) := splitSign s
  let (whole, s) ← splitWhole s
  let (fraction, s) ← splitFraction s
  let (exponent, s) ← splitExponent s
  return (⟨negative, whole, fraction, exponent⟩, s)

/-! ## Value -/

/-- Digits taken into a 64-bit significand for as long as they fit, and the digits left over. -/
def gather (n : Nat) : Text → Nat × Text
  | [] => (n, [])
  | c :: ds => if n * 10 + digit c < UInt64.size then gather (n * 10 + digit c) ds else (n, c :: ds)

/-- The double nearest to `10 ^ n`, as a magnitude. -/
def power (n : Nat) : Nat := Decimal.magnitude ⟨1, n⟩

/-- The magnitude `m` divided by `10 ^ n`, in steps of at most `1e308`. -/
def scaleDown (m n : Nat) : Nat :=
  if n ≤ 308 then Double.div m (power n)
  else if m = 0 then 0
  else scaleDown (Double.div m (power 308)) (n - 308)
termination_by n

/-- The magnitude `m` times `10 ^ exponent`; none when it is too large. -/
def scale (m : Nat) (exponent : Int) : Option Nat :=
  if exponent < 0 then some (scaleDown m exponent.natAbs)
  else if m = 0 then some 0
  else if exponent.natAbs ≤ 308 then
    let product := Double.mul m (power exponent.natAbs)
    if product = Double.infinity then none else some product
  else none

/-- The number that the numeral stands for; none when it is too large for a float. -/
def value (x : Numeral) : Option Literal :=
  let (whole, dropped) := gather 0 x.whole
  if x.fraction.isEmpty && x.exponent.isNone && dropped.isEmpty then
    if !x.negative then some (.nat (.ofNat whole))
    else if whole = 0 ∨ 0x8000000000000000 < whole then some (.float (.ofMagnitude true (Double.nearest whole 1)))
    else some (.neg (.ofInt (-whole)))
  else
    let (significand, ignored) := gather whole x.fraction
    let exponent := dropped.length - (x.fraction.length - ignored.length : Int) + x.exponent.getD 0
    (scale (Double.nearest significand 1) exponent).map fun m => .float (.ofMagnitude x.negative m)

/-! ## A numeral takes something off the text -/

theorem splitDigits_shorter {s ds rest : Text} (h : splitDigits s = some (ds, rest)) : rest.length < s.length := by
  cases s with
  | nil => simp [splitDigits] at h
  | cons c s =>
    by_cases hc : c.isDigit
    · simp only [splitDigits, List.takeWhile_cons, hc, if_true, List.dropWhile_cons, Option.some.injEq,
        Prod.mk.injEq] at h
      rw [← h.2]
      exact Nat.lt_succ_of_le (Text.dropWhile_length_le _ s)
    · simp [splitDigits, hc] at h

theorem splitSign_length_le (s : Text) : (splitSign s).2.length ≤ s.length := by
  unfold splitSign
  split <;> simp

theorem splitWhole_shorter {s ds rest : Text} (h : splitWhole s = some (ds, rest)) : rest.length < s.length := by
  unfold splitWhole at h
  split at h
  · cases h; simp
  · exact splitDigits_shorter h

theorem splitFraction_length_le {s ds rest : Text} (h : splitFraction s = some (ds, rest)) :
    rest.length ≤ s.length := by
  unfold splitFraction at h
  split at h
  · have := splitDigits_shorter h; simp; omega
  · cases h; exact Nat.le_refl _

theorem splitPower_shorter {s rest : Text} {n : Int} (h : splitPower s = some (n, rest)) :
    rest.length < s.length := by
  unfold splitPower at h
  split at h <;>
    · simp only [Option.map_eq_some_iff, Prod.exists, Prod.mk.injEq] at h
      obtain ⟨ds, rest', h, -, rfl⟩ := h
      have := splitDigits_shorter h
      simp; omega

theorem splitExponent_length_le {s rest : Text} {n : Option Int} (h : splitExponent s = some (n, rest)) :
    rest.length ≤ s.length := by
  unfold splitExponent at h
  split at h
  · simp only [Option.map_eq_some_iff, Prod.exists, Prod.mk.injEq] at h
    obtain ⟨k, rest', h, -, rfl⟩ := h
    have := splitPower_shorter h
    simp; omega
  · simp only [Option.map_eq_some_iff, Prod.exists, Prod.mk.injEq] at h
    obtain ⟨k, rest', h, -, rfl⟩ := h
    have := splitPower_shorter h
    simp; omega
  · cases h; exact Nat.le_refl _

theorem read_shorter {s rest : Text} {x : Numeral} (h : read s = some (x, rest)) : rest.length < s.length := by
  simp only [read, Option.bind_eq_bind, Option.bind_eq_some_iff, Option.pure_def, Option.some.injEq, Prod.exists,
    Prod.mk.injEq] at h
  obtain ⟨whole, s₁, h₁, fraction, s₂, h₂, exponent, s₃, h₃, -, rfl⟩ := h
  have := splitSign_length_le s
  have := splitWhole_shorter h₁
  have := splitFraction_length_le h₂
  have := splitExponent_length_le h₃
  omega

end Numeral

end MailMerge.Number
