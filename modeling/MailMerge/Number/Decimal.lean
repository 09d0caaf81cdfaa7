/-
  MailMerge.Number.Decimal — decimals, and the doubles nearest to them.
-/

import MailMerge.Number.Double

namespace MailMerge.Number

/-- The power of ten. -/
def tenTo (n : Nat) : Nat := Nat.pow 10 n

/-- The nonnegative decimal `coefficient * 10 ^ exponent`. -/
structure Decimal where
  coefficient : Nat
  exponent : Int
  deriving DecidableEq, Repr

/-- The magnitude nearest to the decimal: the one that it reads back as. -/
def Decimal.magnitude (d : Decimal) : Nat :=
  if 0 ≤ d.exponent then Double.nearest (d.coefficient * tenTo d.exponent.toNat) 1
  else Double.nearest d.coefficient (tenTo (-d.exponent).toNat)

end MailMerge.Number
