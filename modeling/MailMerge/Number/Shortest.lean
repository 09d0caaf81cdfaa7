/-
  MailMerge.Number.Shortest — the shortest decimal that reads back as a given double.

  A decimal `c * 10 ^ e` reads back as a magnitude when the magnitude is the nearest one to
  it. `shortest` tries the grids of the multiples of `10 ^ e` from coarse to fine, beginning
  at the leading digit of the value, and on each the two neighbours of the value: the first
  grid with a neighbour that reads back has the fewest digits, and of two such neighbours
  the nearer is taken. Of two neighbours equally near either may be wanted: `Tie` says which.
  Seventeen digits always read back, so the search ends.
-/

import MailMerge.Number.Decimal

namespace MailMerge.Number

/-- Which of two equally near neighbours is taken. -/
inductive Tie
  | even
  | up
  deriving DecidableEq, Repr

namespace Decimal

/-- The exponent of the leading digit of a finite magnitude that is not zero. -/
def leading (m : Nat) : Int :=
  (Nat.toDigits 10 ((Double.units m * tenTo 340) >>> 1074)).length - 341

/-- The better neighbour of the value on the grid of multiples of `10 ^ exponent`, of those that
    read back. -/
def onGrid? (tie : Tie) (m : Nat) (exponent : Int) : Option Decimal :=
  let num := Double.units m * tenTo (-exponent).toNat
  let den := tenTo exponent.toNat <<< 1074
  let rest := num % den
  let low : Decimal := ⟨num / den, exponent⟩
  let high : Decimal := ⟨num / den + 1, exponent⟩
  match low.magnitude == m, high.magnitude == m with
  | true, true =>
    if 2 * rest < den then some low
    else if den < 2 * rest then some high
    else match tie with
      | .even => some ⟨num / den + num / den % 2, exponent⟩
      | .up => some high
  | true, false => some low
  | false, true => some high
  | false, false => none

/-- The shortest decimal that reads back as the magnitude, finite and not zero. -/
def shortest (tie : Tie) (m : Nat) : Decimal :=
  let top := leading m
  ((List.range 17).findSome? fun digits : Nat => onGrid? tie m (top - digits)).getD ⟨0, 0⟩

end Decimal

end MailMerge.Number
