/-
  MailMerge.Number.Layout — the written form of numbers.

  A double is written with its shortest digits. From `1e-5` to below `1e16`, and for zero,
  they stand around a point with at least one digit on each side; outside that range one
  digit stands before the point, and a power of ten follows. What differs between the two
  uses is one `Layout` each: `plain` for output, `json` for the text of lists and maps.
-/

import MailMerge.Number.Shortest
import MailMerge.Text.Blank

namespace MailMerge.Number

/-- The choices in writing a double. -/
structure Layout where
  tie : Tie
  /-- What marks a positive power of ten. -/
  plus : Text
  nan : Text
  infinity : Text
  negativeInfinity : Text

/-- A power of ten carries only a minus sign, and a tie goes up. -/
def Layout.plain : Layout := ⟨.up, [], "NaN".toList, "inf".toList, "-inf".toList⟩

/-- A power of ten always carries its sign, a tie goes to the even digit, and JSON has no NaN and no infinity. -/
def Layout.json : Layout := ⟨.even, ['+'], "null".toList, "null".toList, "null".toList⟩

/-- The decimal digits of a natural number. -/
def digits (n : Nat) : Text := Nat.toDigits 10 n

/-- A whole number, with a minus sign when it is negative. -/
def ofInt (n : Int) : Text := if n < 0 then '-' :: digits n.natAbs else digits n.natAbs

/-- Digits around a point that stands after the digit of `10 ^ 0`; the first digit is that of
    `10 ^ point`. -/
def positional (ds : Text) (point : Int) : Text :=
  if point < 0 then '0' :: '.' :: (List.replicate (-point - 1).toNat '0' ++ ds)
  else
    let count := point.toNat + 1
    let fraction := ds.drop count
    ds.take count ++ List.replicate (count - ds.length) '0' ++ '.' :: (if fraction.isEmpty then ['0'] else fraction)

/-- One digit before the point, and a power of ten. -/
def scientific (plus : Text) (ds : Text) (point : Int) : Text :=
  let fraction := ds.drop 1
  ds.take 1 ++ (if fraction.isEmpty then [] else '.' :: fraction) ++ 'e' :: (if point < 0 then [] else plus) ++ ofInt point

/-- The text of a finite magnitude. -/
def Layout.ofMagnitude (layout : Layout) (m : Nat) : Text :=
  if m = 0 then "0.0".toList
  else
    let d := Decimal.shortest layout.tie m
    let all := digits d.coefficient
    let point := d.exponent + all.length - 1
    let ds := (all.reverse.dropWhile (· == '0')).reverse
    if -5 ≤ point ∧ point < 16 then positional ds point else scientific layout.plus ds point

/-- The text of a double. -/
def Layout.write (layout : Layout) (x : Double) : Text :=
  if x.isNaN then layout.nan
  else if x.isFinite then
    if x.negative then '-' :: layout.ofMagnitude x.magnitude else layout.ofMagnitude x.magnitude
  else if x.negative then layout.negativeInfinity
  else layout.infinity

end MailMerge.Number
