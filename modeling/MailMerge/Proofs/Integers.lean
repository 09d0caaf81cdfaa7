/-
  MailMerge.Proofs.Integers — integers as text.

  The digits of a number stand for it (`ofDigits_digits`), and only zero has a leading zero
  (`head_digits`). So an integer in decimal is one numeral, as long as what follows does not
  continue it (`read_ofInt`), and as its magnitude fits in the significand, that numeral has the
  integer as its value: `value_ofInt64`, from the least to the greatest of the 64-bit integers.
-/

import MailMerge.Number.Layout
import MailMerge.Number.Numeral
import MailMerge.Proofs.Words

namespace MailMerge.Number

/-! ## Digits -/

theorem isDigit_of_mem_digits {n : Nat} {c : Char} (h : c ∈ digits n) : c.isDigit = true :=
  Nat.isDigit_of_mem_toDigits (by decide) (by decide) h

theorem digits_ne_nil (n : Nat) : digits n ≠ [] := Nat.toDigits_ne_nil

theorem head?_digits_append (n : Nat) (rest : Text) : (digits n ++ rest).head? = (digits n).head? := by
  rw [List.head?_append, List.head?_eq_some_head (digits_ne_nil n)]
  rfl

/-- The digits of a number that is not zero do not begin with a zero. -/
theorem head_digits {n : Nat} (hn : 0 < n) : ∀ c ∈ (digits n).head?, c ≠ '0' := by
  induction n using Nat.strongRecOn with
  | ind n ih =>
    intro c hc
    rw [digits, Nat.toDigits_eq_if (by decide)] at hc
    split at hc
    · rename_i hlt
      cases hc
      rw [ne_eq, Nat.digitChar_eq_zero]
      omega
    · rename_i hge
      have hfirst : c ∈ (digits (n / 10)).head? := by
        rwa [← head?_digits_append _ [Nat.digitChar (n % 10)]]
      exact ih (n / 10) (by omega) (by omega) c hfirst

theorem isDigit_of_mem_ofInt {n : Int} {c : Char} (h : c ∈ ofInt n) : c.isDigit = true ∨ c = '-' := by
  rw [ofInt] at h
  split at h
  · exact (List.mem_cons.mp h).symm.imp_left isDigit_of_mem_digits
  · exact Or.inl (isDigit_of_mem_digits h)

theorem ofInt_ne_nil (n : Int) : ofInt n ≠ [] := by
  rw [ofInt]
  split
  · exact List.cons_ne_nil _ _
  · exact digits_ne_nil _

theorem isBlank_of_mem_ofInt {n : Int} {c : Char} (h : c ∈ ofInt n) : Text.isBlank c = false := by
  rcases isDigit_of_mem_ofInt h with hdigit | rfl
  · have hrange : (decide ('0'.val ≤ c.val) && decide (c.val ≤ '9'.val)) = true := hdigit
    simp only [Bool.and_eq_true, decide_eq_true_eq, UInt32.le_iff_toNat_le] at hrange
    have hascii : c.toNat < 0x80 := Nat.lt_of_le_of_lt hrange.2 (by decide)
    have hname : Text.isNameChar c = true := by
      rw [Text.isNameChar, Text.isNumeral_of_ascii hascii, hdigit, Bool.or_true, Bool.true_or]
    exact Text.isBlank_of_isNameChar hname
  · decide

namespace Numeral

theorem ofDigits_digits (n : Nat) : ofDigits (digits n) = n := by
  have hvalue : Nat.ofDigitChars 10 (digits n) 0 = n := Nat.ofDigitChars_toDigits (by decide) (by decide)
  simpa only [Nat.ofDigitChars, ofDigits, digit, Nat.mul_comm 10] using hvalue

/-- Digits before the end, or before a character that is not one. -/
theorem splitDigits_append {ds rest : Text} (hne : ds ≠ []) (hds : ∀ c ∈ ds, c.isDigit = true)
    (hrest : ∀ c ∈ rest.head?, c.isDigit = false) : splitDigits (ds ++ rest) = some (ds, rest) := by
  rw [splitDigits, Text.takeWhile_exact hds hrest, Text.dropWhile_exact hds hrest]
  cases ds with
  | nil => exact absurd rfl hne
  | cons c ds => rfl

theorem splitWhole_digits (n : Nat) {rest : Text} (hrest : ∀ c ∈ rest.head?, c.isDigit = false) :
    splitWhole (digits n ++ rest) = some (digits n, rest) := by
  rcases Nat.eq_zero_or_pos n with rfl | hn
  · rfl
  · unfold splitWhole
    split
    · rename_i heq
      have hhead : '0' ∈ (digits n).head? := by
        rw [← head?_digits_append, heq]
        rfl
      exact absurd rfl (head_digits hn '0' hhead)
    · exact splitDigits_append (digits_ne_nil n) (fun _ => isDigit_of_mem_digits) hrest

/-! ## Numerals -/

/-- The character can continue a numeral that is an integer. -/
def continues (c : Char) : Bool := c.isDigit || c == '.' || c == 'e' || c == 'E'

/-- The text is empty, or begins with a character that continues no numeral. -/
def Stops (rest : Text) : Prop := ∀ c ∈ rest.head?, continues c = false

theorem stops_nil : Stops [] := fun _ hc => nomatch hc

theorem stops_cons {c : Char} (rest : Text) (hc : continues c = false) : Stops (c :: rest) := by
  intro d hd
  cases hd
  exact hc

theorem splitFraction_of_stops {rest : Text} (h : Stops rest) : splitFraction rest = some ([], rest) := by
  unfold splitFraction
  split
  · exact absurd (h '.' rfl) (by decide)
  · rfl

theorem splitExponent_of_stops {rest : Text} (h : Stops rest) : splitExponent rest = some (none, rest) := by
  unfold splitExponent
  split
  · exact absurd (h 'e' rfl) (by decide)
  · exact absurd (h 'E' rfl) (by decide)
  · rfl

/-- The numeral that an integer is written as. -/
def ofInt (n : Int) : Numeral := ⟨decide (n < 0), digits n.natAbs, [], none⟩

theorem splitSign_ofInt (n : Int) (rest : Text) :
    splitSign (Number.ofInt n ++ rest) = (decide (n < 0), digits n.natAbs ++ rest) := by
  rw [Number.ofInt]
  split
  · rename_i hn
    simp [splitSign, hn]
  · rename_i hn
    rw [decide_eq_false hn]
    unfold splitSign
    split
    · rename_i heq
      have hhead : '-' ∈ (digits n.natAbs).head? := by
        rw [← head?_digits_append, heq]
        rfl
      exact absurd (isDigit_of_mem_digits (List.mem_of_head? hhead)) (by decide)
    · rfl

theorem read_ofInt (n : Int) {rest : Text} (h : Stops rest) : read (Number.ofInt n ++ rest) = some (ofInt n, rest) := by
  have hdigit : ∀ c ∈ rest.head?, c.isDigit = false := by
    intro c hc
    have hstop := h c hc
    simp only [continues, Bool.or_eq_false_iff] at hstop
    exact hstop.1.1.1
  simp [read, splitSign_ofInt, splitWhole_digits _ hdigit, splitFraction_of_stops h, splitExponent_of_stops h, ofInt]

/-! ## Values -/

theorem le_foldl_digit (n : Nat) (ds : Text) : n ≤ ds.foldl (fun n c => n * 10 + digit c) n := by
  induction ds generalizing n with
  | nil => exact Nat.le_refl n
  | cons c ds ih => exact Nat.le_trans (by omega) (ih (n * 10 + digit c))

/-- Digits that fit in the significand are all gathered. -/
theorem gather_of_fits {n : Nat} {ds : Text} (h : ds.foldl (fun n c => n * 10 + digit c) n < UInt64.size) :
    gather n ds = (ds.foldl (fun n c => n * 10 + digit c) n, []) := by
  induction ds generalizing n with
  | nil => rfl
  | cons c ds ih =>
    have hfits : n * 10 + digit c < UInt64.size := Nat.lt_of_le_of_lt (le_foldl_digit _ ds) h
    rw [gather, if_pos hfits]
    exact ih h

theorem gather_digits {n : Nat} (h : n < UInt64.size) : gather 0 (digits n) = (n, []) := by
  have hvalue : (digits n).foldl (fun n c => n * 10 + digit c) 0 = n := ofDigits_digits n
  rw [gather_of_fits (by rwa [hvalue]), hvalue]

end Numeral

/-- The number that an integer is given as. -/
def Literal.ofInt64 (n : Int64) : Literal := if n.toInt < 0 then .neg n else .nat (.ofNat n.toInt.natAbs)

theorem Numeral.value_ofInt64 (n : Int64) : (Numeral.ofInt n.toInt).value = some (.ofInt64 n) := by
  have hleast := n.le_toInt
  have hgreatest := n.toInt_lt
  have hgather : gather 0 (digits n.toInt.natAbs) = (n.toInt.natAbs, []) :=
    gather_digits (Nat.lt_of_le_of_lt (m := 2 ^ 63) (by omega) (by decide))
  simp only [value, ofInt, hgather, Literal.ofInt64, List.isEmpty_nil, Option.isNone_none, Bool.and_self, if_true]
  by_cases hn : n.toInt < 0
  · have hback : Int64.ofInt (-(n.toInt.natAbs : Int)) = n := by
      rw [show -(n.toInt.natAbs : Int) = n.toInt by omega, Int64.ofInt_toInt]
    have hrange : ¬(n.toInt.natAbs = 0 ∨ 0x8000000000000000 < n.toInt.natAbs) := by omega
    rw [decide_eq_true hn, Bool.not_true, if_neg Bool.false_ne_true, if_neg hrange, hback, if_pos hn]
  · rw [decide_eq_false hn, Bool.not_false, if_pos rfl, if_neg hn]

end MailMerge.Number
