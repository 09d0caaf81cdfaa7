/-
  MailMerge.Proofs.Rounding — where integers go when they are rounded to doubles.

  The magnitude of an integer that is not zero is one of `fractions` for its power of two, and in
  it the place of the rounded significand (`nearest_one`). Rounding keeps the order of the integers
  (`place_le_place`), and keeps apart any two of which one is below `2 ^ 53` (`place_lt_place`).
-/

import MailMerge.Number.Double

namespace MailMerge.Double

/-! ## Rounding a quotient -/

theorem div_le_roundEven (num den : Nat) : num / den ≤ roundEven num den := by
  simp only [roundEven]
  split
  · exact Nat.le_refl _
  · split <;> omega

theorem roundEven_le (num den : Nat) : roundEven num den ≤ num / den + 1 := by
  simp only [roundEven]
  split
  · omega
  · split <;> omega

theorem roundEven_mono {a b : Nat} (den : Nat) (h : a ≤ b) : roundEven a den ≤ roundEven b den := by
  rcases Nat.lt_or_eq_of_le (Nat.div_le_div_right (c := den) h) with hlt | heq
  · have := roundEven_le a den
    have := div_le_roundEven b den
    omega
  · have hrest : a % den ≤ b % den := by
      have ha := Nat.div_add_mod a den
      have hb := Nat.div_add_mod b den
      rw [heq] at ha
      omega
    simp only [roundEven, heq]
    repeat' split
    all_goals omega

theorem roundEven_mul_right (num den : Nat) {c : Nat} (hc : 0 < c) :
    roundEven (num * c) (den * c) = roundEven num den := by
  have hlow : (2 * (num % den * c) < den * c) = (2 * (num % den) < den) := by
    rw [← Nat.mul_assoc, Nat.mul_lt_mul_right hc]
  have hhigh : (den * c < 2 * (num % den * c)) = (den < 2 * (num % den)) := by
    rw [← Nat.mul_assoc, Nat.mul_lt_mul_right hc]
  simp only [roundEven, Nat.mul_div_mul_right _ _ hc, Nat.mul_mod_mul_right, hlow, hhigh]

theorem roundEven_mul (q : Nat) {den : Nat} (hden : 0 < den) : roundEven (q * den) den = q := by
  rw [roundEven, Nat.mul_mod_left, Nat.mul_div_cancel _ hden]
  exact if_pos hden

/-! ## Rounding an integer -/

/-- The 53 bits that an integer is rounded to, the first of them set; or `2 ^ 53`, when rounding carries. -/
def significand (n : Nat) : Nat := roundEven (n * fractions) (1 <<< n.log2)

theorem fractions_le_significand {n : Nat} (hn : n ≠ 0) : fractions ≤ significand n := by
  refine Nat.le_trans ?_ (div_le_roundEven _ _)
  rw [Nat.one_shiftLeft, Nat.le_div_iff_mul_le (Nat.two_pow_pos _), Nat.mul_comm]
  exact Nat.mul_le_mul_right _ (Nat.log2_self_le hn)

theorem significand_le (n : Nat) : significand n ≤ 2 * fractions := by
  rw [significand, Nat.one_shiftLeft]
  refine Nat.le_trans (roundEven_mono _ ?_) (Nat.le_of_eq (roundEven_mul _ (Nat.two_pow_pos n.log2)))
  have hn : n < 2 ^ (n.log2 + 1) := Nat.lt_log2_self
  rw [Nat.mul_comm 2, Nat.mul_assoc, ← Nat.pow_succ', Nat.mul_comm fractions]
  exact Nat.mul_le_mul_right _ (Nat.le_of_lt hn)

/-- An integer of at most 53 bits is not rounded. -/
theorem significand_of_lt {n : Nat} (h : n.log2 ≤ 52) : significand n = n <<< (52 - n.log2) := by
  have hsplit : fractions = 2 ^ (52 - n.log2) * 2 ^ n.log2 := by
    rw [← Nat.pow_add, Nat.sub_add_cancel h]
    rfl
  rw [significand, hsplit, Nat.one_shiftLeft, ← Nat.mul_assoc, roundEven_mul _ (Nat.two_pow_pos _), Nat.shiftLeft_eq]

theorem log2_shiftLeft {n : Nat} (hn : n ≠ 0) (t : Nat) : (n <<< t).log2 = n.log2 + t := by
  rw [Nat.shiftLeft_eq, Nat.log2_eq_iff (Nat.mul_ne_zero hn (Nat.ne_of_gt (Nat.two_pow_pos t)))]
  constructor
  · rw [Nat.pow_add]
    exact Nat.mul_le_mul_right _ (Nat.log2_self_le hn)
  · rw [Nat.add_right_comm, Nat.pow_add]
    exact (Nat.mul_lt_mul_right (Nat.two_pow_pos t)).mpr Nat.lt_log2_self

theorem roundEven_shiftLeft (n t : Nat) : roundEven (n <<< (52 + t)) (1 <<< (n.log2 + t)) = significand n := by
  rw [Nat.shiftLeft_eq, Nat.one_shiftLeft, Nat.pow_add, Nat.pow_add, ← Nat.mul_assoc,
    roundEven_mul_right _ _ (Nat.two_pow_pos t), significand, Nat.one_shiftLeft]
  rfl

/-- The magnitude of an integer other than zero, were there no largest exponent. -/
def grade (n : Nat) : Nat := (n.log2 + 1022) * fractions + significand n

theorem nearest_one {n : Nat} (hn : n ≠ 0) : nearest n 1 = min infinity (grade n) := by
  rw [nearest, Nat.div_one, log2_shiftLeft hn, show n.log2 + 1074 - 52 = n.log2 + 1022 by omega]
  exact congrArg (fun s => min infinity ((n.log2 + 1022) * fractions + s)) (roundEven_shiftLeft n 1022)

theorem nearest_zero : nearest 0 1 = 0 := by decide +kernel

theorem nearest_le_infinity (num den : Nat) : nearest num den ≤ infinity := Nat.min_le_left _ _

example : nearest (1 <<< 1024) 1 = infinity ∧ nearest 1 (1 <<< 1075) = 0 := by decide +kernel

theorem log2_le_log2 {m n : Nat} (hm : m ≠ 0) (h : m ≤ n) : m.log2 ≤ n.log2 :=
  (Nat.le_log2 (by omega)).mpr (Nat.le_trans (Nat.log2_self_le hm) h)

/-- Rounding carries at most to the first significand of the next power of two. -/
theorem grade_le_grade {m n : Nat} (hm : m ≠ 0) (h : m ≤ n) : grade m ≤ grade n := by
  rcases Nat.lt_or_eq_of_le (log2_le_log2 hm h) with hlt | heq
  · have hcarry := significand_le m
    have hfirst := fractions_le_significand (n := n) (by omega)
    unfold grade fractions at *
    omega
  · rw [grade, grade, significand, significand, heq]
    exact Nat.add_le_add_left (roundEven_mono _ (Nat.mul_le_mul_right _ h)) _

theorem significand_lt {n : Nat} (h : n.log2 ≤ 52) : significand n < 2 * fractions := by
  rw [significand_of_lt h, Nat.shiftLeft_eq]
  calc n * 2 ^ (52 - n.log2) < 2 ^ (n.log2 + 1) * 2 ^ (52 - n.log2) :=
        (Nat.mul_lt_mul_right (Nat.two_pow_pos _)).mpr Nat.lt_log2_self
    _ = 2 * fractions := by
        rw [← Nat.pow_add, show n.log2 + 1 + (52 - n.log2) = 53 by omega]
        rfl

theorem grade_lt_grade {m n : Nat} (hm : m ≠ 0) (hexact : m.log2 ≤ 52) (h : m < n) : grade m < grade n := by
  rcases Nat.lt_or_eq_of_le (log2_le_log2 hm (Nat.le_of_lt h)) with hlt | heq
  · have hcarry := significand_lt hexact
    have hfirst := fractions_le_significand (n := n) (by omega)
    unfold grade fractions at *
    omega
  · rw [grade, grade, significand_of_lt hexact, significand_of_lt (heq ▸ hexact), heq, Nat.shiftLeft_eq,
      Nat.shiftLeft_eq]
    exact Nat.add_lt_add_left ((Nat.mul_lt_mul_right (Nat.two_pow_pos _)).mpr h) _

theorem grade_lt_infinity {n : Nat} (h : n.log2 ≤ 52) : grade n < infinity := by
  have := significand_lt h
  unfold grade infinity fractions at *
  omega

theorem nearest_one_le {m n : Nat} (h : m ≤ n) : nearest m 1 ≤ nearest n 1 := by
  by_cases hm : m = 0
  · rw [hm, nearest_zero]
    exact Nat.zero_le _
  · have := grade_le_grade hm h
    rw [nearest_one hm, nearest_one (by omega)]
    omega

theorem nearest_one_lt {m n : Nat} (hsmall : m < 1 <<< 53) (h : m < n) : nearest m 1 < nearest n 1 := by
  have hn : n ≠ 0 := by omega
  by_cases hm : m = 0
  · have hpos := fractions_le_significand hn
    rw [hm, nearest_zero, nearest_one hn]
    unfold grade infinity fractions at *
    omega
  · have hexact : m.log2 ≤ 52 := Nat.le_of_lt_succ ((Nat.log2_lt hm).mpr hsmall)
    have hless := grade_lt_grade hm hexact h
    have hfinite := grade_lt_infinity hexact
    rw [nearest_one hm, nearest_one hn]
    omega

/-! ## Integers on the number line -/

/-- The rank of the double that an integer is rounded to. -/
def place (n : Int) : Int := if n < 0 then -(nearest n.natAbs 1 : Int) else nearest n.natAbs 1

theorem toNat_ofMagnitude (s : Bool) {m : Nat} (hm : m < signBit) :
    (ofMagnitude s m).bits.toNat = (if s then signBit else 0) + m := by
  refine UInt64.toNat_ofNat_of_lt' ?_
  simp only [signBit] at hm ⊢
  split <;> simp only [UInt64.size] <;> omega

theorem magnitude_ofMagnitude (s : Bool) {m : Nat} (hm : m < signBit) : (ofMagnitude s m).magnitude = m := by
  rw [magnitude, toNat_ofMagnitude s hm]
  cases s
  · simp only [Bool.false_eq_true, if_false, Nat.zero_add, Nat.mod_eq_of_lt hm]
  · simp only [if_true, Nat.add_mod_left, Nat.mod_eq_of_lt hm]

theorem negative_ofMagnitude (s : Bool) {m : Nat} (hm : m < signBit) : (ofMagnitude s m).negative = s := by
  rw [negative, toNat_ofMagnitude s hm]
  cases s
  · exact decide_eq_false (by simpa using hm)
  · exact decide_eq_true (by simp)

theorem rank?_ofInt (n : Int) : (ofInt n).rank? = some (place n) := by
  have hle : nearest n.natAbs 1 ≤ infinity := nearest_le_infinity _ _
  have hfits : nearest n.natAbs 1 < signBit := Nat.lt_of_le_of_lt hle (by decide)
  have hnumber : (ofInt n).isNaN = false := by
    rw [isNaN, ofInt, magnitude_ofMagnitude _ hfits]
    exact decide_eq_false (Nat.not_lt.mpr hle)
  rw [rank?, hnumber, ofInt, magnitude_ofMagnitude _ hfits, negative_ofMagnitude _ hfits]
  simp only [Bool.false_eq_true, if_false, decide_eq_true_eq, place]

theorem place_le_place {m n : Int} (h : m ≤ n) : place m ≤ place n := by
  unfold place
  split <;> split
  · have := nearest_one_le (m := n.natAbs) (n := m.natAbs) (by omega)
    omega
  · omega
  · omega
  · have := nearest_one_le (m := m.natAbs) (n := n.natAbs) (by omega)
    omega

/-- An integer below `2 ^ 53` keeps clear of every other. -/
theorem place_lt_place {m n : Int} (h : m < n) (hsmall : m.natAbs < 1 <<< 53 ∨ n.natAbs < 1 <<< 53) :
    place m < place n := by
  unfold place
  split <;> split
  · have := nearest_one_lt (m := n.natAbs) (n := m.natAbs) (by omega) (by omega)
    omega
  · have := nearest_one_lt (m := 0) (n := m.natAbs) (by decide) (by omega)
    omega
  · omega
  · have := nearest_one_lt (m := m.natAbs) (n := n.natAbs) (by omega) (by omega)
    omega

theorem natAbs_ge_of_place_eq {m n : Int} (hne : m ≠ n) (h : place m = place n) :
    1 <<< 53 ≤ m.natAbs ∧ 1 <<< 53 ≤ n.natAbs := by
  refine ⟨Nat.not_lt.mp fun hm => ?_, Nat.not_lt.mp fun hn => ?_⟩
  · rcases Int.lt_or_gt_of_ne hne with hlt | hgt
    · have := place_lt_place hlt (Or.inl hm)
      omega
    · have := place_lt_place hgt (Or.inr hm)
      omega
  · rcases Int.lt_or_gt_of_ne hne with hlt | hgt
    · have := place_lt_place hlt (Or.inr hn)
      omega
    · have := place_lt_place hgt (Or.inl hn)
      omega

/-- From there on two integers may be one double, as 2⁵³ and its successor are. -/
example : place 0x20000000000000 = place 0x20000000000001 := by decide +kernel

end MailMerge.Double
