/-
  MailMerge.Proofs.Matching — which parenthesis closes one, by counting.

  `Quotes.surplus` is by how much a text opens more parentheses than it closes, outside quotations.
  A search that has `depth` parentheses to close stops at the first closing one that brings the
  surplus below `-depth` (`closing?_iff_surplus`).

  Proved:
  - `balanced_iff_surplus`: a text is balanced exactly when it ends outside quotations, has surplus
    zero, and none of its beginnings has a negative one.
  - `matchFrom_succ`: with a parenthesis open, the count is never taken below zero, and the search
    by places ends where `closing?` cuts.
  - `matching_exact`: the search from an opening parenthesis gives the one place at which that
    parenthesis is closed (`Paired`), and none exactly when there is no such place.
-/

import MailMerge.Expr.Matching
import MailMerge.Proofs.ExprRules
import MailMerge.Proofs.Parentheses

namespace MailMerge

/-! ## Pieces of a text -/

namespace Text

theorem eq_nil_of_bytes {s : Text} (h : bytes s = 0) : s = [] := by
  cases s with
  | nil => rfl
  | cons c s =>
    have := c.utf8Size_pos
    rw [bytes_cons] at h
    omega

/-- Two ways to split a text at one byte are the same. -/
theorem append_inj_of_bytes {a b c d : Text} (h : a ++ b = c ++ d) (hbytes : bytes a = bytes c) : a = c ∧ b = d := by
  induction a generalizing c with
  | nil =>
    obtain rfl := eq_nil_of_bytes hbytes.symm
    exact ⟨rfl, h⟩
  | cons x a ih =>
    cases c with
    | nil => cases eq_nil_of_bytes hbytes
    | cons y c =>
      obtain ⟨rfl, htail⟩ := List.cons.inj h
      obtain ⟨rfl, rfl⟩ := ih htail (Nat.add_left_cancel hbytes)
      exact ⟨rfl, rfl⟩

/-- From byte `a` up to byte `b`, both boundaries of characters, the text is `u`. -/
def Slice (s : Text) (a b : Nat) (u : Text) : Prop :=
  ∃ before after, s = before ++ (u ++ after) ∧ bytes before = a ∧ bytes before + bytes u = b

theorem Slice.unique {s u u' : Text} {a b : Nat} (h : Slice s a b u) (h' : Slice s a b u') : u = u' := by
  obtain ⟨x, y, hs, hx, hu⟩ := h
  obtain ⟨x', y', hs', hx', hu'⟩ := h'
  rw [hs] at hs'
  obtain ⟨-, hrest⟩ := append_inj_of_bytes hs' (hx.trans hx'.symm)
  exact (append_inj_of_bytes hrest (by omega)).1

theorem slice_append (before u after : Text) :
    Slice (before ++ (u ++ after)) (bytes before) (bytes before + bytes u) u := ⟨before, after, rfl, rfl, rfl⟩

/-- From a boundary on, a slice is the beginning of what follows. -/
theorem slice_append_iff {x y u : Text} {b : Nat} :
    Slice (x ++ y) (bytes x) b u ↔ u <+: y ∧ bytes x + bytes u = b := by
  constructor
  · intro h
    obtain ⟨before, after, hs, hbefore, hb⟩ := h
    obtain ⟨rfl, rfl⟩ := append_inj_of_bytes hs hbefore.symm
    exact ⟨List.prefix_append u after, hb⟩
  · intro h
    obtain ⟨⟨after, rfl⟩, rfl⟩ := h
    exact slice_append x u after

theorem slice_front_iff {s x : Text} {b : Nat} : Slice s 0 b x ↔ x <+: s ∧ bytes x = b := by
  have h : Slice ([] ++ s) (bytes []) b x ↔ x <+: s ∧ bytes [] + bytes x = b := slice_append_iff
  simpa using h

end Text

namespace Quotes

/-! ## Open parentheses -/

/-- What the character adds to the number of open parentheses. -/
def weight (q : Quotes) (c : Char) : Int := if q.covers c then 0 else if c = '(' then 1 else if c = ')' then -1 else 0

/-- How many more parentheses the text opens than it closes, outside quotations. -/
def surplus (q : Quotes) : Text → Int
  | [] => 0
  | c :: s => q.weight c + (q.next c).surplus s

@[simp] theorem surplus_nil (q : Quotes) : q.surplus [] = 0 := rfl

@[simp] theorem surplus_cons (q : Quotes) (c : Char) (s : Text) :
    q.surplus (c :: s) = q.weight c + (q.next c).surplus s := rfl

theorem covers_close_iff {q : Quotes} : q.covers ')' = false ↔ q = .outside := by
  cases q <;> decide

end Quotes

namespace Call

/-! ## The search by counting -/

/-- One character of the search: it is where the search stops, or the search goes on with as many
    open parentheses as the character leaves. -/
theorem closing?_cons (q : Quotes) (depth : Nat) (c : Char) (s : Text) :
    (q = .outside ∧ c = ')' ∧ depth = 0 ∧ closing? q depth (c :: s) = some ([], s)) ∨
      ∃ left : Nat, (left : Int) = depth + q.weight c ∧
        closing? q depth (c :: s) = (closing? (q.next c) left s).map fun (inner, rest) => (c :: inner, rest) := by
  by_cases hcover : q.covers c = true
  · exact Or.inr ⟨depth, by simp [Quotes.weight, hcover], by simp [closing?, hcover]⟩
  by_cases hopen : c = '('
  · subst hopen
    exact Or.inr ⟨depth + 1, by simp [Quotes.weight, hcover], by simp [closing?, hcover]⟩
  by_cases hclose : c = ')'
  · subst hclose
    cases depth with
    | zero =>
      have hq := Quotes.covers_close_iff.mp (Bool.eq_false_iff.mpr hcover)
      exact Or.inl ⟨hq, rfl, rfl, by simp [closing?, hcover]⟩
    | succ depth =>
      have hweight : q.weight ')' = -1 := by simp [Quotes.weight, hcover]
      exact Or.inr ⟨depth, by omega, by simp [closing?, hcover]⟩
  · exact Or.inr ⟨depth, by simp [Quotes.weight, hcover, hopen, hclose], by simp [closing?, hcover, hopen, hclose]⟩

/-- The search stops at the first closing parenthesis that is one too many. -/
theorem closing?_iff_surplus {q : Quotes} {depth : Nat} {s inner rest : Text} :
    closing? q depth s = some (inner, rest) ↔ s = inner ++ ')' :: rest ∧ q.after inner = .outside ∧
      q.surplus inner = -depth ∧ ∀ x, x <+: inner → -depth ≤ q.surplus x := by
  induction s generalizing q depth inner with
  | nil => exact iff_of_false (by simp [closing?]) (by simp)
  | cons c s ih =>
    rcases closing?_cons q depth c s with ⟨rfl, rfl, rfl, hstop⟩ | ⟨left, hleft, hlater⟩
    · rw [hstop]
      constructor
      · intro h
        cases h
        exact ⟨rfl, rfl, rfl, fun x hx => by rw [List.prefix_nil.mp hx]; simp⟩
      · intro h
        obtain ⟨hs, -, -, hfront⟩ := h
        cases inner with
        | nil => rw [(List.cons.inj hs).2]
        | cons d inner =>
          -- Otherwise the parenthesis would be inside, where the count does not fall below zero.
          obtain ⟨rfl, -⟩ := List.cons.inj hs
          exact absurd (hfront [')'] ⟨inner, rfl⟩) (by decide)
    · rw [hlater]
      simp only [Option.map_eq_some_iff, Prod.exists, Prod.mk.injEq]
      constructor
      · intro h
        obtain ⟨inner', _, h, rfl, rfl⟩ := h
        obtain ⟨rfl, hend, hsum, hfront⟩ := ih.mp h
        refine ⟨rfl, hend, by rw [Quotes.surplus_cons]; omega, fun x hx => ?_⟩
        cases x with
        | nil => simp
        | cons d x =>
          obtain ⟨rfl, hx'⟩ := List.cons_prefix_cons.mp hx
          have := hfront x hx'
          rw [Quotes.surplus_cons]
          omega
      · intro h
        obtain ⟨hs, hend, hsum, hfront⟩ := h
        cases inner with
        | nil =>
          -- The character would close a parenthesis of which there is none left.
          obtain ⟨rfl, -⟩ := List.cons.inj hs
          obtain rfl : q = .outside := hend
          have hweight : Quotes.weight .outside ')' = -1 := rfl
          rw [Quotes.surplus_nil] at hsum
          omega
        | cons d inner =>
          obtain ⟨rfl, hs'⟩ := List.cons.inj hs
          rw [Quotes.surplus_cons] at hsum
          refine ⟨inner, rest, ih.mpr ⟨hs', hend, by omega, fun x hx => ?_⟩, rfl, rfl⟩
          have := hfront (c :: x) (List.cons_prefix_cons.mpr ⟨rfl, hx⟩)
          rw [Quotes.surplus_cons] at this
          omega

/-- With a parenthesis open the count is not taken below zero, and the place that is found is where
    the text is cut. -/
theorem matchFrom_succ (q : Quotes) (depth place : Nat) (s : Text) :
    matchFrom q (depth + 1) place s =
      (closing? q depth s).elim .unclosed fun cut => .closedAt (place + Text.bytes cut.1) := by
  induction s generalizing q depth place with
  | nil => rfl
  | cons c s ih =>
    have later (depth : Nat) : matchFrom (q.next c) (depth + 1) (place + c.utf8Size) s =
        ((closing? (q.next c) depth s).map fun (inner, rest) => (c :: inner, rest)).elim .unclosed
          fun cut => .closedAt (place + Text.bytes cut.1) := by
      rw [ih]
      cases closing? (q.next c) depth s with
      | none => rfl
      | some cut => simp [Nat.add_assoc]
    by_cases hcover : q.covers c = true
    · simp only [matchFrom, closing?, hcover, if_true, later]
    by_cases hopen : c = '('
    · subst hopen
      simp only [matchFrom, closing?, hcover, if_true, if_false, Bool.false_eq_true, later]
    by_cases hclose : c = ')'
    · subst hclose
      cases depth with
      | zero => simp [matchFrom, closing?, hcover]
      | succ depth => simp only [matchFrom, closing?, hcover, hopen, if_true, if_false, Bool.false_eq_true, later]
    · simp only [matchFrom, closing?, hcover, hopen, hclose, if_false, Bool.false_eq_true, later]

end Call

/-- Balanced texts, by counting: no beginning closes more parentheses than it opens. -/
theorem balanced_iff_surplus {s : Text} : Balanced s ↔ Quotes.outside.after s = .outside ∧
    Quotes.outside.surplus s = 0 ∧ ∀ x, x <+: s → 0 ≤ Quotes.outside.surplus x := by
  have hgrammar : Call.closing? .outside 0 (s ++ [')']) = some (s, []) ↔ s ++ [')'] = s ++ ')' :: [] ∧ Balanced s :=
    Call.closing?_eq_some_iff
  rw [Call.closing?_iff_surplus] at hgrammar
  simpa using hgrammar.symm

namespace Call

/-! ## The place that is found -/

/-- The parenthesis at byte `i` closes the one at byte `opening`: what stands between is balanced, and
    no closing parenthesis in it, outside quotations, leaves none open. -/
structure Paired (s : Text) (opening i : Nat) : Prop where
  later : opening < i
  close : Text.Slice s i (i + 1) [')']
  front : ∃ u, Text.Slice s 0 i u
  between : ∃ u, Text.Slice s (opening + 1) i u ∧ Balanced u ∧
    ∀ x y, u = x ++ ')' :: y → Quotes.outside.after x = .outside → 0 < Quotes.outside.surplus ('(' :: (x ++ [')']))

/-- In a balanced text after an opening parenthesis, that parenthesis stays open. -/
theorem surplus_pos {u x y : Text} (hu : Balanced u) (h : u = x ++ ')' :: y) :
    0 < Quotes.outside.surplus ('(' :: (x ++ [')'])) := by
  obtain ⟨-, -, hfront⟩ := balanced_iff_surplus.mp hu
  have hx : 0 ≤ Quotes.outside.surplus (x ++ [')']) := hfront _ ⟨y, by rw [h]; simp⟩
  have hopen : Quotes.outside.surplus ('(' :: (x ++ [')'])) = 1 + Quotes.outside.surplus (x ++ [')']) := rfl
  omega

theorem paired_iff {p rest : Text} {i : Nat} : Paired (p ++ '(' :: rest) (Text.bytes p) i ↔
    ∃ inner after, rest = inner ++ ')' :: after ∧ Balanced inner ∧ i = Text.bytes p + 1 + Text.bytes inner := by
  have hopen : p ++ '(' :: rest = (p ++ ['(']) ++ rest := by simp
  have hbytes : Text.bytes (p ++ ['(']) = Text.bytes p + 1 := Text.bytes_append p ['(']
  rw [hopen, ← hbytes]
  constructor
  · intro h
    obtain ⟨u, hslice, hu, -⟩ := h.between
    have hclose := h.close
    rw [← hbytes, Text.slice_append_iff] at hslice
    obtain ⟨⟨behind, rfl⟩, rfl⟩ := hslice
    rw [← List.append_assoc, ← Text.bytes_append, Text.slice_append_iff] at hclose
    obtain ⟨⟨after, rfl⟩, -⟩ := hclose
    exact ⟨u, after, rfl, hu, rfl⟩
  · intro h
    obtain ⟨inner, after, rfl, hinner, rfl⟩ := h
    refine ⟨by omega, ?_, ⟨p ++ ['('] ++ inner, ?_⟩, inner, ?_, hinner, fun x y hx _ => surplus_pos hinner hx⟩
    · rw [← Text.bytes_append, ← List.append_assoc]
      exact Text.slice_append _ [')'] after
    · rw [← Text.bytes_append, ← List.append_assoc]
      exact Text.slice_front_iff.mpr ⟨List.prefix_append _ _, rfl⟩
    · rw [← hbytes]
      exact Text.slice_append _ inner _

theorem matching_eq (p rest : Text) : matching (p ++ '(' :: rest) (Text.bytes p) =
    (closing? .outside 0 rest).elim .unclosed fun cut => .closedAt (Text.bytes p + 1 + Text.bytes cut.1) := by
  rw [matching_append, matchFrom_succ]

theorem matching_eq_closedAt_iff {p rest : Text} {i : Nat} :
    matching (p ++ '(' :: rest) (Text.bytes p) = .closedAt i ↔
      ∃ inner after, closing? .outside 0 rest = some (inner, after) ∧ i = Text.bytes p + 1 + Text.bytes inner := by
  rw [matching_eq]
  cases closing? .outside 0 rest with
  | none => simp
  | some cut =>
    obtain ⟨inner, after⟩ := cut
    constructor
    · intro h
      cases h
      exact ⟨inner, after, rfl, rfl⟩
    · intro h
      obtain ⟨_, _, hcut, rfl⟩ := h
      cases hcut
      rfl

/-- The search that begins at an opening parenthesis is safe and exact. It never counts below zero; it
    gives the place at which that parenthesis is closed, and none exactly when there is no such place;
    and that is the place at which a call is cut. -/
theorem matching_exact (p rest : Text) :
    matching (p ++ '(' :: rest) (Text.bytes p) ≠ .underflow ∧
    (∀ i, matching (p ++ '(' :: rest) (Text.bytes p) = .closedAt i ↔ Paired (p ++ '(' :: rest) (Text.bytes p) i) ∧
    (matching (p ++ '(' :: rest) (Text.bytes p) = .unclosed ↔ ∀ i, ¬ Paired (p ++ '(' :: rest) (Text.bytes p) i) ∧
    ∀ inner after, closing? .outside 0 rest = some (inner, after) ↔ rest = inner ++ ')' :: after ∧
      matching (p ++ '(' :: rest) (Text.bytes p) = .closedAt (Text.bytes p + 1 + Text.bytes inner) := by
  have hplace (i : Nat) :
      matching (p ++ '(' :: rest) (Text.bytes p) = .closedAt i ↔ Paired (p ++ '(' :: rest) (Text.bytes p) i := by
    simp only [matching_eq_closedAt_iff, paired_iff, closing?_eq_some_iff, and_assoc]
  have hsafe : matching (p ++ '(' :: rest) (Text.bytes p) ≠ .underflow := by
    rw [matching_eq]
    cases closing? .outside 0 rest <;> simp
  refine ⟨hsafe, hplace, ?_, fun inner after => ?_⟩
  · simp only [← hplace]
    cases hm : matching (p ++ '(' :: rest) (Text.bytes p) with
    | closedAt i => simp
    | unclosed => simp
    | underflow => exact absurd hm hsafe
  · rw [matching_eq_closedAt_iff]
    constructor
    · intro h
      exact ⟨closing?_eq_some h, inner, after, h, rfl⟩
    · intro h
      obtain ⟨hs, inner', after', hclosing, hbytes⟩ := h
      have hrest := closing?_eq_some hclosing
      rw [hs] at hrest
      obtain ⟨rfl, htail⟩ := Text.append_inj_of_bytes hrest (by omega)
      obtain rfl : after = after' := (List.cons.inj htail).2
      exact hclosing

/-- From byte 2, an opening parenthesis, the search ends in a place; from byte 8 it counts below zero. -/
example : matching "é(\")\"())".toList 2 = .closedAt 8 ∧ matching "é(\")\"())".toList 8 = .underflow := by decide

end Call

end MailMerge
