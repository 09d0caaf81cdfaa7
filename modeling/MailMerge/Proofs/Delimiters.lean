/-
  MailMerge.Proofs.Delimiters — texts without delimiters, and where one is first found.

  All delimiters have two characters, so whether one stands inside a text is a question about
  neighbours (`not_infix_iff`), and joining two free texts can only go wrong at the seam
  (`free_append`); a blank at the seam keeps them free (`free_append_blank`). `firstIn?` fails exactly
  on free texts (`firstIn?_eq_none_iff`). `splitAt?` cuts at the first occurrence: the text
  before it, with the delimiter's first character after it, holds no earlier one
  (`splitAt?_eq_some_iff`).
-/

import Mathlib.Data.List.Chain
import MailMerge.Proofs.Words
import MailMerge.Token.Delimiter

namespace MailMerge.Delimiter

/-- No delimiter stands inside the text. -/
def Free (s : Text) : Prop := ∀ d : Delimiter, ¬ d.text <:+: s

/-- The two characters do not make up a delimiter. -/
def Apart (x y : Char) : Prop := ∀ d : Delimiter, d.text ≠ [x, y]

/-! ## The delimiter at the front -/

theorem text_ne_nil (d : Delimiter) : d.text ≠ [] := by cases d <;> exact List.cons_ne_nil _ _

theorem length_text (d : Delimiter) : d.text.length = 2 := by cases d <;> rfl

theorem at?_eq_some_iff {s : Text} {d : Delimiter} : at? s = some d ↔ d.text <+: s := by
  constructor
  · intro h
    exact ⟨s.drop 2, (eq_of_at? h).symm⟩
  · intro h
    obtain ⟨t, rfl⟩ := h
    exact at?_text_append d t

/-! ## Free texts -/

theorem text_infix_iff {d : Delimiter} {s : Text} :
    d.text <:+: s ↔ ∃ x y a b, s = a ++ x :: y :: b ∧ d.text = [x, y] := by
  constructor
  · intro h
    obtain ⟨a, b, rfl⟩ := h
    obtain ⟨x, y, h⟩ : ∃ x y, d.text = [x, y] := by cases d <;> exact ⟨_, _, rfl⟩
    exact ⟨x, y, a, b, by rw [h]; simp, h⟩
  · intro hparts
    obtain ⟨x, y, a, b, rfl, h⟩ := hparts
    exact ⟨a, b, by rw [h]; simp⟩

theorem not_infix_iff {d : Delimiter} {s : Text} :
    ¬ d.text <:+: s ↔ s.IsChain (fun x y => d.text ≠ [x, y]) := by
  rw [List.isChain_iff_forall_rel_of_append_cons_cons, text_infix_iff]
  constructor
  · intro h x y a b hs hd
    exact h ⟨x, y, a, b, hs, hd⟩
  · intro h hparts
    obtain ⟨x, y, a, b, hs, hd⟩ := hparts
    exact h hs hd

theorem not_infix_append_iff {d : Delimiter} {s t : Text} :
    ¬ d.text <:+: s ++ t ↔
      ¬ d.text <:+: s ∧ ¬ d.text <:+: t ∧ ∀ x ∈ s.getLast?, ∀ y ∈ t.head?, d.text ≠ [x, y] := by
  simp only [not_infix_iff, List.isChain_append]

theorem free_nil : Free [] := by
  intro d hd
  exact text_ne_nil d (List.infix_nil.mp hd)

theorem free_append {s t : Text} :
    Free (s ++ t) ↔ Free s ∧ Free t ∧ ∀ x ∈ s.getLast?, ∀ y ∈ t.head?, Apart x y := by
  constructor
  · intro h
    refine ⟨fun d => (not_infix_append_iff.mp (h d)).1, fun d => (not_infix_append_iff.mp (h d)).2.1, ?_⟩
    exact fun x hx y hy d => (not_infix_append_iff.mp (h d)).2.2 x hx y hy
  · intro h d
    obtain ⟨hs, ht, hseam⟩ := h
    exact not_infix_append_iff.mpr ⟨hs d, ht d, fun x hx y hy => hseam x hx y hy d⟩

theorem Free.of_isInfix {s t : Text} (hs : Free s) (h : t <:+: s) : Free t := fun d hd => hs d (hd.trans h)

theorem free_cons_iff {c : Char} {s : Text} : Free (c :: s) ↔ at? (c :: s) = none ∧ Free s := by
  have front : at? (c :: s) = none ↔ ∀ d : Delimiter, ¬ d.text <+: c :: s := by
    simp only [← at?_eq_some_iff, Option.eq_none_iff_forall_ne_some, ne_eq]
  rw [front]
  constructor
  · intro h
    exact ⟨fun d hd => h d hd.isInfix, h.of_isInfix (List.infix_cons List.infix_rfl)⟩
  · intro h d hd
    obtain ⟨hfront, hs⟩ := h
    rcases List.infix_cons_iff.mp hd with hd | hd
    · exact hfront d hd
    · exact hs d hd

theorem apart_of_isBlank_left {x : Char} (y : Char) (h : Text.isBlank x = true) : Apart x y := by
  intro d hd
  cases d <;> cases hd <;> exact absurd h (by decide)

theorem apart_of_isBlank_right (x : Char) {y : Char} (h : Text.isBlank y = true) : Apart x y := by
  intro d hd
  cases d <;> cases hd <;> exact absurd h (by decide)

/-- A blank between two free texts keeps them free. -/
theorem free_append_blank {s t : Text} {c : Char} (hc : Text.isBlank c = true) :
    Free (s ++ c :: t) ↔ Free s ∧ Free t := by
  constructor
  · intro h
    exact ⟨h.of_isInfix (List.prefix_append _ _).isInfix, h.of_isInfix ⟨s ++ [c], [], by simp⟩⟩
  · intro h
    obtain ⟨hs, ht⟩ := h
    have hct : Free ([c] ++ t) := by
      refine free_append.mpr ⟨?_, ht, fun x hx y _ => ?_⟩
      · exact fun d hd => absurd hd.length_le (by simp [length_text])
      · obtain rfl : c = x := by simpa using hx
        exact apart_of_isBlank_left y hc
    refine free_append.mpr ⟨hs, hct, fun x _ y hy => ?_⟩
    obtain rfl : c = y := by simpa using hy
    exact apart_of_isBlank_right x hc

theorem free_of_isName {x : Text} (h : Text.isName x = true) : Free x := by
  intro d hd
  obtain ⟨a, b, hx⟩ := hd
  have hchar : ∀ c ∈ d.text, Text.isNameChar c = true := by
    intro c hc
    refine Text.isNameChar_of_mem_name h c ?_
    rw [← hx]
    simp [hc]
  cases d <;> exact absurd (hchar _ List.mem_cons_self) (by decide)

/-! ## The first delimiter -/

theorem firstIn?_eq_none_iff {s : Text} : firstIn? s = none ↔ Free s := by
  induction s with
  | nil => exact iff_of_true rfl free_nil
  | cons c s ih =>
    rw [free_cons_iff, ← ih, firstIn?]
    split
    · rename_i hd
      simp [hd]
    · rename_i hd
      simp [hd]

instance (s : Text) : Decidable (Free s) := decidable_of_iff _ firstIn?_eq_none_iff

theorem splitAt?_cons_front {d : Delimiter} {c : Char} {s : Text} (h : d.text <+: c :: s) :
    splitAt? d (c :: s) = some ([], s.drop 1) := by
  rw [splitAt?, if_pos (at?_eq_some_iff.mpr h)]

theorem splitAt?_cons_later {d : Delimiter} {c : Char} {s : Text} (h : ¬ d.text <+: c :: s) :
    splitAt? d (c :: s) = (splitAt? d s).map fun (before, rest) => (c :: before, rest) := by
  rw [splitAt?, if_neg (mt at?_eq_some_iff.mp h)]

/-- What stands before the first occurrence holds no part of an earlier one. -/
theorem not_infix_of_splitAt? {d : Delimiter} {s before rest : Text} (h : splitAt? d s = some (before, rest)) :
    ¬ d.text <:+: before ++ d.text.take 1 := by
  induction s generalizing before with
  | nil => cases h
  | cons c s ih =>
    by_cases hd : d.text <+: c :: s
    · rw [splitAt?_cons_front hd] at h
      obtain ⟨rfl, -⟩ : [] = before ∧ s.drop 1 = rest := by simpa using h
      intro hi
      have := hi.length_le
      simp [length_text] at this
    · have hs := splitAt?_eq_some h
      rw [splitAt?_cons_later hd] at h
      obtain ⟨⟨later, rest⟩, hlater, heq⟩ := Option.map_eq_some_iff.mp h
      obtain ⟨rfl, rfl⟩ := Prod.mk.inj heq
      rw [List.cons_append, List.infix_cons_iff]
      intro hparts
      rcases hparts with hi | hi
      -- An occurrence at the front lies within the delimiter found later and what is before it.
      · apply hd
        rw [hs, List.append_assoc]
        exact hi.trans ((List.prefix_append_right_inj (c :: later)).mpr
          ((List.take_prefix 1 d.text).trans (List.prefix_append d.text rest)))
      · exact ih hlater hi

theorem splitAt?_append {d : Delimiter} {before : Text} (rest : Text) (h : ¬ d.text <:+: before ++ d.text.take 1) :
    splitAt? d (before ++ (d.text ++ rest)) = some (before, rest) := by
  induction before with
  | nil => cases d <;> rfl
  | cons c before ih =>
    rw [List.cons_append, List.infix_cons_iff, not_or] at h
    have hd : ¬ d.text <+: c :: (before ++ (d.text ++ rest)) := by
      intro hi
      apply h.1
      -- The delimiter has two characters, and so does the shortest text it could be a part of.
      have hfront : c :: (before ++ d.text.take 1) <+: c :: (before ++ (d.text ++ rest)) :=
        (List.prefix_append_right_inj (c :: before)).mpr
          ((List.take_prefix 1 d.text).trans (List.prefix_append d.text rest))
      exact List.prefix_of_prefix_length_le hi hfront (by simp [length_text])
    rw [List.cons_append, splitAt?_cons_later hd, ih h.2]
    rfl

/-- The cut is made at the first occurrence of the delimiter. -/
theorem splitAt?_eq_some_iff {d : Delimiter} {s before rest : Text} :
    splitAt? d s = some (before, rest) ↔
      s = before ++ (d.text ++ rest) ∧ ¬ d.text <:+: before ++ d.text.take 1 := by
  constructor
  · intro h
    exact ⟨by rw [← List.append_assoc]; exact splitAt?_eq_some h, not_infix_of_splitAt? h⟩
  · intro hparts
    obtain ⟨rfl, h⟩ := hparts
    exact splitAt?_append rest h

end MailMerge.Delimiter
