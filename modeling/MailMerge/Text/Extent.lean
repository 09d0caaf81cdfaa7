/-
  MailMerge.Text.Extent — how far a text reaches: its size in bytes, its line breaks, and
  the line on which a byte of it stands.

  - `bytes_append`, `lineBreaks_append`: both measures add up over a concatenation, so a
    reader that keeps running totals and one that recounts from the start agree.
-/

import MailMerge.Text.Blank

namespace MailMerge.Text

/-- The size of the text in UTF-8. -/
def bytes : Text → Nat
  | [] => 0
  | c :: s => c.utf8Size + bytes s

def lineBreaks (s : Text) : Nat := s.count '\n'

/-- The line, counted from 1, of the character that starts at byte `offset`. An offset past
    the end stands on the last line. -/
def lineOf : Text → Nat → Nat
  | [], _ => 1
  | c :: s, offset => if offset = 0 then 1 else (if c = '\n' then 1 else 0) + lineOf s (offset - c.utf8Size)

@[simp] theorem bytes_nil : bytes [] = 0 := rfl

@[simp] theorem bytes_cons (c : Char) (s : Text) : bytes (c :: s) = c.utf8Size + bytes s := rfl

theorem bytes_append (s t : Text) : bytes (s ++ t) = bytes s + bytes t := by
  induction s with
  | nil => simp
  | cons c s ih => simp [ih, Nat.add_assoc]

theorem bytes_le_of_prefix {s t : Text} (h : s <+: t) : bytes s ≤ bytes t := by
  obtain ⟨u, rfl⟩ := h
  rw [bytes_append]
  exact Nat.le_add_right _ _

theorem lineBreaks_append (s t : Text) : lineBreaks (s ++ t) = lineBreaks s + lineBreaks t :=
  List.count_append

/-- The line at the end of a first part is one more than the line breaks in that part. -/
theorem lineOf_bytes (s t : Text) : lineOf (s ++ t) (bytes s) = 1 + lineBreaks s := by
  induction s with
  | nil => cases t <;> simp [lineOf, lineBreaks]
  | cons c s ih =>
    have hc := c.utf8Size_pos
    have hne : c.utf8Size + bytes s ≠ 0 := by omega
    simp only [List.cons_append, lineOf, bytes_cons, hne, if_false, Nat.add_sub_cancel_left, ih]
    by_cases h : c = '\n'
    · subst h; simp [lineBreaks]; omega
    · simp [lineBreaks, h]

end MailMerge.Text
