/-
  MailMerge.Expr.Matching — the place of the parenthesis that closes the one at a given byte.

  Characters before that byte are skipped. From there on the open parentheses outside quotations
  are counted; the search ends where the count comes down to zero. A closing parenthesis that
  finds the count at zero would take it below: that is a third way in which the search can end.

  - `skipTo_append`: skipping the bytes of a first part leaves what follows it.
-/

import MailMerge.Expr.Quotes
import MailMerge.Text.Extent

namespace MailMerge.Call

inductive Matching
  /-- The parenthesis is closed by the one at this byte. -/
  | closedAt (place : Nat)
  | unclosed
  /-- A parenthesis is closed where none is open. -/
  | underflow
  deriving DecidableEq, Repr

/-- Searches the text that begins at byte `place`, where `depth` parentheses are open. -/
def matchFrom (quotes : Quotes) (depth place : Nat) : Text → Matching
  | [] => .unclosed
  | c :: s =>
    let later (depth : Nat) := matchFrom (quotes.next c) depth (place + c.utf8Size) s
    if quotes.covers c then later depth
    else if c = '(' then later (depth + 1)
    else if c = ')' then
      match depth with
      | 0 => .underflow
      | 1 => .closedAt place
      | depth + 2 => later (depth + 1)
    else later depth

/-- Skips the characters that begin before byte `target`, given that the text begins at byte
    `place`: where the rest begins, and the rest. -/
def skipTo (target place : Nat) : Text → Nat × Text
  | [] => (place, [])
  | c :: s => if place < target then skipTo target (place + c.utf8Size) s else (place, c :: s)

/-- The place of the parenthesis that closes the one at byte `opening`. -/
def matching (s : Text) (opening : Nat) : Matching :=
  let (place, rest) := skipTo opening 0 s
  matchFrom .outside 0 place rest

theorem skipTo_append (place : Nat) (s : Text) {t : Text} (ht : t ≠ []) :
    skipTo (place + Text.bytes s) place (s ++ t) = (place + Text.bytes s, t) := by
  induction s generalizing place with
  | nil =>
    obtain ⟨c, t, rfl⟩ := List.exists_cons_of_ne_nil ht
    rw [List.nil_append, skipTo, if_neg (by simp)]
    rfl
  | cons c s ih =>
    have hc := c.utf8Size_pos
    rw [List.cons_append, skipTo, if_pos (by rw [Text.bytes_cons]; omega), Text.bytes_cons, ← Nat.add_assoc]
    exact ih (place + c.utf8Size)

/-- The search begins at the parenthesis it is given, which is then open. -/
theorem matching_append (s t : Text) :
    matching (s ++ '(' :: t) (Text.bytes s) = matchFrom .outside 1 (Text.bytes s + 1) t := by
  have hskip := skipTo_append 0 s (t := '(' :: t) (List.cons_ne_nil _ _)
  rw [Nat.zero_add] at hskip
  rw [matching, hskip]
  rfl

end MailMerge.Call
