/-
  MailMerge.Token.Delimiter — the four marks that open and close tags.

  - `firstIn?` finds the leftmost delimiter that lies wholly inside a text;
    `splitAt?` cuts a text at the first occurrence of one delimiter.
  - `splitAt?_eq_some`: what the cut leaves, with the delimiter between, is the text.
-/

import MailMerge.Text.Blank

namespace MailMerge

inductive Delimiter
  | exprOpen
  | exprClose
  | stmtOpen
  | stmtClose
  deriving DecidableEq, Repr

namespace Delimiter

def text : Delimiter → Text
  | .exprOpen => ['{', '{']
  | .exprClose => ['}', '}']
  | .stmtOpen => ['{', '%']
  | .stmtClose => ['%', '}']

/-- The delimiter at the very front of the text. -/
def at? : Text → Option Delimiter
  | '{' :: '{' :: _ => some .exprOpen
  | '}' :: '}' :: _ => some .exprClose
  | '{' :: '%' :: _ => some .stmtOpen
  | '%' :: '}' :: _ => some .stmtClose
  | _ => none

/-- The leftmost delimiter inside the text, and the text before it. -/
def firstIn? : Text → Option (Text × Delimiter)
  | [] => none
  | c :: s =>
    match at? (c :: s) with
    | some d => some ([], d)
    | none => (firstIn? s).map fun (before, d) => (c :: before, d)

/-- The text before the first occurrence of the delimiter, and the text after it. -/
def splitAt? (d : Delimiter) : Text → Option (Text × Text)
  | [] => none
  | c :: s => if at? (c :: s) = some d then some ([], s.drop 1) else (splitAt? d s).map fun (before, rest) => (c :: before, rest)

theorem eq_of_at? {s : Text} {d : Delimiter} (h : at? s = some d) : s = d.text ++ s.drop 2 := by
  unfold at? at h
  split at h <;> cases h <;> rfl

theorem at?_text_append (d : Delimiter) (s : Text) : at? (d.text ++ s) = some d := by
  cases d <;> rfl

theorem splitAt?_eq_some {d : Delimiter} {s before rest : Text} (h : splitAt? d s = some (before, rest)) :
    s = before ++ d.text ++ rest := by
  induction s generalizing before with
  | nil => cases h
  | cons c s ih =>
    simp only [splitAt?] at h
    split at h
    · rename_i hd
      simp only [Option.some.injEq, Prod.mk.injEq] at h
      obtain ⟨rfl, rfl⟩ := h
      simpa using eq_of_at? hd
    · simp only [Option.map_eq_some_iff, Prod.exists, Prod.mk.injEq] at h
      obtain ⟨before', rest', h, rfl, rfl⟩ := h
      simp [ih h]

end Delimiter

end MailMerge
