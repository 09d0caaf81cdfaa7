/-
  MailMerge.Text.Entity — characters that markup reads as its own, written as entities.

  Five characters are written as entities: the two angle brackets, the ampersand and the
  two quotes. `decode` reads the five entities back, from left to right.

  - `decode_encode`: nothing is lost.
-/

import MailMerge.Text.Blank

namespace MailMerge.Text.Entity

/-- The written form of one character. -/
def ofChar : Char → Text
  | '&' => "&amp;".toList
  | '<' => "&lt;".toList
  | '>' => "&gt;".toList
  | '"' => "&quot;".toList
  | '\'' => "&#x27;".toList
  | c => [c]

def encode (s : Text) : Text := s.flatMap ofChar

/-- The text that the five entities stand for; any other ampersand stands for itself. -/
def decode : Text → Text
  | [] => []
  | '&' :: 'a' :: 'm' :: 'p' :: ';' :: s => '&' :: decode s
  | '&' :: 'l' :: 't' :: ';' :: s => '<' :: decode s
  | '&' :: 'g' :: 't' :: ';' :: s => '>' :: decode s
  | '&' :: 'q' :: 'u' :: 'o' :: 't' :: ';' :: s => '"' :: decode s
  | '&' :: '#' :: 'x' :: '2' :: '7' :: ';' :: s => '\'' :: decode s
  | c :: s => c :: decode s

theorem decode_cons {c : Char} (s : Text) (h : c ≠ '&') : decode (c :: s) = c :: decode s := by
  rw [decode] <;> simp_all

theorem decode_ofChar_append (c : Char) (s : Text) : decode (ofChar c ++ s) = c :: decode s := by
  unfold ofChar
  split
  case h_6 h _ _ _ _ => exact decode_cons s h
  all_goals simp [decode]

theorem decode_encode (s : Text) : decode (encode s) = s := by
  induction s with
  | nil => rfl
  | cons c s ih => rw [encode, List.flatMap_cons, decode_ofChar_append, ← encode, ih]

end MailMerge.Text.Entity
