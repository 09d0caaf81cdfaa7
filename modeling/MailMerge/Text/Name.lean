/-
  MailMerge.Text.Name — names: a letter or an underscore, then letters, numerals and
  underscores.

  - `splitName_append`: a name and what follows it make up the text.
  - `splitName_shorter`: a name is never empty.
-/

import MailMerge.Text.Letter

namespace MailMerge.Text

def isNameStart (c : Char) : Bool := isLetter c || c == '_'

def isNameChar (c : Char) : Bool := isLetter c || isNumeral c || c == '_'

/-- The longest name at the front of the text, and what follows it. -/
def splitName : Text → Option (Text × Text)
  | [] => none
  | c :: s => if isNameStart c then some (c :: s.takeWhile isNameChar, s.dropWhile isNameChar) else none

/-- The whole text is one name. -/
def isName (s : Text) : Bool :=
  match splitName s with
  | some (_, rest) => rest.isEmpty
  | none => false

theorem splitName_append {s name rest : Text} (h : splitName s = some (name, rest)) : name ++ rest = s := by
  cases s with
  | nil => simp [splitName] at h
  | cons c s =>
    simp only [splitName] at h
    split at h
    · cases h; simp
    · cases h

theorem splitName_shorter {s name rest : Text} (h : splitName s = some (name, rest)) : rest.length < s.length := by
  cases s with
  | nil => simp [splitName] at h
  | cons c s =>
    simp only [splitName] at h
    split at h
    · cases h; exact Nat.lt_succ_of_le (dropWhile_length_le _ s)
    · cases h

end MailMerge.Text
