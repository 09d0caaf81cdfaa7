/-
  MailMerge.Json.Reader — readers that take something off the front of a text, and the lists
  they make.

  A `Reader` comes with the fact that what it leaves is shorter than what it was given, so
  `entries`, which reads one item after another, ends because the text does. Blank in JSON
  are the space, the tab and the two line break characters only.
-/

import MailMerge.Text.Blank

namespace MailMerge.Json

/-- Reads an item off the front of a text, or fails. -/
structure Reader (α : Type) where
  run : Text → Option (α × Text)
  shorter : ∀ {s : Text} {a : α} {rest : Text}, run s = some (a, rest) → rest.length < s.length

def isSpace (c : Char) : Bool := c == ' ' || c == '\t' || c == '\n' || c == '\r'

def skipSpaces (s : Text) : Text := s.dropWhile isSpace

theorem skipSpaces_length_le (s : Text) : (skipSpaces s).length ≤ s.length := Text.dropWhile_length_le _ s

/-- The text after the character `c`, which has to come first after spaces. -/
def skip (c : Char) (s : Text) : Option Text :=
  match skipSpaces s with
  | [] => none
  | d :: rest => if d = c then some rest else none

theorem skip_shorter {c : Char} {s rest : Text} (h : skip c s = some rest) : rest.length < s.length := by
  have hs := skipSpaces_length_le s
  unfold skip at h
  split at h
  · cases h
  · rename_i hd
    split at h
    · cases h; simp only [hd, List.length_cons] at hs; omega
    · cases h

variable {α : Type}

/-- One or more items with commas between them, up to the closing character. -/
def Reader.entries (item : Reader α) (close : Char) (s : Text) : Option (List α × Text) :=
  match _h : item.run s with
  | none => none
  | some (a, rest) =>
    match _h' : skip ',' rest with
    | some rest => (item.entries close rest).map fun (as, rest) => (a :: as, rest)
    | none => (skip close rest).map fun rest => ([a], rest)
termination_by s.length
decreasing_by
  have := item.shorter _h
  have := skip_shorter _h'
  omega

/-- The items of a list, up to its closing character; the opening one has been read. -/
def Reader.list (item : Reader α) (close : Char) (s : Text) : Option (List α × Text) :=
  match skip close s with
  | some rest => some ([], rest)
  | none => item.entries close s

theorem Reader.entries_shorter (item : Reader α) {close : Char} {s rest : Text} {as : List α}
    (h : item.entries close s = some (as, rest)) : rest.length < s.length := by
  fun_induction Reader.entries item close s generalizing as with
  | case1 => cases h
  | case2 s a rest₁ hitem rest₂ hcomma ih =>
    simp only [Option.map_eq_some_iff, Prod.exists, Prod.mk.injEq] at h
    obtain ⟨as', rest', h, -, rfl⟩ := h
    have := item.shorter hitem
    have := skip_shorter hcomma
    have := ih h
    omega
  | case3 s a rest₁ hitem hcomma =>
    simp only [Option.map_eq_some_iff, Prod.mk.injEq] at h
    obtain ⟨rest', h, -, rfl⟩ := h
    have := item.shorter hitem
    have := skip_shorter h
    omega

theorem Reader.list_shorter (item : Reader α) {close : Char} {s rest : Text} {as : List α}
    (h : item.list close s = some (as, rest)) : rest.length < s.length := by
  unfold Reader.list at h
  split at h
  · rename_i hskip
    cases h
    exact skip_shorter hskip
  · exact item.entries_shorter h

end MailMerge.Json
