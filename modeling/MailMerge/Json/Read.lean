/-
  MailMerge.Json.Read — reading JSON text.

  The grammar is that of RFC 8259, without any extension. `value depth` reads data in which
  lists and objects are nested at most `depth` deep, by recursion on that depth; `read` allows
  `maxDepth` and wants nothing but spaces after the data. Of equal keys in an object the last
  wins.
-/

import MailMerge.Json.Basic
import MailMerge.Json.Quoted
import MailMerge.Json.Reader
import MailMerge.Keyed

namespace MailMerge.Json

/-- How deep lists and objects may be nested. -/
def maxDepth : Nat := 127

/-- The number at the front of the text. -/
def readNumber (s : Text) : Option (Json × Text) :=
  match Number.Numeral.read s with
  | some (x, rest) => x.value.map fun n => (.number n, rest)
  | none => none

/-- Data that is neither list nor object, at the very front of the text. -/
def readScalar : Text → Option (Json × Text)
  | 'n' :: 'u' :: 'l' :: 'l' :: rest => some (.null, rest)
  | 't' :: 'r' :: 'u' :: 'e' :: rest => some (.bool true, rest)
  | 'f' :: 'a' :: 'l' :: 's' :: 'e' :: rest => some (.bool false, rest)
  | '"' :: rest => (readTail rest).map fun (t, rest) => (.text t, rest)
  | s => readNumber s

theorem readNumber_shorter {s rest : Text} {j : Json} (h : readNumber s = some (j, rest)) :
    rest.length < s.length := by
  unfold readNumber at h
  split at h
  · rename_i hx
    simp only [Option.map_eq_some_iff, Prod.mk.injEq] at h
    obtain ⟨_, -, -, rfl⟩ := h
    exact Number.Numeral.read_shorter hx
  · cases h

theorem readScalar_shorter {s rest : Text} {j : Json} (h : readScalar s = some (j, rest)) :
    rest.length < s.length := by
  unfold readScalar at h
  split at h
  case h_4 =>
    simp only [Option.map_eq_some_iff, Prod.exists, Prod.mk.injEq] at h
    obtain ⟨_, _, h, -, rfl⟩ := h
    have := readTail_shorter h
    simp; omega
  case h_5 => exact readNumber_shorter h
  all_goals cases h; simp; omega

/-- A key and its value, with the colon between them. -/
def readMember (value : Reader Json) (s : Text) : Option ((Text × Json) × Text) :=
  match skip '"' s with
  | none => none
  | some s =>
    match readTail s with
    | none => none
    | some (key, s) =>
      match skip ':' s with
      | none => none
      | some s => (value.run s).map fun (j, rest) => ((key, j), rest)

def member (value : Reader Json) : Reader (Text × Json) where
  run := readMember value
  shorter := by
    intro s a rest h
    unfold readMember at h
    split at h
    · cases h
    · rename_i hquote
      split at h
      · cases h
      · rename_i hkey
        split at h
        · cases h
        · rename_i hcolon
          simp only [Option.map_eq_some_iff, Prod.exists, Prod.mk.injEq] at h
          obtain ⟨_, _, h, -, rfl⟩ := h
          have := skip_shorter hquote
          have := readTail_shorter hkey
          have := skip_shorter hcolon
          have := value.shorter h
          omega

/-- Data after spaces. Lists and objects are read by means of `nested?`, and not at all without it. -/
def readValue (nested? : Option (Reader Json)) (s : Text) : Option (Json × Text) :=
  match skipSpaces s with
  | '[' :: rest => nested?.bind fun nested => (nested.list ']' rest).map fun (js, rest) => (.list js, rest)
  | '{' :: rest =>
    nested?.bind fun nested => ((member nested).list '}' rest).map fun (es, rest) => (.object (.ofList es), rest)
  | s => readScalar s

theorem readValue_shorter {nested? : Option (Reader Json)} {s rest : Text} {j : Json}
    (h : readValue nested? s = some (j, rest)) : rest.length < s.length := by
  have hs := skipSpaces_length_le s
  unfold readValue at h
  split at h
  · rename_i hopen
    simp only [Option.bind_eq_some_iff, Option.map_eq_some_iff, Prod.exists, Prod.mk.injEq] at h
    obtain ⟨nested, -, _, _, h, -, rfl⟩ := h
    have := nested.list_shorter h
    simp only [hopen, List.length_cons] at hs
    omega
  · rename_i hopen
    simp only [Option.bind_eq_some_iff, Option.map_eq_some_iff, Prod.exists, Prod.mk.injEq] at h
    obtain ⟨nested, -, _, _, h, -, rfl⟩ := h
    have := (member nested).list_shorter h
    simp only [hopen, List.length_cons] at hs
    omega
  · have := readScalar_shorter h
    omega

/-- Reads data in which lists and objects are nested at most so deep. -/
def value : Nat → Reader Json
  | 0 => ⟨readValue none, readValue_shorter⟩
  | depth + 1 => ⟨readValue (some (value depth)), readValue_shorter⟩

/-- The data that the whole text gives. -/
def read (s : Text) : Option Json :=
  match (value maxDepth).run s with
  | some (j, rest) => if (skipSpaces rest).isEmpty then some j else none
  | none => none

end MailMerge.Json
