/-
  MailMerge.Expr.Call — the text of a function call.

  A call is a name that begins with a capital letter of ASCII, an opening parenthesis, and
  text up to the parenthesis that closes it, which has to be the last character. Parentheses
  in quotations do not count.

  - `closing?_eq_some`: the text up to the closing parenthesis, that parenthesis and what
    follows make up the text.
-/

import MailMerge.Expr.Quotes
import MailMerge.Text.Name

namespace MailMerge.Call

/-- The name can be written as a call. -/
def isCallable (name : Text) : Bool :=
  match name with
  | [] => false
  | c :: _ => c.isUpper && Text.isName name

/-- The text up to the parenthesis that closes the one before the text, and what follows it.
    `depth` more parentheses have been opened since. -/
def closing? (quotes : Quotes) (depth : Nat) : Text → Option (Text × Text)
  | [] => none
  | c :: s =>
    let later (depth : Nat) := (closing? (quotes.next c) depth s).map fun (inner, rest) => (c :: inner, rest)
    if quotes.covers c then later depth
    else if c = '(' then later (depth + 1)
    else if c = ')' then
      match depth with
      | 0 => some ([], s)
      | depth + 1 => later depth
    else later depth

/-- The name and the argument's text, when the whole text is a call. -/
def split? (s : Text) : Option (Text × Text) :=
  match Text.splitName s with
  | some (name, '(' :: s) =>
    if isCallable name then
      match closing? .outside 0 s with
      | some (arg, []) => some (name, arg)
      | _ => none
    else none
  | _ => none

theorem closing?_eq_some {quotes : Quotes} {depth : Nat} {s inner rest : Text}
    (h : closing? quotes depth s = some (inner, rest)) : s = inner ++ ')' :: rest := by
  induction s generalizing quotes depth inner with
  | nil => cases h
  | cons c s ih =>
    have later {depth : Nat} (hl : (closing? (quotes.next c) depth s).map (fun (inner, rest) => (c :: inner, rest)) =
        some (inner, rest)) : c :: s = inner ++ ')' :: rest := by
      simp only [Option.map_eq_some_iff, Prod.exists, Prod.mk.injEq] at hl
      obtain ⟨inner', rest', hl, rfl, rfl⟩ := hl
      simp [ih hl]
    simp only [closing?] at h
    split at h
    · exact later h
    · split at h
      · exact later h
      · split at h
        · split at h
          · simp_all
          · exact later h
        · exact later h

theorem split?_eq_some {s name arg : Text} (h : split? s = some (name, arg)) : s = name ++ '(' :: arg ++ [')'] := by
  unfold split? at h
  split at h
  · rename_i hname
    split at h
    · split at h
      · rename_i hclose
        cases h
        have := closing?_eq_some hclose
        rw [← Text.splitName_append hname, this]
        simp
      · cases h
    · cases h
  · cases h

theorem split?_shorter {s name arg : Text} (h : split? s = some (name, arg)) : arg.length < s.length := by
  rw [split?_eq_some h]
  simp; omega

end MailMerge.Call
