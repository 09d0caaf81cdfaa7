/-
  MailMerge.Expr.Reference — the text of a reference to a variable.

  A reference is names joined by points, optionally with the mark of the caller's variables
  before them, and optionally with a colon and JSON text after them, which gives the value to
  use when there is no such variable. Without the mark the first name is not one of the words
  that are JSON.
-/

import MailMerge.Expr.Basic
import MailMerge.Json.Read
import MailMerge.Text.Name
import MailMerge.Value.OfJson

namespace MailMerge.Reference

/-- The names that are JSON, and so do not name variables. -/
def reserved : List Text := ["true".toList, "false".toList, "null".toList]

/-- Names joined by points at the front of the text, and what follows them. -/
def splitPath (s : Text) : Option (List Text × Text) :=
  match _h : Text.splitName s with
  | none => none
  | some (name, '.' :: rest) => (splitPath rest).map fun (names, rest) => (name :: names, rest)
  | some (name, rest) => some ([name], rest)
termination_by s.length
decreasing_by
  have := Text.splitName_shorter _h
  simp only [List.length_cons] at this
  omega

/-- The mark of the caller's variables, if it comes first, and what follows it. -/
def splitMark (s : Text) : Text × Text :=
  if callerMark.isPrefixOf s then (callerMark, s.drop callerMark.length) else ([], s)

/-- The value to use when there is no such variable: `some none` when none is given. -/
def readFallback : Text → Option (Option Value)
  | [] => some none
  | ':' :: s => (Json.read (Text.trim s)).map fun j => some (.ofJson j)
  | _ => none

/-- The path and the fallback, when the whole text is a reference. -/
def read (s : Text) : Option (List Text × Option Value) :=
  let (mark, s) := splitMark s
  match splitPath s with
  | some (head :: names, rest) =>
    if mark.isEmpty && reserved.contains head then none
    else (readFallback rest).map fun fallback => ((mark ++ head) :: names, fallback)
  | _ => none

end MailMerge.Reference
