/-
  MailMerge.Expr.Read — reading expressions.

  Four rules are tried in a fixed order on the trimmed text: a function call, a reference to
  a variable, a comparison, a JSON scalar. The argument of a call and the two sides of a
  comparison are shorter texts, read in the same way.
-/

import MailMerge.Expr.Call
import MailMerge.Expr.Operator
import MailMerge.Expr.Reference

namespace MailMerge.Expr

/-- The value of a text that is a JSON scalar. -/
def readLiteral (s : Text) : Option Value :=
  match Json.read s with
  | some j => if j.isScalar then some (.ofJson j) else none
  | none => none

/-- The expression that the text is. -/
def read (s : Text) : Expr :=
  let source := Text.trim s
  match _hcall : Call.split? source with
  | some (name, arg) => .call source name (read arg)
  | none =>
    match Reference.read source with
    | some (path, fallback) => .var source path fallback
    | none =>
      match _hop : Operator.split? source with
      | some p => .compare source p.op (read p.before) (read p.after)
      | none =>
        match readLiteral source with
        | some v => .literal source v
        | none => .unsupported source
termination_by s.length
decreasing_by
  · exact Nat.lt_of_lt_of_le (Call.split?_shorter _hcall) (Text.trim_length_le s)
  · exact Nat.lt_of_lt_of_le (Operator.split?_shorter _hop).1 (Text.trim_length_le s)
  · exact Nat.lt_of_lt_of_le (Operator.split?_shorter _hop).2 (Text.trim_length_le s)

end MailMerge.Expr
