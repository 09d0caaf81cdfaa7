/-
  MailMerge.Expr.Basic — expressions.

  Every expression keeps the text it was read from, for error messages. Text that no rule
  reads is an expression too: it only fails when it is evaluated.
-/

import MailMerge.Value.Basic

namespace MailMerge

/-- The meanings of a comparison. -/
inductive Op
  | eq
  | ne
  | gt
  | ge
  | lt
  | le
  deriving DecidableEq, Repr

inductive Expr
  /-- A function applied to one argument. -/
  | call (source name : Text) (arg : Expr)
  /-- A name and the fields to follow from it; the first segment carries the namespace. -/
  | var (source : Text) (path : List Text) (fallback : Option Value)
  | compare (source : Text) (op : Op) (left right : Expr)
  | literal (source : Text) (value : Value)
  | unsupported (source : Text)
  deriving Repr

/-- The text the expression was read from. -/
def Expr.source : Expr → Text
  | .call source .. | .var source .. | .compare source .. | .literal source _ | .unsupported source => source

instance : Inhabited Expr := ⟨.unsupported []⟩

/-- The name space of the caller's variables: it stands before their names. -/
def callerMark : Text := "var:".toList

end MailMerge
