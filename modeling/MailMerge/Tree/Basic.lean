/-
  MailMerge.Tree.Basic — templates as trees.

  A template is a list of nodes. A conditional is kept flat: the first branch whose test holds
  is taken, and the nodes of `otherwise` when there is none.
-/

import MailMerge.Expr.Basic

namespace MailMerge

mutual

inductive Node
  /-- Literal text. -/
  | text (s : Text)
  /-- An expression whose value is printed. -/
  | expr (e : Expr)
  | cond (branches : List Branch) (otherwise : List Node)
  /-- The body once for each element of the collection, which is then called `item`. -/
  | loop (item : Text) (collection : Expr) (body : List Node)

/-- A test, and the nodes that are rendered when it holds. -/
structure Branch where
  test : Expr
  body : List Node

end

deriving instance Repr for Node, Branch

instance : Inhabited Node := ⟨.text []⟩

end MailMerge
