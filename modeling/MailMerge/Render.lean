/-
  MailMerge.Render — the value of an expression, and the text of a tree.

  Parts are evaluated from left to right and the first error is the result. The branches of a
  conditional are tested in order up to the first that holds, and only its nodes are
  rendered. A loop runs over the items of a list or the keys of a map.
-/

import MailMerge.Registry
import MailMerge.Scope
import MailMerge.Tree.Basic
import MailMerge.Value.Compare

namespace MailMerge

namespace Op

/-- The order in which the operator holds. -/
def accepts (op : Op) (o : Ordering) : Bool :=
  match op with
  | .eq => o == .eq
  | .ne => o != .eq
  | .gt => o == .gt
  | .ge => o != .lt
  | .lt => o == .lt
  | .le => o != .gt

/-- The operator applied to two values. Equality never fails; an order that does not exist does. -/
def apply (op : Op) (a b : Value) : Except Error Bool :=
  match op with
  | .eq => .ok (a.equals b)
  | .ne => .ok !(a.equals b)
  | op => (a.order b).map op.accepts

end Op

/-- The value of an expression. -/
def Expr.eval (functions : Registry) (scope : Scope) : Expr → Except Error Value
  | .literal _ v => .ok v
  | .var source path fallback =>
    match (scope.lookup? path).or fallback with
    | some v => .ok v
    | none => .error (.unresolved source)
  | .call source name arg =>
    match functions.get? name with
    | some f => arg.eval functions scope >>= f
    | none => .error (.unknownFunction name source)
  | .compare source op left right =>
    let result : Except Error Value := do
      let a ← left.eval functions scope
      let b ← right.eval functions scope
      return .bool (← op.apply a b)
    result.mapError (.comparison source)
  | .unsupported source => .error (.unimplemented source)

/-- What a loop over the value binds, one element after another. -/
def Value.elements? : Value → Option (List Value)
  | .list items => some items
  | .map fields => some (fields.entries.map fun (k, _) => .str k)
  | _ => none

mutual

/-- The text of one node. -/
def Node.render (functions : Registry) (scope : Scope) : Node → Except Error Text
  | .text s => .ok s
  | .expr e => do return (← e.eval functions scope).display
  | .cond branches otherwise => do
    match ← renderBranches functions scope branches with
    | some s => return s
    | none => renderNodes functions scope otherwise
  | .loop item collection body => do
    match (← collection.eval functions scope).elements? with
    | some elements => return (← elements.mapM fun v => renderNodes functions (scope.bind item v) body).flatten
    | none => .error (.notIterable collection.source)

/-- The text of nodes in a row. -/
def Node.renderNodes (functions : Registry) (scope : Scope) : List Node → Except Error Text
  | [] => .ok []
  | n :: nodes => do return (← n.render functions scope) ++ (← renderNodes functions scope nodes)

/-- The text of the first branch whose test holds; none when there is no such branch. -/
def Node.renderBranches (functions : Registry) (scope : Scope) : List Branch → Except Error (Option Text)
  | [] => .ok none
  | ⟨test, body⟩ :: branches => do
    if (← test.eval functions scope).holds then return some (← renderNodes functions scope body)
    else renderBranches functions scope branches

end

end MailMerge
