/-
  MailMerge.Merger — templates merged with the caller's variables.

  A merger is the functions that its templates can call. Its variables are the entries of
  the caller's data, each under the mark of the caller's variables, so that no loop variable
  can hide one. A fault in the template is found before the variables are looked at, and data
  that is no map is refused even when the template uses no variable.
-/

import MailMerge.Data.Value
import MailMerge.Render
import MailMerge.Tree.Read

namespace MailMerge

structure Merger where
  functions : Registry

namespace Merger

/-- The merger with the functions that every registry starts with. -/
def standard : Merger := ⟨.builtin⟩

/-- The merger with one function more. -/
def register (merger : Merger) (name : Text) (f : Function) : Except Error Merger :=
  (merger.functions.register name f).map Merger.mk

/-- The caller's variables, each under the mark. -/
def marked (fields : Keyed.Table Value) : Keyed.Table Value :=
  .ofList (fields.entries.map fun (k, v) => (callerMark ++ k, v))

/-- The names at the root for the caller's variables; null is no variables. -/
def rootNames : Value → Except Error (Keyed.Table Value)
  | .map fields => .ok (marked fields)
  | .null => .ok .empty
  | v => .error (.badVariables v.kind)

/-- The text of a tree. -/
def render (merger : Merger) (nodes : List Node) (data : Data) : Except Error Text := do
  let root ← rootNames (← data.toValue)
  Node.renderNodes merger.functions (.ofRoot root) nodes

/-- The text of a template. -/
def merge (merger : Merger) (template : Text) (data : Data) : Except Error Text := do
  merger.render (← Tree.read template) data

/-- The value of one expression. -/
def evaluate (merger : Merger) (expression : Text) (scope : Scope) : Except Error Value :=
  (Expr.read expression).eval merger.functions scope

end Merger

end MailMerge
