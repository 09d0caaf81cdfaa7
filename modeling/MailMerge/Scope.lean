/-
  MailMerge.Scope — the names that are visible while a template is rendered.

  A loop binds its variable over the names around it. A scope is the names at the root and
  the bindings over them, innermost first; nothing is ever changed in a scope, a loop body
  simply has one with a binding more.

  - `get?_bind`: a binding decides its own name and no other.
-/

import MailMerge.Value.Basic

namespace MailMerge

structure Scope where
  /-- The names at the root. -/
  root : Keyed.Table Value
  /-- The bindings over them, innermost first. -/
  bindings : List (Text × Value)

namespace Scope

/-- The names at the root alone. -/
def ofRoot (root : Keyed.Table Value) : Scope := ⟨root, []⟩

def bind (scope : Scope) (name : Text) (value : Value) : Scope :=
  { scope with bindings := (name, value) :: scope.bindings }

/-- The value of a name, the innermost binding first. -/
def get? (scope : Scope) (name : Text) : Option Value :=
  (Keyed.get? name scope.bindings).or (scope.root.get? name)

/-- The value reached by following fields of maps. -/
def follow : Value → List Text → Option Value
  | v, [] => some v
  | .map fields, key :: keys => (fields.get? key).bind fun v => follow v keys
  | _, _ :: _ => none

/-- The value of a path: a name, and fields of maps to follow from it. -/
def lookup? (scope : Scope) : List Text → Option Value
  | [] => none
  | head :: keys => (scope.get? head).bind fun v => follow v keys

theorem get?_bind (scope : Scope) (name key : Text) (value : Value) :
    (scope.bind name value).get? key = if key = name then some value else scope.get? key := by
  unfold get? bind
  by_cases h : key = name <;> simp [Keyed.get?, h]

end Scope

end MailMerge
