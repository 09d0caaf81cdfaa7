/-
  MailMerge.Proofs.Overlay — a scope is as good as one map of names.

  A scope is a chain of bindings over the names at the root. The rule for a loop speaks of one
  map instead: its body is rendered with the names around it, over which the loop's variable is
  put. A table stands for a scope (`Scope.StandsFor`) when every name has the same value in both.

  Proved: an insertion stands for a binding (`StandsFor.bind`), so insertions one after another stand
  for bindings one after another (`StandsFor.bindAll`); what a table stands for finds the same values
  (`StandsFor.lookup?_eq`) and renders all trees alike (`StandsFor.renderNodes_eq`). Together:
  `overlay_as_one_map`.
-/

import MailMerge.Proofs.Mentions

namespace MailMerge

namespace Scope

/-- The scope with bindings made one after another, the outermost first. -/
def bindAll (s : Scope) (bindings : List (Text × Value)) : Scope := bindings.foldl (fun s b => s.bind b.1 b.2) s

/-- Every name has in the scope the value that it has in the table. -/
def StandsFor (m : Keyed.Table Value) (s : Scope) : Prop := ∀ name, s.get? name = m.get? name

theorem standsFor_ofRoot (m : Keyed.Table Value) : StandsFor m (.ofRoot m) := fun _ => rfl

section
variable {m : Keyed.Table Value} {s : Scope}

/-- One binding more is one insertion more. -/
theorem StandsFor.bind (h : StandsFor m s) (name : Text) (v : Value) :
    StandsFor (m.insert name v) (s.bind name v) := by
  intro key
  rw [get?_bind, Keyed.Table.get?_insert, h key]

theorem StandsFor.bindAll (h : StandsFor m s) (bindings : List (Text × Value)) :
    StandsFor (m.insertAll bindings) (s.bindAll bindings) := by
  induction bindings generalizing m s with
  | nil => exact h
  | cons b bindings ih => exact ih (h.bind b.1 b.2)

theorem StandsFor.get?_eq (h : StandsFor m s) (name : Text) : s.get? name = (ofRoot m).get? name :=
  (h name).trans (standsFor_ofRoot m name).symm

theorem StandsFor.lookup?_eq (h : StandsFor m s) (path : List Text) : s.lookup? path = (ofRoot m).lookup? path :=
  lookup?_congr fun x _ => h.get?_eq x

theorem StandsFor.renderNodes_eq (h : StandsFor m s) (f : Registry) (nodes : List Node) :
    Node.renderNodes f s nodes = Node.renderNodes f (.ofRoot m) nodes :=
  Node.renderNodes_congr fun _ _ => ⟨fun x _ => h.get?_eq x, fun _ _ => rfl⟩

end

/-- Bindings over a root are as good as the table in which they are inserted, from the outermost to the
    innermost: every path leads to the same value, and every tree renders to the same text or
    fails with the same error. -/
theorem overlay_as_one_map (root : Keyed.Table Value) (bindings : List (Text × Value)) :
    let s := (ofRoot root).bindAll bindings
    let flat := root.insertAll bindings
    (∀ path, s.lookup? path = (ofRoot flat).lookup? path) ∧
      ∀ (f : Registry) (nodes : List Node), Node.renderNodes f s nodes = Node.renderNodes f (.ofRoot flat) nodes := by
  intro s flat
  have h : StandsFor flat s := (standsFor_ofRoot root).bindAll bindings
  exact ⟨h.lookup?_eq, h.renderNodes_eq⟩

end Scope

end MailMerge
