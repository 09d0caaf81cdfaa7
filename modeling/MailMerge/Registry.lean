/-
  MailMerge.Registry — the functions that a template can call.

  A function takes one value and gives one or fails. Only a name that can be written as a
  call is registered, and the last registration of a name counts.

  - `get?_register`: a registration changes what stands under its own name only.
-/

import MailMerge.Error
import MailMerge.Expr.Call
import MailMerge.Keyed
import MailMerge.Text.Entity
import MailMerge.Value.Print

namespace MailMerge

abbrev Function := Value → Except Error Value

structure Registry where
  entries : Keyed.Table Function

namespace Registry

/-- The text of the value, with the characters of markup as entities. -/
def escape : Function := fun v => .ok (.str (Text.Entity.encode v.display))

/-- The functions that every registry starts with. -/
def builtin : Registry := ⟨.ofList [("Escape".toList, escape)]⟩

def get? (r : Registry) (name : Text) : Option Function := r.entries.get? name

def contains (r : Registry) (name : Text) : Bool := (r.get? name).isSome

/-- The function under the name, in place of one that stands there already. -/
def register (r : Registry) (name : Text) (f : Function) : Except Error Registry :=
  if Call.isCallable name then .ok ⟨r.entries.insert name f⟩ else .error (.badFunctionName name)

theorem get?_register {r s : Registry} {name : Text} {f : Function} (h : r.register name f = .ok s) (key : Text) :
    s.get? key = if key = name then some f else r.get? key := by
  unfold register at h
  split at h
  · cases h
    exact r.entries.get?_insert name key f
  · cases h

end Registry

end MailMerge
