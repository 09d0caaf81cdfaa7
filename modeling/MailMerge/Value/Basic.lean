/-
  MailMerge.Value.Basic — the values that flow through a template.

  The entries of a map are a table, so no map has them out of order or has a key twice.
-/

import MailMerge.Keyed
import MailMerge.Number.Double

namespace MailMerge

inductive Value
  | null
  | bool (b : Bool)
  | int (n : Int64)
  | float (x : Double)
  | str (s : Text)
  | list (items : List Value)
  | map (fields : Keyed.Table Value)
  deriving Repr

/-- What sort of value it is; both sorts of numbers are numbers. -/
inductive Kind
  | null
  | bool
  | number
  | string
  | list
  | map
  deriving DecidableEq, Repr

def Kind.name : Kind → String
  | .null => "null"
  | .bool => "bool"
  | .number => "number"
  | .string => "string"
  | .list => "list"
  | .map => "map"

namespace Value

instance : Inhabited Value := ⟨.null⟩

def kind : Value → Kind
  | .null => .null
  | .bool _ => .bool
  | .int _ | .float _ => .number
  | .str _ => .string
  | .list _ => .list
  | .map _ => .map

/-- A condition holds of a value that is neither null, false, zero nor empty. -/
def holds : Value → Bool
  | .null => false
  | .bool b => b
  | .int n => n != 0
  | .float x => !x.isZero
  | .str s => !s.isEmpty
  | .list items => !items.isEmpty
  | .map fields => !fields.entries.isEmpty

/-- A number as a float; an integer is rounded to the nearest one. -/
def float? : Value → Option Double
  | .int n => some (.ofInt n.toInt)
  | .float x => some x
  | _ => none

/-- An unsigned number: an integer when it fits, else the nearest float. -/
def ofUInt64 (n : UInt64) : Value :=
  if n.toNat < 0x8000000000000000 then .int (.ofNat n.toNat) else .float (.ofNat n.toNat)

end Value

end MailMerge
