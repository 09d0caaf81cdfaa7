/-
  MailMerge.Value.Compare — equality and order of values.

  There are two equalities. `same` never holds between an integer and a float; `equals`
  compares numbers by their values, an integer against a float as floats, and lists and maps
  by their elements. A NaN equals nothing under either. The order of `compare?` is between
  two numbers, two texts or two truth values only.
-/

import MailMerge.Error
import MailMerge.Value.Basic

namespace MailMerge.Value

mutual

/-- Equality under which an integer and a float always differ. -/
def same : Value → Value → Bool
  | .null, .null => true
  | .bool a, .bool b => a == b
  | .int a, .int b => a == b
  | .float a, .float b => a.same b
  | .str a, .str b => a == b
  | .list as, .list bs => sameItems as bs
  | .map as, .map bs => sameFields as bs
  | _, _ => false

def sameItems : List Value → List Value → Bool
  | [], [] => true
  | a :: as, b :: bs => same a b && sameItems as bs
  | _, _ => false

def sameFields : {low low' : Option Text} → Keyed.Table Value low → Keyed.Table Value low' → Bool
  | _, _, .nil, .nil => true
  | _, _, .cons k a _ as, .cons l b _ bs => k == l && same a b && sameFields as bs
  | _, _, _, _ => false

end

mutual

/-- Equality under which an integer equals the float of the same value. -/
def equals : Value → Value → Bool
  | .null, .null => true
  | .bool a, .bool b => a == b
  | .int a, .int b => a == b
  | .int a, .float b => (Double.ofInt a.toInt).same b
  | .float a, .int b => a.same (Double.ofInt b.toInt)
  | .float a, .float b => a.same b
  | .str a, .str b => a == b
  | .list as, .list bs => equalsItems as bs
  | .map as, .map bs => equalsFields as bs
  | _, _ => false

def equalsItems : List Value → List Value → Bool
  | [], [] => true
  | a :: as, b :: bs => equals a b && equalsItems as bs
  | _, _ => false

def equalsFields : {low low' : Option Text} → Keyed.Table Value low → Keyed.Table Value low' → Bool
  | _, _, .nil, .nil => true
  | _, _, .cons k a _ as, .cons l b _ bs => k == l && equals a b && equalsFields as bs
  | _, _, _, _ => false

end

/-- The order of two values of one sort; none when there is no such order. -/
def compare? : Value → Value → Option Ordering
  | .int a, .int b => some (compare a b)
  | .str a, .str b => some (compare a b)
  | .bool a, .bool b => some (compare a b)
  | a, b =>
    match a.float?, b.float? with
    | some x, some y => x.compare? y
    | _, _ => none

/-- The order of two values; without one, the error that names their kinds. -/
def order (a b : Value) : Except Error Ordering :=
  match a.compare? b with
  | some o => .ok o
  | none => .error (.incomparable a.kind b.kind)

end MailMerge.Value
