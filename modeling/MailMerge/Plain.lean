/-
  MailMerge.Plain — plain types, whose data has a value without a detour.

  A plain type is a truth value, a number of some width, a text, JSON, or an option, a list
  or a map with texts as keys of plain types. What has such a type can be turned into a value
  at once (`toValue`, which never fails), or be told as data (`toData`).
-/

import MailMerge.Data.Value
import MailMerge.Value.OfJson

namespace MailMerge

inductive Plain
  | bool
  | int8
  | int16
  | int32
  | int64
  | nat8
  | nat16
  | nat32
  | nat64
  | single
  | double
  | text
  | json
  | option (item : Plain)
  | list (item : Plain)
  /-- A map, given by its entries in any order; the last of equal keys counts. -/
  | map (item : Plain)
  deriving DecidableEq, Repr

namespace Plain

/-- What has the type. -/
def Carrier : Plain → Type
  | .bool => Bool
  | .int8 => Int8
  | .int16 => Int16
  | .int32 => Int32
  | .int64 => Int64
  | .nat8 => UInt8
  | .nat16 => UInt16
  | .nat32 => UInt32
  | .nat64 => UInt64
  | .single => Single
  | .double => Double
  | .text => Text
  | .json => Json
  | .option item => Option item.Carrier
  | .list item => List item.Carrier
  | .map item => List (Text × item.Carrier)

def toValue : (t : Plain) → t.Carrier → Value
  | .bool, b => .bool b
  | .int8, n => .int (Int8.toInt64 n)
  | .int16, n => .int (Int16.toInt64 n)
  | .int32, n => .int (Int32.toInt64 n)
  | .int64, n => .int n
  | .nat8, n => .int (.ofNat (UInt8.toNat n))
  | .nat16, n => .int (.ofNat (UInt16.toNat n))
  | .nat32, n => .int (.ofNat (UInt32.toNat n))
  | .nat64, n => .ofUInt64 n
  | .single, x => .float (Single.toDouble x)
  | .double, x => .float x
  | .text, s => .str s
  | .json, j => .ofJson j
  | .option _, none => .null
  | .option item, some x => item.toValue x
  | .list item, xs => .list (List.map item.toValue xs)
  | .map item, es => .map (.ofList (List.map (fun e => (e.1, item.toValue e.2)) es))

def toData : (t : Plain) → t.Carrier → Data
  | .bool, b => .bool b
  | .int8, n => .int8 n
  | .int16, n => .int16 n
  | .int32, n => .int32 n
  | .int64, n => .int64 n
  | .nat8, n => .nat8 n
  | .nat16, n => .nat16 n
  | .nat32, n => .nat32 n
  | .nat64, n => .nat64 n
  | .single, x => .single x
  | .double, x => .double x
  | .text, s => .str s
  | .json, j => .ofJson j
  | .option _, none => .absent
  | .option item, some x => .present (item.toData x)
  | .list item, xs => .list (List.map item.toData xs)
  | .map item, es => .object (List.map (fun e => (e.1, item.toData e.2)) es)

end Plain

end MailMerge
