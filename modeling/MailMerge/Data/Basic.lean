/-
  MailMerge.Data.Basic — the caller's data, as it describes itself.

  Data says more than a value holds: the width of a number, whether something is a record or
  one variant of several, in which order keys and values were given. It may also refuse to
  be described.
-/

import MailMerge.Number.Double
import MailMerge.Text.Blank

namespace MailMerge

mutual

inductive Data
  /-- Nothing to say: the unit, or a record without fields and without braces. -/
  | unit
  | bool (b : Bool)
  | int8 (n : Int8)
  | int16 (n : Int16)
  | int32 (n : Int32)
  | int64 (n : Int64)
  | nat8 (n : UInt8)
  | nat16 (n : UInt16)
  | nat32 (n : UInt32)
  | nat64 (n : UInt64)
  /-- An integer of 128 bits. -/
  | wide (signed : Bool) (n : Int)
  | single (x : Single)
  | double (x : Double)
  | char (c : Char)
  | str (s : Text)
  | bytes (bs : List UInt8)
  /-- An optional datum that is absent. -/
  | absent
  /-- An optional datum that is present. -/
  | present (d : Data)
  /-- A record with one field that has no name. -/
  | wrapped (d : Data)
  /-- A sequence, a tuple, or a record whose fields have no names. -/
  | list (items : List Data)
  /-- A map, told as keys and values one after another. -/
  | map (parts : List MapPart)
  /-- A record with named fields. -/
  | record (fields : List (Text × Data))
  /-- One variant of several, which holds nothing. -/
  | variant (name : Text)
  /-- A variant with one datum. -/
  | variantWrapped (name : Text) (d : Data)
  /-- A variant with data in a row. -/
  | variantList (name : Text) (items : List Data)
  /-- A variant with named fields. -/
  | variantRecord (name : Text) (fields : List (Text × Data))
  /-- Data that refuses, with its reason. -/
  | refused (reason : Text)

/-- One step in telling a map. -/
inductive MapPart
  | key (d : Data)
  | value (d : Data)

end

deriving instance Repr for Data, MapPart

instance : Inhabited Data := ⟨.unit⟩

namespace Data

/-- The map with the given entries, told in their order. -/
def entries (es : List (Data × Data)) : Data := .map (es.flatMap fun (k, v) => [.key k, .value v])

/-- The map with texts as keys. -/
def object (es : List (Text × Data)) : Data := entries (es.map fun (k, v) => (.str k, v))

end Data

end MailMerge
