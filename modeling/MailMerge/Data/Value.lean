/-
  MailMerge.Data.Value — the value of the caller's data, and data that tells a value or JSON.

  Parts are converted in order and the first error is the result. A variant that holds
  something is a map with its name as the only key, so variants stay apart.
-/

import MailMerge.Data.Basic
import MailMerge.Data.MapDraft
import MailMerge.Json.Basic

namespace MailMerge

/-- The content of a variant under its name. -/
def Value.tagged (name : Text) (v : Value) : Value := .map (.ofList [(name, v)])

namespace Data

mutual

def toValue : Data → Except Error Value
  | .unit => .ok .null
  | .bool b => .ok (.bool b)
  | .int8 n => .ok (.int n.toInt64)
  | .int16 n => .ok (.int n.toInt64)
  | .int32 n => .ok (.int n.toInt64)
  | .int64 n => .ok (.int n)
  | .nat8 n => .ok (.int (.ofNat n.toNat))
  | .nat16 n => .ok (.int (.ofNat n.toNat))
  | .nat32 n => .ok (.int (.ofNat n.toNat))
  | .nat64 n => .ok (.ofUInt64 n)
  | .wide signed _ => .error (.unconvertible (.tooWide signed))
  | .single x => .ok (.float x.toDouble)
  | .double x => .ok (.float x)
  | .char c => .ok (.str [c])
  | .str s => .ok (.str s)
  | .bytes bs => .ok (.list (bs.map fun b => .int (.ofNat b.toNat)))
  | .absent => .ok .null
  | .present d => d.toValue
  | .wrapped d => d.toValue
  | .list items => .list <$> itemValues items
  | .map parts => (fun d => .map d.fields) <$> tell .empty parts
  | .record fields => .map <$> fieldValues .empty fields
  | .variant name => .ok (.str name)
  | .variantWrapped name d => .tagged name <$> d.toValue
  | .variantList name items => (fun vs => .tagged name (.list vs)) <$> itemValues items
  | .variantRecord name fields => (fun t => .tagged name (.map t)) <$> fieldValues .empty fields
  | .refused reason => .error (.unconvertible (.refused reason))

def itemValues : List Data → Except Error (List Value)
  | [] => .ok []
  | d :: items => do return (← d.toValue) :: (← itemValues items)

/-- The fields put into the entries so far. -/
def fieldValues (done : Keyed.Table Value) : List (Text × Data) → Except Error (Keyed.Table Value)
  | [] => .ok done
  | (name, d) :: fields => do fieldValues (done.insert name (← d.toValue)) fields

/-- The parts told to the map under construction. -/
def tell (draft : MapDraft) : List MapPart → Except Error MapDraft
  | [] => .ok draft
  | .key d :: parts => do tell (← draft.key (← d.toValue)) parts
  | .value d :: parts => do tell (← draft.value (← d.toValue)) parts

end

/-! ## Values and JSON as data -/

mutual

/-- Data that tells the value. -/
def ofValue : Value → Data
  | .null => .unit
  | .bool b => .bool b
  | .int n => .int64 n
  | .float x => .double x
  | .str s => .str s
  | .list items => .list (ofItems items)
  | .map fields => .map (ofFields fields)

def ofItems : List Value → List Data
  | [] => []
  | v :: items => ofValue v :: ofItems items

def ofFields : {low : Option Text} → Keyed.Table Value low → List MapPart
  | _, .nil => []
  | _, .cons k v _ fields => .key (.str k) :: .value (ofValue v) :: ofFields fields

end

mutual

/-- Data that tells the JSON. -/
def ofJson : Json → Data
  | .null => .unit
  | .bool b => .bool b
  | .number (.nat n) => .nat64 n
  | .number (.neg n) => .int64 n
  | .number (.float x) => .double x
  | .text s => .str s
  | .list items => .list (ofJsonItems items)
  | .object members => .map (ofJsonMembers members)

def ofJsonItems : List Json → List Data
  | [] => []
  | j :: items => ofJson j :: ofJsonItems items

def ofJsonMembers : {low : Option Text} → Keyed.Table Json low → List MapPart
  | _, .nil => []
  | _, .cons k j _ members => .key (.str k) :: .value (ofJson j) :: ofJsonMembers members

end

end Data

end MailMerge
