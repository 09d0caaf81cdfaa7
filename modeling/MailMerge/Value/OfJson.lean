/-
  MailMerge.Value.OfJson — the value of JSON data.
-/

import MailMerge.Json.Basic
import MailMerge.Value.Basic

namespace MailMerge.Value

/-- An integer is an integer when it fits, and else the nearest float. -/
def ofLiteral : Number.Literal → Value
  | .nat n => ofUInt64 n
  | .neg n => .int n
  | .float x => .float x

mutual

def ofJson : Json → Value
  | .null => .null
  | .bool b => .bool b
  | .number n => ofLiteral n
  | .text s => .str s
  | .list items => .list (ofJsonItems items)
  | .object members => .map (ofJsonMembers members)

def ofJsonItems : List Json → List Value
  | [] => []
  | j :: items => ofJson j :: ofJsonItems items

def ofJsonMembers : {low : Option Text} → Keyed.Table Json low → Keyed.Table Value low
  | _, .nil => .nil
  | _, .cons k j above members => .cons k (ofJson j) above (ofJsonMembers members)

end

end MailMerge.Value
