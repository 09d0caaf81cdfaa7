/-
  MailMerge.Value.Print — values as text.

  A list or map is printed as JSON without spaces; a scalar is printed bare, and null prints
  as nothing.
-/

import MailMerge.Json.Quoted
import MailMerge.Number.Layout
import MailMerge.Value.Basic

namespace MailMerge.Value

mutual

/-- The JSON text of the value. -/
def json : Value → Text
  | .null => "null".toList
  | .bool b => if b then "true".toList else "false".toList
  | .int n => Number.ofInt n.toInt
  | .float x => Number.Layout.json.write x
  | .str s => Json.quote s
  | .list [] => ['[', ']']
  | .list (v :: items) => '[' :: (json v ++ jsonItems items)
  | .map .nil => ['{', '}']
  | .map (.cons k v _ fields) => '{' :: (Json.quote k ++ ':' :: json v ++ jsonFields fields)

/-- The items after the first, and the closing bracket. -/
def jsonItems : List Value → Text
  | [] => [']']
  | v :: items => ',' :: (json v ++ jsonItems items)

/-- The entries after the first, and the closing brace. -/
def jsonFields : {low : Option Text} → Keyed.Table Value low → Text
  | _, .nil => ['}']
  | _, .cons k v _ fields => ',' :: (Json.quote k ++ ':' :: json v ++ jsonFields fields)

end

/-- The text that stands for the value in output. -/
def display : Value → Text
  | .null => []
  | .float x => Number.Layout.plain.write x
  | .str s => s
  | v => v.json

end MailMerge.Value
