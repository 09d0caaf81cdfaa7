/-
  MailMerge.Json.Basic — JSON data as read from text.

  An object's members are a table: they stand in ascending order of their keys, one for each key.
-/

import MailMerge.Keyed
import MailMerge.Number.Numeral

namespace MailMerge

inductive Json
  | null
  | bool (b : Bool)
  | number (n : Number.Literal)
  | text (s : Text)
  | list (items : List Json)
  | object (members : Keyed.Table Json)

/-- Lists and objects hold other data; the rest are scalars. -/
def Json.isScalar : Json → Bool
  | .list _ | .object _ => false
  | _ => true

end MailMerge
