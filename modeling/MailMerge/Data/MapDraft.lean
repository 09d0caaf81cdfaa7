/-
  MailMerge.Data.MapDraft — a map under construction.

  Keys and values arrive one after another. A key waits for the next value and gives way to a
  later key; a value takes the waiting key with it, and fails when there is none. A key that
  still waits at the end is forgotten.
-/

import MailMerge.Error
import MailMerge.Value.Print

namespace MailMerge

structure MapDraft where
  /-- The entries so far. -/
  fields : Keyed.Table Value
  /-- The key that waits for its value. -/
  waiting : Option Text

namespace MapDraft

def empty : MapDraft := ⟨.empty, none⟩

/-- The text that a value is as a key: numbers and truth values are printed. -/
def keyText : Value → Except Error Text
  | .str s => .ok s
  | .int n => .ok (Value.int n).display
  | .float x => .ok (Value.float x).display
  | .bool b => .ok (Value.bool b).display
  | v => .error (.unconvertible (.badKey v.kind))

def key (d : MapDraft) (v : Value) : Except Error MapDraft :=
  (keyText v).map fun k => { d with waiting := some k }

def value (d : MapDraft) (v : Value) : Except Error MapDraft :=
  match d.waiting with
  | some k => .ok ⟨d.fields.insert k v, none⟩
  | none => .error (.unconvertible .missingKey)

end MapDraft

end MailMerge
