/-
  MailMerge.Proofs.PlainTypes — what has a plain type becomes the same value in both ways.

  A datum of a plain type can be turned into its value at once, or be told as data that is then
  converted like the data of any caller. The first way maps over lists and collects the entries
  of a map; the second converts items one after another and is told keys and values in turns.

  Proved: what is told for the entries of a map puts the same entries into it in the same order
  (`Data.toValue_object`, `Data.tell_ofJsonMembers`). So JSON of any shape (`Data.toValue_ofJson`) and
  data of any plain type (`Plain.toValue_toData`) never fail to convert, and have the same value in
  both ways.
-/

import MailMerge.Plain
import MailMerge.Proofs.Conversion

namespace MailMerge

namespace Data

/-! ## Lists and maps of one type -/

section
variable {α : Type} {f : α → Data} {g : α → Value} (h : ∀ a, (f a).toValue = .ok (g a))
include h

theorem itemValues_map (as : List α) : itemValues (as.map f) = .ok (as.map g) := by
  induction as with
  | nil => rfl
  | cons a as ih =>
    rw [List.map_cons, itemValues, h a, ih]
    rfl

theorem toValue_list (as : List α) : (Data.list (as.map f)).toValue = .ok (.list (as.map g)) := by
  rw [toValue, itemValues_map h]
  rfl

theorem toValue_object (es : List (Text × α)) :
    (object (es.map fun e => (e.1, f e.2))).toValue = .ok (.map (.ofList (es.map fun e => (e.1, g e.2)))) := by
  refine toValue_entries ?_
  rw [List.map_map, List.forall₂_map_left_iff, List.forall₂_map_right_iff, List.forall₂_same]
  exact fun e _ => ⟨rfl, h e.2⟩

end

/-! ## JSON -/

theorem toValue_number (n : Number.Literal) : (ofJson (.number n)).toValue = .ok (.ofLiteral n) := by
  cases n with
  | nat n => rfl
  | neg n => rfl
  | float x => rfl

mutual

/-- JSON is converted to its value. -/
theorem toValue_ofJson : (j : Json) → (ofJson j).toValue = .ok (.ofJson j)
  | .null | .bool _ | .text _ => rfl
  | .number n => toValue_number n
  | .list items => by
    rw [ofJson, toValue, itemValues_ofJsonItems items, Value.ofJson]
    rfl
  | .object members => by
    rw [ofJson, toValue, MapDraft.empty, tell_ofJsonMembers members, Value.ofJson]
    exact congrArg (Except.ok ∘ Value.map) (Value.ofJsonMembers members).ofList_entries

theorem itemValues_ofJsonItems : (items : List Json) → itemValues (ofJsonItems items) = .ok (Value.ofJsonItems items)
  | [] => rfl
  | j :: items => by
    rw [ofJsonItems, itemValues, toValue_ofJson j, itemValues_ofJsonItems items]
    rfl

theorem tell_ofJsonMembers : {low : Option Text} → (members : Keyed.Table Json low) → (done : Keyed.Table Value) →
    tell ⟨done, none⟩ (ofJsonMembers members) = .ok ⟨done.insertAll (Value.ofJsonMembers members).entries, none⟩
  | _, .nil, _ => rfl
  | _, .cons k j _ members, done => by
    rw [ofJsonMembers, tell_entry (toValue_ofJson j), tell_ofJsonMembers members]
    rfl

end

end Data

namespace Plain

/-- Whatever has a plain type, however deep in options, lists and maps, is converted, and to the value
    that it can be turned into at once. -/
theorem toValue_toData (t : Plain) (x : t.Carrier) : (t.toData x).toValue = .ok (t.toValue x) := by
  induction t with
  | bool | int8 | int16 | int32 | int64 | nat8 | nat16 | nat32 | nat64 | single | double | text => rfl
  | json => exact Data.toValue_ofJson x
  | option item ih =>
    cases x with
    | none => rfl
    | some x =>
      show (Data.present (item.toData x)).toValue = .ok (item.toValue x)
      rw [Data.toValue]
      exact ih x
  | list item ih => exact Data.toValue_list ih x
  | map item ih => exact Data.toValue_object ih x

/-- A map that is given with one key twice. -/
example :
    let x : List (Text × Option (List Int64)) := [("b".toList, some [1]), ("a".toList, none), ("b".toList, some [2, 3])]
    (Plain.map (.option (.list .int64))).toValue x =
      .map (.ofList [("a".toList, .null), ("b".toList, .list [.int 2, .int 3])]) := rfl

end Plain

end MailMerge
