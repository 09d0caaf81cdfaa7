/-
  MailMerge.Proofs.Conversion — the values that data converts to.

  A map that is told entry by entry is made by insertions (`toValue_entries`). Data that tells a
  value tells the entries of a map in their order, and inserted into an empty table they make the
  same table again, so the value is converted to itself (`toValue_ofValue`). So the value of the
  caller's data can stand in its place (`Merger.merge_with_value_of_data`).
-/

import MailMerge.Data.Value
import MailMerge.Proofs.Rendering

namespace MailMerge

namespace Data

/-! ## Data that tells a value -/

section
variable {key d : Data} {k : Text} {v : Value}

/-- An entry that is told, a key with a value after it, is an insertion under the key's text. -/
theorem tell_keyed (hkey : (key.toValue >>= MapDraft.keyText) = .ok k) (hd : d.toValue = .ok v) (draft : MapDraft)
    (parts : List MapPart) :
    tell draft (.key key :: .value d :: parts) = tell ⟨draft.fields.insert k v, none⟩ parts := by
  obtain ⟨u, hu, htext⟩ := bind_eq_ok_iff.mp hkey
  have hwaiting : draft.key u = .ok { draft with waiting := some k } := by
    rw [MapDraft.key, htext]
    rfl
  simp only [tell, hu, hd, bind, Except.bind, hwaiting]
  rfl

theorem tell_entry (hd : d.toValue = .ok v) (k : Text) (draft : MapDraft) (parts : List MapPart) :
    tell draft (.key (.str k) :: .value d :: parts) = tell ⟨draft.fields.insert k v, none⟩ parts :=
  tell_keyed rfl hd draft parts

end

/-- The entry has the text as its key, and the value. -/
def Gives (e : Data × Data) (f : Text × Value) : Prop :=
  (e.1.toValue >>= MapDraft.keyText) = .ok f.1 ∧ e.2.toValue = .ok f.2

theorem tell_of_gives {es : List (Data × Data)} {fs : List (Text × Value)} (h : List.Forall₂ Gives es fs)
    (done : Keyed.Table Value) :
    tell ⟨done, none⟩ (es.flatMap fun (k, d) => [.key k, .value d]) = .ok ⟨done.insertAll fs, none⟩ := by
  induction h generalizing done with
  | nil => rfl
  | @cons e f es fs hgives _ ih =>
    simp only [List.flatMap_cons, List.cons_append, List.nil_append]
    rw [tell_keyed hgives.1 hgives.2, ih]
    rfl

/-- A map whose entries have texts as keys, and values, is these put in order. -/
theorem toValue_entries {es : List (Data × Data)} {fs : List (Text × Value)} (h : List.Forall₂ Gives es fs) :
    (entries es).toValue = .ok (.map (.ofList fs)) := by
  rw [entries, toValue, MapDraft.empty, tell_of_gives h]
  rfl

mutual

theorem toValue_ofValue : (v : Value) → (ofValue v).toValue = .ok v
  | .null | .bool _ | .int _ | .float _ | .str _ => by
    rw [ofValue, toValue]
  | .list items => by
    rw [ofValue, toValue, itemValues_ofItems items]
    rfl
  | .map fields => by
    rw [ofValue, toValue, MapDraft.empty, tell_ofFields fields]
    exact congrArg (Except.ok ∘ Value.map) fields.ofList_entries

theorem itemValues_ofItems : (items : List Value) → itemValues (ofItems items) = .ok items
  | [] => by
    rw [ofItems, itemValues]
  | v :: items => by
    rw [ofItems, itemValues, toValue_ofValue v, itemValues_ofItems items]
    rfl

theorem tell_ofFields : {low : Option Text} → (fields : Keyed.Table Value low) → (done : Keyed.Table Value) →
    tell ⟨done, none⟩ (ofFields fields) = .ok ⟨done.insertAll fields.entries, none⟩
  | _, .nil, _ => rfl
  | _, .cons k v _ fields, done => by
    rw [ofFields, tell_entry (toValue_ofValue v), tell_ofFields fields]
    rfl

end

end Data

/-! ## Values in the place of data -/

namespace Merger

/-- A merge looks at the value of the data alone. -/
theorem merge_eq_of_toValue_eq {d d' : Data} (h : d.toValue = d'.toValue) (m : Merger) (t : Text) :
    m.merge t d = m.merge t d' := by
  rw [merge, merge]
  refine congrArg (Tree.read t >>= ·) (funext fun T => ?_)
  rw [render, render, h]

/-- A value that is told as data, however deep, is converted to itself. So a template can be merged
    with the value of the caller's data in the place of the data, with the same text or error. -/
theorem merge_with_value_of_data :
    (∀ v : Value, (Data.ofValue v).toValue = .ok v) ∧
    ∀ (d : Data) (v : Value), d.toValue = .ok v →
      ∀ (m : Merger) (t : Text), m.merge t (Data.ofValue v) = m.merge t d := by
  refine ⟨Data.toValue_ofValue, fun d v hd => ?_⟩
  exact merge_eq_of_toValue_eq ((Data.toValue_ofValue v).trans hd.symm)

/-- A record told out of order, with a NaN and a negative zero, and a variant in it. -/
theorem merge_with_value_of_nested_data :
    let nan : Double := ⟨0x7FF8000000000001⟩
    let zero : Double := ⟨0x8000000000000000⟩
    let d : Data := .record [("b".toList, .list [.double nan, .double zero]), ("a".toList, .variantWrapped "V".toList (.nat8 1))]
    let v : Value := .map (.ofList [("a".toList, .map (.ofList [("V".toList, .int 1)])),
      ("b".toList, .list [.float nan, .float zero])])
    let t := "{{var:b}}".toList
    d.toValue = .ok v ∧ (Data.ofValue v).toValue = .ok v ∧
      standard.merge t (Data.ofValue v) = standard.merge t d := by
  intro nan zero d v t
  have hd : d.toValue = .ok v := rfl
  obtain ⟨hagain, hmerge⟩ := merge_with_value_of_data
  exact ⟨hd, hagain v, hmerge d v hd standard t⟩

end Merger

end MailMerge
