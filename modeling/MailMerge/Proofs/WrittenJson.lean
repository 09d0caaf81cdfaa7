/-
  MailMerge.Proofs.WrittenJson — the JSON text of a value reads back as the value.

  The text of a value is read as the data of the value (`read_json`), by induction on the value:
  scalars at any depth (`reads_scalar`), lists and maps one level deeper than what is in them
  (`reads_list`, `reads_map`); a map is written in the order of its keys, and its entries inserted one
  after another make it again. The data in turn has the value (`ofJson_toJson`). Floats are left
  out: there are some that JSON cannot write.

  JSON text is trimmed and has neither an operator nor a parenthesis outside quotations, so in an
  expression it is what stands after the colon of a reference, or the literal
  (`read_written_json`).
-/

import MailMerge.Proofs.Conversion
import MailMerge.Proofs.ExprRules
import MailMerge.Proofs.JsonParts
import MailMerge.Value.Print

namespace MailMerge

/-! ## Values without floats, and how deep they are -/

namespace Value

mutual

def FloatFree : Value → Prop
  | .float _ => False
  | .list items => FloatFreeItems items
  | .map fields => FloatFreeFields fields
  | _ => True

def FloatFreeItems : List Value → Prop
  | [] => True
  | v :: items => v.FloatFree ∧ FloatFreeItems items

def FloatFreeFields : {low : Option Text} → Keyed.Table Value low → Prop
  | _, .nil => True
  | _, .cons _ v _ fields => v.FloatFree ∧ FloatFreeFields fields

end

mutual

/-- How many lists and maps are nested in one another; a scalar has none. -/
def depth : Value → Nat
  | .list items => depthItems items + 1
  | .map fields => depthFields fields + 1
  | _ => 0

def depthItems : List Value → Nat
  | [] => 0
  | v :: items => max v.depth (depthItems items)

def depthFields : {low : Option Text} → Keyed.Table Value low → Nat
  | _, .nil => 0
  | _, .cons _ v _ fields => max v.depth (depthFields fields)

end

/-- An entry of a map in JSON. -/
def jsonField (e : Text × Value) : Text := Json.quote e.1 ++ ':' :: e.2.json

/-- Texts of which all but the first stand behind a comma. -/
theorem append_flatMap_eq_intercalate {α : Type} (text : α → Text) (a : α) (as : List α) :
    text a ++ as.flatMap (fun b => ',' :: text b) = [','].intercalate ((a :: as).map text) := by
  induction as generalizing a with
  | nil => rw [List.map_singleton, List.intercalate_singleton, List.flatMap_nil, List.append_nil]
  | cons b as ih =>
    rw [List.flatMap_cons, List.cons_append, ih]
    simp only [List.map_cons, List.intercalate_cons_cons, List.append_assoc, List.singleton_append]

theorem jsonItems_eq (items : List Value) : jsonItems items = items.flatMap (fun v => ',' :: v.json) ++ [']'] := by
  induction items with
  | nil => rfl
  | cons v items ih => rw [jsonItems, ih, List.flatMap_cons, List.cons_append, List.cons_append, List.append_assoc]

theorem jsonFields_eq {low : Option Text} (fields : Keyed.Table Value low) :
    jsonFields fields = fields.entries.flatMap (fun e => ',' :: jsonField e) ++ ['}'] := by
  induction fields with
  | nil => rfl
  | cons k v _ fields ih =>
    rw [jsonFields, ih, Keyed.Table.entries, List.flatMap_cons, List.cons_append, List.cons_append, ← List.append_assoc]
    rfl

theorem json_list (items : List Value) : (list items).json = '[' :: ([','].intercalate (items.map json) ++ [']']) := by
  cases items with
  | nil => rfl
  | cons v items => rw [json, jsonItems_eq, ← List.append_assoc, append_flatMap_eq_intercalate]

theorem json_map (fields : Keyed.Table Value) :
    (map fields).json = '{' :: ([','].intercalate (fields.entries.map jsonField) ++ ['}']) := by
  cases fields with
  | nil => rfl
  | cons k v _ fields =>
    rw [Keyed.Table.entries, ← append_flatMap_eq_intercalate, List.append_assoc, ← jsonFields_eq]
    rfl

/-! ## The data of a value -/

mutual

/-- The data that the value's text gives. -/
def toJson : Value → Json
  | .null => .null
  | .bool b => .bool b
  | .int n => .number (.ofInt64 n)
  | .float x => .number (.float x)
  | .str s => .text s
  | .list items => .list (toJsonItems items)
  | .map fields => .object (toJsonFields fields)

def toJsonItems : List Value → List Json
  | [] => []
  | v :: items => v.toJson :: toJsonItems items

def toJsonFields : {low : Option Text} → Keyed.Table Value low → Keyed.Table Json low
  | _, .nil => .nil
  | _, .cons k v above fields => .cons k v.toJson above (toJsonFields fields)

end

theorem ofLiteral_ofInt64 (n : Int64) : ofLiteral (.ofInt64 n) = .int n := by
  have hgreatest := n.toInt_lt
  rw [Number.Literal.ofInt64]
  split
  · rfl
  · rename_i hn
    have hfits : n.toInt.natAbs < UInt64.size := Nat.lt_of_lt_of_le (m := 2 ^ 63) (by omega) (by decide)
    have hnat : (UInt64.ofNat n.toInt.natAbs).toNat = n.toInt.natAbs := UInt64.toNat_ofNat_of_lt' hfits
    have hback : Int64.ofNat n.toInt.natAbs = n := by
      rw [← Int64.ofInt_eq_ofNat, Int.natAbs_of_nonneg (by omega), Int64.ofInt_toInt]
    rw [ofLiteral, ofUInt64, hnat, if_pos (by omega), hback]

mutual

theorem ofJson_toJson : (v : Value) → ofJson v.toJson = v
  | .null | .bool _ | .float _ | .str _ => rfl
  | .int n => by
    rw [toJson, ofJson, ofLiteral_ofInt64]
  | .list items => by
    rw [toJson, ofJson, ofJsonItems_toJsonItems items]
  | .map fields => by
    rw [toJson, ofJson, ofJsonMembers_toJsonFields fields]

theorem ofJsonItems_toJsonItems : (items : List Value) → ofJsonItems (toJsonItems items) = items
  | [] => rfl
  | v :: items => by
    rw [toJsonItems, ofJsonItems, ofJson_toJson v, ofJsonItems_toJsonItems items]

theorem ofJsonMembers_toJsonFields : {low : Option Text} → (fields : Keyed.Table Value low) →
    ofJsonMembers (toJsonFields fields) = fields
  | _, .nil => rfl
  | _, .cons k v _ fields => by
    rw [toJsonFields, ofJsonMembers, ofJson_toJson v, ofJsonMembers_toJsonFields fields]

end

end Value

/-! ## Reading the text of a value -/

namespace Json

open Number (Numeral)

theorem closes_bracket : Closes ']' := ⟨by decide, by decide, by decide⟩

theorem closes_brace : Closes '}' := ⟨by decide, by decide, by decide⟩

theorem value_run_closed (depth : Nat) (s : Text) (h : (skip ']' s).isSome) : (value depth).run s = none := by
  obtain ⟨rest, hskip⟩ := Option.isSome_iff_exists.mp h
  obtain ⟨nested?, hrun⟩ := Expr.value_run depth
  rw [hrun, readValue, skipSpaces_of_skip hskip]
  rfl

theorem member_run (nested : Reader Json) (s : Text) : (member nested).run s = readMember nested s := rfl

theorem member_run_closed (nested : Reader Json) (s : Text) (h : (skip '}' s).isSome) :
    (member nested).run s = none := by
  obtain ⟨rest, hskip⟩ := Option.isSome_iff_exists.mp h
  have hquote : skip '"' s = none := by
    rw [skip, skipSpaces_of_skip hskip]
    rfl
  rw [member_run, readMember, hquote]

theorem readValue_number {nested? : Option (Reader Json)} {c : Char} (s : Text) (hc : c.isDigit = true ∨ c = '-') :
    readValue nested? (c :: s) = readNumber (c :: s) := by
  have apart (d : Char) (hdigit : d.isDigit = false) (hsign : d ≠ '-') : c ≠ d := by
    rintro rfl
    rcases hc with hc | hc
    · rw [hdigit] at hc
      cases hc
    · exact hsign hc
  have hspace : isSpace c = false := by
    simp only [isSpace, Bool.or_eq_false_iff, beq_eq_false_iff_ne]
    exact ⟨⟨⟨apart _ (by decide) (by decide), apart _ (by decide) (by decide)⟩, apart _ (by decide) (by decide)⟩,
      apart _ (by decide) (by decide)⟩
  have hscalar : readScalar (c :: s) = readNumber (c :: s) := by
    unfold readScalar
    split
    case h_5 => rfl
    all_goals
      rename_i heq
      cases heq
      exact absurd rfl (apart _ (by decide) (by decide))
  rw [readValue, skipSpaces_cons s hspace]
  split
  case h_3 => exact hscalar
  all_goals
    rename_i heq
    cases heq
    exact absurd rfl (apart _ (by decide) (by decide))

theorem readNumber_ofInt64 (n : Int64) {rest : Text} (h : Numeral.Stops rest) :
    readNumber (Number.ofInt n.toInt ++ rest) = some (.number (.ofInt64 n), rest) := by
  rw [readNumber, Numeral.read_ofInt n.toInt h]
  simp only [Numeral.value_ofInt64, Option.map_some]

/-- A scalar is read at whatever depth. -/
theorem reads_scalar (nested? : Option (Reader Json)) {v : Value} (hfloat : v.FloatFree) (hdepth : v.depth = 0)
    {rest : Text} (h : Numeral.Stops rest) : readValue nested? (v.json ++ rest) = some (v.toJson, rest) := by
  cases v with
  | null => rfl
  | bool b => cases b <;> rfl
  | int n =>
    obtain ⟨c, s, hs⟩ := List.exists_cons_of_ne_nil (Number.ofInt_ne_nil n.toInt)
    have hc : c.isDigit = true ∨ c = '-' := Number.isDigit_of_mem_ofInt (by rw [hs]; exact List.mem_cons_self)
    have hnumber := readNumber_ofInt64 n h
    rw [hs, List.cons_append] at hnumber
    rw [Value.json, hs, List.cons_append, readValue_number _ hc, hnumber]
    rfl
  | float x => exact hfloat.elim
  | str s =>
    have htail : readTail (s.flatMap quoteChar ++ ['"'] ++ rest) = some (s, rest) := by
      rw [List.append_assoc]
      exact readTail_quote s rest
    change (readTail (s.flatMap quoteChar ++ ['"'] ++ rest)).map _ = _
    rw [htail]
    rfl
  | list items => cases hdepth
  | map fields => cases hdepth

theorem reads_member {nested : Reader Json} {k : Text} {v : Value} (h : nested.Reads v.json v.toJson) :
    (member nested).Reads (Value.jsonField (k, v)) (k, v.toJson) := by
  intro rest hrest
  have htext : Value.jsonField (k, v) ++ rest = '"' :: (k.flatMap quoteChar ++ '"' :: ':' :: (v.json ++ rest)) := by
    simp [Value.jsonField, quote]
  have hquote {s : Text} : skip '"' ('"' :: s) = some s := skip_cons s (by decide)
  have hcolon {s : Text} : skip ':' (':' :: s) = some s := skip_cons s (by decide)
  rw [htext]
  simp only [member_run, readMember, hquote, readTail_quote, hcolon, h rest hrest, Option.map_some]

/-- A list is read one level deeper than its items. -/
theorem reads_list {depth : Nat} {items : List Value}
    (h : List.Forall₂ (value depth).Reads (items.map Value.json) (Value.toJsonItems items)) :
    (value (depth + 1)).Reads (Value.list items).json (Value.list items).toJson := by
  intro rest _
  have hlist := Reader.list_of_reads closes_bracket (value_run_closed depth) h rest
  rw [Value.json_list, List.cons_append, List.append_assoc, List.singleton_append]
  change ((value depth).list ']' _).map _ = _
  rw [hlist]
  rfl

theorem reads_map {depth : Nat} {fields : Keyed.Table Value}
    (h : List.Forall₂ (member (value depth)).Reads (fields.entries.map Value.jsonField)
      (Value.toJsonFields fields).entries) :
    (value (depth + 1)).Reads (Value.map fields).json (Value.map fields).toJson := by
  intro rest _
  have hlist := Reader.list_of_reads closes_brace (member_run_closed (value depth)) h rest
  rw [Value.json_map, List.cons_append, List.append_assoc, List.singleton_append]
  change ((member (value depth)).list '}' _).map _ = _
  rw [hlist, Value.toJson, Option.map_some]
  simp only [Keyed.Table.ofList_entries]

-- The induction is on the value; the depth left to the reader goes down with each list and map.
mutual

theorem reads_json : (v : Value) → (depth : Nat) → v.FloatFree → v.depth ≤ depth →
    (value depth).Reads v.json v.toJson
  | .null, depth, hfloat, _ | .bool _, depth, hfloat, _ | .int _, depth, hfloat, _ | .str _, depth, hfloat, _ => by
    intro rest hrest
    obtain ⟨nested?, hrun⟩ := Expr.value_run depth
    rw [hrun]
    exact reads_scalar nested? hfloat rfl hrest
  | .float _, _, hfloat, _ => hfloat.elim
  | .list _, 0, _, hdepth | .map _, 0, _, hdepth => absurd hdepth (Nat.not_succ_le_zero _)
  | .list items, depth + 1, hfloat, hdepth =>
    reads_list (reads_items items depth hfloat (Nat.le_of_succ_le_succ hdepth))
  | .map fields, depth + 1, hfloat, hdepth =>
    reads_map (reads_fields fields depth hfloat (Nat.le_of_succ_le_succ hdepth))

theorem reads_items : (items : List Value) → (depth : Nat) → Value.FloatFreeItems items →
    Value.depthItems items ≤ depth →
    List.Forall₂ (value depth).Reads (items.map Value.json) (Value.toJsonItems items)
  | [], _, _, _ => .nil
  | v :: items, depth, hfloat, hdepth =>
    have hdepths := Nat.max_le.mp hdepth
    .cons (reads_json v depth hfloat.1 hdepths.1) (reads_items items depth hfloat.2 hdepths.2)

theorem reads_fields : {low : Option Text} → (fields : Keyed.Table Value low) → (depth : Nat) →
    Value.FloatFreeFields fields → Value.depthFields fields ≤ depth →
    List.Forall₂ (member (value depth)).Reads (fields.entries.map Value.jsonField) (Value.toJsonFields fields).entries
  | _, .nil, _, _, _ => .nil
  | _, .cons _ v _ fields, depth, hfloat, hdepth =>
    have hdepths := Nat.max_le.mp hdepth
    .cons (reads_member (reads_json v depth hfloat.1 hdepths.1)) (reads_fields fields depth hfloat.2 hdepths.2)

end

/-- The JSON text of a value is its data. -/
theorem read_json {v : Value} (hfloat : v.FloatFree) (hdepth : v.depth ≤ maxDepth) :
    read v.json = some v.toJson := by
  have hrun := reads_json v maxDepth hfloat hdepth [] Numeral.stops_nil
  rw [List.append_nil] at hrun
  rw [read, hrun]
  rfl

end Json

/-! ## Expressions -/

theorem Value.trimmed_json {v : Value} (hfloat : v.FloatFree) : Text.Trimmed v.json ∧ v.json ≠ [] := by
  cases v with
  | null => decide
  | bool b => cases b <;> decide
  | int n => exact ⟨Text.trimmed_word fun c hc => Number.isBlank_of_mem_ofInt hc, Number.ofInt_ne_nil n.toInt⟩
  | float x => exact hfloat.elim
  | str s => exact ⟨Text.trimmed_enclosed _ (by decide) (by decide), List.cons_ne_nil _ _⟩
  | list items =>
    rw [json_list]
    exact ⟨Text.trimmed_enclosed _ (by decide) (by decide), List.cons_ne_nil _ _⟩
  | map fields =>
    rw [json_map]
    exact ⟨Text.trimmed_enclosed _ (by decide) (by decide), List.cons_ne_nil _ _⟩

namespace Expr

/-- The JSON text of a value is a fallback with that value, and the JSON text of a scalar is a literal
    with that value. It is what a list or map is displayed as. -/
theorem read_written_json {v : Value} (hfloat : v.FloatFree) (hdepth : v.depth ≤ 127) :
    read ("var:x:".toList ++ v.json) = .var ("var:x:".toList ++ v.json) ["var:x".toList] (some v) ∧
      (v.kind ≠ .list ∧ v.kind ≠ .map → read v.json = .literal v.json v) ∧
      (v.kind = .list ∨ v.kind = .map → v.display = v.json) := by
  have hjson : Json.read v.json = some v.toJson := Json.read_json hfloat hdepth
  have hvalue : Value.ofJson v.toJson = v := Value.ofJson_toJson v
  obtain ⟨htrimmed, hne⟩ := Value.trimmed_json hfloat
  refine ⟨?_, fun hscalar => ?_, fun hnested => ?_⟩
  · have hreference : Reference.read ("var:x:".toList ++ v.json) = some (["var:x".toList], some v) := by
      have hfallback : Json.read (Text.trim v.json) = some v.toJson := by
        rw [Text.trim_of_trimmed htrimmed, hjson]
      have hname : Text.isName "x".toList = true := by decide
      have hread := Reference.read_marked_json hname hfallback
      rwa [hvalue] at hread
    have hwhole : Text.Trimmed ("var:x:".toList ++ v.json) :=
      Text.trimmed_append (List.cons_ne_nil _ _) hne (fun c hc => by cases hc; decide) htrimmed.stop
    exact read_of_reference hwhole hreference
  · have hliteral : readLiteral v.json = some v := by
      have hdata : v.toJson.isScalar = true := by
        cases v with
        | list items => exact absurd rfl hscalar.1
        | map fields => exact absurd rfl hscalar.2
        | _ => rfl
      rw [readLiteral, hjson]
      simp only [hdata, hvalue, if_true]
    exact read_of_literal htrimmed hliteral
  · cases v with
    | list items => rfl
    | map fields => rfl
    | _ => rcases hnested with h | h <;> cases h

/-- A text that needs escapes and has a parenthesis and an operator in it, and a map with that text and
    the least integer. -/
theorem read_written_json_map :
    let w : Value := .str " (\\ == \x01é".toList
    let v : Value := .map (.ofList [("a\"".toList, .list [.int (-9223372036854775808), w])])
    (w.FloatFree ∧ w.depth ≤ 127 ∧ v.FloatFree ∧ v.depth ≤ 127) ∧
    (w.json = "\" (\\\\ == \\u0001é\"".toList ∧ read w.json = .literal w.json w) ∧
    (v.json = "\x7b\"a\\\"\":[-9223372036854775808,\" (\\\\ == \\u0001é\"]\x7d".toList ∧
      read ("var:x:".toList ++ v.json) = .var ("var:x:".toList ++ v.json) ["var:x".toList] (some v)) := by
  intro w v
  have hwdepth : w.depth ≤ 127 := by decide
  have hliteral : read w.json = .literal w.json w :=
    (read_written_json (v := w) trivial hwdepth).2.1 ⟨by decide, by decide⟩
  have hfloat : v.FloatFree := ⟨⟨trivial, trivial, trivial⟩, trivial⟩
  have hdepth : v.depth ≤ 127 := by decide
  have hfallback := (read_written_json hfloat hdepth).1
  exact ⟨⟨trivial, hwdepth, hfloat, hdepth⟩, ⟨by decide, hliteral⟩, by decide, hfallback⟩

end Expr

end MailMerge
