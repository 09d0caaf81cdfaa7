/-
  MailMerge.Proofs.MapParts — maps told in any order of keys and values.

  Keys and values need not come by turns. What has been told so far decides what a draft of the
  map holds: its entries are the values by the last key before each, a later value in the place of
  an earlier one under the same key, and its waiting key is the last key, unless a value has
  come since (`MapDraft.Reflects`). One more part keeps it so (`MapDraft.take_key_reflects`,
  `MapDraft.take_value_reflects`), or is a value without a key, which is the only way to fail
  (`MapDraft.foldlM_take_cases`).

  Proved: telling the parts of a map fails exactly when some value has no key of its own, and
  otherwise gives the map of the last values under their keys; a key that no value takes leaves no
  trace (`Data.toValue_map_in_any_order`).
-/

import Mathlib.Data.List.Induction
import MailMerge.Proofs.Conversion

namespace MailMerge

/-- What a part of a map comes to: the text of a key, or a value. -/
inductive Told
  | key (k : Text)
  | value (v : Value)

namespace Told

/-! ## What has been told -/

def key? : Told → Option Text
  | .key k => some k
  | .value _ => none

/-- The last key. -/
def lastKey? (ts : List Told) : Option Text := (ts.filterMap key?).getLast?

/-- A key has been told since the last value, or since the start. -/
def Ready (ts : List Told) : Prop := ∃ a k b, ts = a ++ .key k :: b ∧ ∀ v, .value v ∉ b

/-- Some value is told where no key has been told since the value before it, or since the start. -/
def Keyless (ts : List Told) : Prop := ∃ before v, before ++ [.value v] <+: ts ∧ ¬ Ready before

/-- The value is the last of those before which this was the last key. -/
def LastUnder (ts : List Told) (k : Text) (v : Value) : Prop :=
  ∃ before, before ++ [.value v] <+: ts ∧ lastKey? before = some k ∧
    ∀ later u, later ++ [.value u] <+: ts → lastKey? later = some k → later.length ≤ before.length

section
variable {ts : List Told} {k : Text} {v w : Value}

theorem value_prefix_concat_iff {before : List Told} {t : Told} :
    before ++ [.value v] <+: ts ++ [t] ↔ before = ts ∧ t = .value v ∨ before ++ [.value v] <+: ts := by
  rw [List.prefix_concat_iff]
  refine or_congr_left ⟨fun h => ?_, ?_⟩
  · obtain ⟨hbefore, hlast⟩ := List.append_inj' h rfl
    exact ⟨hbefore, (List.singleton_inj.mp hlast).symm⟩
  · rintro ⟨rfl, rfl⟩
    rfl

theorem lastKey?_concat_key : lastKey? (ts ++ [.key k]) = some k := by
  simp [lastKey?, key?]

theorem not_ready_nil : ¬ Ready [] := by
  rintro ⟨a, k, b, h, -⟩
  cases a <;> cases h

theorem ready_concat_key : Ready (ts ++ [.key k]) := ⟨ts, k, [], rfl, nofun⟩

theorem not_ready_concat_value : ¬ Ready (ts ++ [.value v]) := by
  rintro ⟨a, k, b, h, hb⟩
  rcases List.eq_nil_or_concat b with rfl | ⟨b, t, rfl⟩
  · cases List.singleton_inj.mp (List.append_inj' h rfl).2
  · rw [List.concat_eq_append, ← List.cons_append, ← List.append_assoc] at h
    obtain rfl := List.singleton_inj.mp (List.append_inj' h rfl).2
    exact hb v (by simp)

theorem exists_lastKey?_of_ready (h : Ready ts) : ∃ k, lastKey? ts = some k := by
  obtain ⟨a, k, b, rfl, -⟩ := h
  refine Option.isSome_iff_exists.mp ?_
  rw [lastKey?, List.getLast?_isSome]
  simp [key?]

theorem keyless_concat_key : Keyless (ts ++ [.key k]) ↔ Keyless ts := by
  simp [Keyless, value_prefix_concat_iff]

theorem keyless_concat_value : Keyless (ts ++ [.value v]) ↔ ¬ Ready ts ∨ Keyless ts := by
  simp only [Keyless, value_prefix_concat_iff, or_and_right, exists_or]
  refine or_congr_left ⟨?_, fun h => ⟨ts, v, ⟨rfl, rfl⟩, h⟩⟩
  rintro ⟨_, _, ⟨rfl, -⟩, h⟩
  exact h

theorem lastUnder_concat_key {k' : Text} : LastUnder (ts ++ [.key k']) k v ↔ LastUnder ts k v := by
  simp [LastUnder, value_prefix_concat_iff]

/-- One more value comes under the last key, and changes nothing under any other. -/
theorem lastUnder_concat_value :
    LastUnder (ts ++ [.value w]) k v ↔ if lastKey? ts = some k then v = w else LastUnder ts k v := by
  have hshort {before : List Told} {u : Value} (h : before ++ [.value u] <+: ts) : before.length < ts.length := by
    have := h.length_le
    rw [List.length_append, List.length_singleton] at this
    omega
  constructor
  · rintro ⟨before, hprefix, hkey, hlast⟩
    rcases value_prefix_concat_iff.mp hprefix with ⟨rfl, heq⟩ | hearlier
    · rw [if_pos hkey]
      cases heq
      rfl
    · split
      · rename_i hts
        have := hlast ts w (List.prefix_refl _) hts
        have := hshort hearlier
        omega
      · exact ⟨before, hearlier, hkey, fun later u hlater =>
          hlast later u (value_prefix_concat_iff.mpr (Or.inr hlater))⟩
  · intro h
    split at h
    · rename_i hts
      subst h
      refine ⟨ts, List.prefix_refl _, hts, fun later u hlater _ => ?_⟩
      simpa using hlater.length_le
    · rename_i hts
      obtain ⟨before, hprefix, hkey, hlast⟩ := h
      refine ⟨before, value_prefix_concat_iff.mpr (Or.inr hprefix), hkey, fun later u hlater hlaterKey => ?_⟩
      rcases value_prefix_concat_iff.mp hlater with ⟨rfl, -⟩ | hlater
      · exact absurd hlaterKey hts
      · exact hlast later u hlater hlaterKey

end

end Told

open Told (Ready Keyless LastUnder lastKey?)

/-! ## What a draft holds -/

namespace MapDraft

/-- The draft after one more part that has been converted. -/
def take (d : MapDraft) : Told → Except Error MapDraft
  | .key k => .ok { d with waiting := some k }
  | .value v => d.value v

/-- The draft holds what these parts make of an empty one. -/
structure Reflects (ts : List Told) (d : MapDraft) : Prop where
  bound : ∀ k v, d.fields.get? k = some v ↔ LastUnder ts k v
  waiting : ∀ k, d.waiting = some k ↔ Ready ts ∧ lastKey? ts = some k

theorem reflects_empty : Reflects [] .empty where
  bound := by simp [empty, Keyed.Table.get?, LastUnder]
  waiting := by simp [empty, Told.not_ready_nil]

section
variable {ts : List Told} {d : MapDraft}

theorem take_key_reflects (h : Reflects ts d) (k : Text) :
    ∃ d', d.take (.key k) = .ok d' ∧ Reflects (ts ++ [.key k]) d' := by
  refine ⟨_, rfl, fun k' v => ?_, fun k' => ?_⟩
  · rw [Told.lastUnder_concat_key]
    exact h.bound k' v
  · simp [Told.ready_concat_key, Told.lastKey?_concat_key]

theorem take_value_reflects (h : Reflects ts d) (hready : Ready ts) (v : Value) :
    ∃ d', d.take (.value v) = .ok d' ∧ Reflects (ts ++ [.value v]) d' := by
  obtain ⟨k, hk⟩ := Told.exists_lastKey?_of_ready hready
  have hwaiting : d.waiting = some k := (h.waiting k).mpr ⟨hready, hk⟩
  refine ⟨⟨d.fields.insert k v, none⟩, ?_, fun k' v' => ?_, fun k' => ?_⟩
  · rw [take, value, hwaiting]
  · rw [Told.lastUnder_concat_value, Keyed.Table.get?_insert, hk]
    by_cases hkey : k' = k
    · simp [hkey, eq_comm]
    · simpa [hkey, Ne.symm hkey] using h.bound k' v'
  · simp [Told.not_ready_concat_value]

/-- Without a key that waits a value is refused. -/
theorem take_value_of_not_ready (h : Reflects ts d) (hready : ¬ Ready ts) (v : Value) :
    d.take (.value v) = .error (.unconvertible .missingKey) := by
  have hwaiting : d.waiting = none := Option.eq_none_iff_forall_ne_some.mpr fun k hk => hready ((h.waiting k).mp hk).1
  rw [take, value, hwaiting]

end

/-- Parts are taken one after another until a value has no key. -/
theorem foldlM_take_cases (ts : List Told) :
    (¬ Keyless ts ∧ ∃ d, ts.foldlM take .empty = .ok d ∧ Reflects ts d) ∨
      (Keyless ts ∧ ts.foldlM take .empty = .error (.unconvertible .missingKey)) := by
  induction ts using List.reverseRecOn with
  | nil => exact Or.inl ⟨by simp [Keyless], .empty, rfl, reflects_empty⟩
  | append_singleton ts t ih =>
    rw [List.foldlM_append]
    rcases ih with ⟨hkeys, d, hrun, hd⟩ | ⟨hkeyless, hrun⟩
    · rw [hrun]
      -- The draft after the parts before takes the last one, or that is a value without a key.
      have hlast : (Except.ok d >>= fun d => [t].foldlM take d) = d.take t := by
        cases h : d.take t <;> simp [bind, Except.bind, h, pure, Except.pure]
      rw [hlast]
      cases t with
      | key k => exact Or.inl ⟨by rwa [Told.keyless_concat_key], take_key_reflects hd k⟩
      | value v =>
        rw [Told.keyless_concat_value]
        by_cases hready : Ready ts
        · exact Or.inl ⟨by simp [hready, hkeys], take_value_reflects hd hready v⟩
        · exact Or.inr ⟨Or.inl hready, take_value_of_not_ready hd hready v⟩
    · refine Or.inr ⟨?_, by rw [hrun]; rfl⟩
      cases t with
      | key k => rwa [Told.keyless_concat_key]
      | value v => exact Told.keyless_concat_value.mpr (Or.inr hkeyless)

end MapDraft

/-! ## Telling a map -/

namespace Data

/-- The part's datum has a value. That of a key is a text, a number or a truth value, and the key is
    what this prints as. -/
inductive ComesTo : MapPart → Told → Prop
  | key {d : Data} {v : Value} : d.toValue = .ok v → v.kind = .string ∨ v.kind = .number ∨ v.kind = .bool →
      ComesTo (.key d) (.key v.display)
  | value {d : Data} {v : Value} : d.toValue = .ok v → ComesTo (.value d) (.value v)

/-- A text is a key as it is. -/
theorem comesTo_text (s : Text) : ComesTo (.key (.str s)) (.key s) := .key (v := .str s) rfl (Or.inl rfl)

theorem keyText_of_kind {v : Value} (h : v.kind = .string ∨ v.kind = .number ∨ v.kind = .bool) :
    MapDraft.keyText v = .ok v.display := by
  cases v with
  | str s => rfl
  | int n => rfl
  | float x => rfl
  | bool b => rfl
  | null | list items | map fields => simp [Value.kind] at h

theorem tell_cons {part : MapPart} {t : Told} (h : ComesTo part t) (draft : MapDraft) (parts : List MapPart) :
    tell draft (part :: parts) = draft.take t >>= fun draft => tell draft parts := by
  cases h with
  | @key d v hd hkind =>
    have hwaiting : draft.key v = .ok { draft with waiting := some v.display } := by
      rw [MapDraft.key, keyText_of_kind hkind]
      rfl
    simp only [tell, hd, bind, Except.bind, hwaiting, MapDraft.take]
  | value hd =>
    simp only [tell, hd, bind, Except.bind, MapDraft.take]

theorem tell_eq_foldlM {parts : List MapPart} {ts : List Told} (h : List.Forall₂ ComesTo parts ts) (draft : MapDraft) :
    tell draft parts = ts.foldlM MapDraft.take draft := by
  induction h generalizing draft with
  | nil => rfl
  | cons hpart _ ih => simp only [tell_cons hpart, List.foldlM_cons, ih]

theorem tell_append (draft : MapDraft) (parts more : List MapPart) :
    tell draft (parts ++ more) = tell draft parts >>= fun draft => tell draft more := by
  induction parts generalizing draft with
  | nil => simp [tell, bind, Except.bind]
  | cons part parts ih =>
    cases part with
    | key d => simp only [List.cons_append, tell, bind_assoc, ih]
    | value d => simp only [List.cons_append, tell, bind_assoc, ih]

/-- A key gives way to the key that follows it, and at the end it is forgotten. -/
theorem toValue_map_without_key {before after : List MapPart} {d : Data} {t : Told} (h : ComesTo (.key d) t)
    (hafter : ∀ part ∈ after.head?, ∃ d', part = .key d') :
    (Data.map (before ++ .key d :: after)).toValue = (Data.map (before ++ after)).toValue := by
  cases h with
  | @key _ v hd hkind =>
    rw [toValue, toValue, tell_append, tell_append, map_bind, map_bind]
    refine congrArg (tell .empty before >>= ·) (funext fun draft => ?_)
    rw [tell_cons (.key hd hkind)]
    cases after with
    | nil => rfl
    | cons part after =>
      obtain ⟨d', rfl⟩ := hafter part rfl
      rfl

/-- A map is told as keys and values in any order, each of which can be converted. This fails, for
    want of a key, exactly when some value has no key between it and the value before it or the
    start. Otherwise the map has under each key the last of the values before which this was the
    last key, and nothing else. A key that another replaces at once, or that waits at the end, makes
    no difference. -/
theorem toValue_map_in_any_order {parts : List MapPart} {ts : List Told} (h : List.Forall₂ ComesTo parts ts) :
    (∀ e, (Data.map parts).toValue = .error e ↔ e = .unconvertible .missingKey ∧ Keyless ts) ∧
    (¬ Keyless ts → ∃ fields, (Data.map parts).toValue = .ok (.map fields) ∧
      ∀ k v, fields.get? k = some v ↔ LastUnder ts k v) ∧
    ∀ before d after, parts = before ++ .key d :: after → (∀ part ∈ after.head?, ∃ d', part = .key d') →
      (Data.map parts).toValue = (Data.map (before ++ after)).toValue := by
  have hrun : (Data.map parts).toValue = (fun d => .map d.fields) <$> ts.foldlM MapDraft.take .empty := by
    rw [toValue, tell_eq_foldlM h]
  refine ⟨fun e => ?_, fun hkeys => ?_, ?_⟩
  · rw [hrun, map_eq_error_iff]
    rcases MapDraft.foldlM_take_cases ts with ⟨hkeys, d, hd, -⟩ | ⟨hkeyless, hfails⟩
    · simp [hd, hkeys]
    · simp [hfails, hkeyless, eq_comm]
  · rcases MapDraft.foldlM_take_cases ts with ⟨-, d, hd, hreflects⟩ | ⟨hkeyless, -⟩
    · exact ⟨d.fields, by rw [hrun, hd]; rfl, hreflects.bound⟩
    · exact absurd hkeyless hkeys
  · rintro before d after rfl hafter
    have hcomes : ∀ part ∈ before ++ .key d :: after, ∃ t, ComesTo part t :=
      ((List.forall₂_and_left _ _).mp (h.imp fun part t hpart => ⟨⟨t, hpart⟩, hpart⟩)).1
    obtain ⟨t, ht⟩ := hcomes (.key d) (by simp)
    exact toValue_map_without_key ht hafter

/-- A key that is replaced, keys of three sorts of which two print alike, and a key that waits at
    the end; and a second value after one key. -/
theorem toValue_map_in_any_order_replaced :
    let kept : List MapPart := [.key (.int32 1), .value (.bool true), .key (.bool true), .value (.str "x".toList),
      .key (.str "1".toList), .value (.nat8 7), .key (.str "z".toList)]
    let told : List Told := [.key "b".toList, .key "1".toList, .value (.bool true), .key "true".toList,
      .value (.str "x".toList), .key "1".toList, .value (.int 7), .key "z".toList]
    let twice : List MapPart := [.key (.str "a".toList), .value .unit, .value .unit]
    (Data.map (.key (.str "b".toList) :: kept)).toValue =
      .ok (.map (.ofList [("1".toList, .int 7), ("true".toList, .str "x".toList)])) ∧
    ¬ Keyless told ∧ LastUnder told "1".toList (.int 7) ∧
    (Data.map (.key (.str "b".toList) :: kept)).toValue = (Data.map kept).toValue ∧
    (Data.map twice).toValue = .error (.unconvertible .missingKey) ∧
    Keyless [.key "a".toList, .value .null, .value .null] := by
  intro kept told twice
  have hkept : List.Forall₂ ComesTo (.key (.str "b".toList) :: kept) told :=
    .cons (comesTo_text _) <| .cons (.key (v := .int 1) rfl (Or.inr (Or.inl rfl))) <| .cons (.value rfl) <|
    .cons (.key (v := .bool true) rfl (Or.inr (Or.inr rfl))) <| .cons (.value rfl) <| .cons (comesTo_text _) <|
    .cons (.value rfl) <| .cons (comesTo_text _) .nil
  have htwice : List.Forall₂ ComesTo twice [.key "a".toList, .value .null, .value .null] :=
    .cons (comesTo_text _) (.cons (.value rfl) (.cons (.value rfl) .nil))
  have hvalue : (Data.map (.key (.str "b".toList) :: kept)).toValue =
      .ok (.map (.ofList [("1".toList, .int 7), ("true".toList, .str "x".toList)])) := rfl
  obtain ⟨hfails, hmap, hleft⟩ := toValue_map_in_any_order hkept
  have hkeys : ¬ Keyless told := by
    intro hkeyless
    have herror := (hfails _).mpr ⟨rfl, hkeyless⟩
    rw [hvalue] at herror
    cases herror
  obtain ⟨fields, hfields, hbound⟩ := hmap hkeys
  rw [hvalue] at hfields
  cases hfields
  have herror : (Data.map twice).toValue = .error (.unconvertible .missingKey) := rfl
  refine ⟨hvalue, hkeys, (hbound _ _).mp rfl, hleft [] _ kept rfl ?_, herror, ?_⟩
  · exact fun part hpart => ⟨_, (Option.some.inj hpart).symm⟩
  · exact (((toValue_map_in_any_order htwice).1 _).mp herror).2

end Data

end MailMerge
