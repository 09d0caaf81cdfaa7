/-
  MailMerge.Proofs.Equality — what equality of values keeps.

  Equality lets an integer be equal to the float it is rounded to, and a NaN equal to nothing.
  Two maps are compared entry by entry, both in the order of their keys; this is the comparison of
  as many entries, in which each key of the first has an equal value in the second
  (`Value.equals_map_iff_get?`).

  Proved: equality is symmetric (`Value.equals_comm`) and holds wherever `same` does
  (`Value.equals_of_same`); only a NaN, at any depth, keeps a value from being equal to itself
  (`Value.equals_self_iff`); and equal values are of one kind and hold together as conditions
  (`Value.kind_eq_of_equals`, `Value.holds_eq_of_equals`).
-/

import Mathlib.Data.List.Perm.Subperm
import MailMerge.Proofs.Conversion
import MailMerge.Proofs.Transitivity

namespace MailMerge

/-! ## Doubles -/

namespace Double

theorem same_comm (x y : Double) : x.same y = y.same x := by
  rw [Bool.eq_iff_iff, same_iff, same_iff]
  exact exists_congr fun r => and_comm

theorem rank?_eq_none_iff {x : Double} : x.rank? = none ↔ x.isNaN = true := by
  unfold rank?
  split <;> simp_all

theorem same_self_iff {x : Double} : x.same x = true ↔ x.isNaN = false := by
  rw [same_iff, ← Bool.not_eq_true, ← rank?_eq_none_iff, Option.eq_none_iff_forall_ne_some]
  simp

/-- The zeros are the doubles at the place zero. -/
theorem isZero_iff_of_rank? {x : Double} {r : Int} (h : x.rank? = some r) : x.isZero = true ↔ r = 0 := by
  unfold rank? at h
  split at h
  · cases h
  · cases h
    rw [isZero, decide_eq_true_eq]
    split <;> omega

/-- Only zero is rounded to zero. -/
theorem place_eq_zero_iff {n : Int} : place n = 0 ↔ n = 0 := by
  constructor
  · intro h
    by_cases hn : n = 0
    · exact hn
    · have := (natAbs_ge_of_place_eq hn (h.trans (by decide +kernel : place 0 = 0).symm)).2
      exact absurd this (by decide)
  · rintro rfl
    decide +kernel

end Double

namespace Value

/-! ## Symmetry -/

mutual

theorem equals_comm : ∀ a b : Value, a.equals b = b.equals a
  | .null, b => by cases b <;> rfl
  | .bool s, b => by
    cases b with
    | bool t => exact BEq.comm
    | _ => rfl
  | .int m, b => by
    cases b with
    | int n => exact BEq.comm
    | float y => exact Double.same_comm _ _
    | _ => rfl
  | .float x, b => by
    cases b with
    | int n => exact Double.same_comm _ _
    | float y => exact Double.same_comm _ _
    | _ => rfl
  | .str s, b => by
    cases b with
    | str t => exact BEq.comm
    | _ => rfl
  | .list as, b => by
    cases b with
    | list bs => exact equalsItems_comm as bs
    | _ => rfl
  | .map as, b => by
    cases b with
    | map bs => exact equalsFields_comm as bs
    | _ => rfl

theorem equalsItems_comm : ∀ as bs : List Value, equalsItems as bs = equalsItems bs as
  | [], [] | [], _ :: _ | _ :: _, [] => rfl
  | a :: as, b :: bs => by rw [equalsItems, equalsItems, equals_comm a b, equalsItems_comm as bs]

theorem equalsFields_comm : ∀ {low low' : Option Text} (as : Keyed.Table Value low) (bs : Keyed.Table Value low'),
    equalsFields as bs = equalsFields bs as
  | _, _, .nil, .nil | _, _, .nil, .cons .. | _, _, .cons .., .nil => rfl
  | _, _, .cons k a _ as, .cons l b _ bs => by
    rw [equalsFields, equalsFields, BEq.comm (a := k), equals_comm a b, equalsFields_comm as bs]

end

/-! ## Sameness -/

mutual

theorem equals_of_same : ∀ {a b : Value}, a.same b = true → a.equals b = true
  | .null, b, h => by cases b <;> exact h
  | .bool _, b, h => by cases b <;> exact h
  | .int _, b, h => by
    cases b with
    | float y => cases h
    | _ => exact h
  | .float _, b, h => by
    cases b with
    | int n => cases h
    | _ => exact h
  | .str _, b, h => by cases b <;> exact h
  | .list as, b, h => by
    cases b with
    | list bs => exact equalsItems_of_same h
    | _ => cases h
  | .map as, b, h => by
    cases b with
    | map bs => exact equalsFields_of_same h
    | _ => cases h

theorem equalsItems_of_same : ∀ {as bs : List Value}, sameItems as bs = true → equalsItems as bs = true
  | [], bs, h => by cases bs <;> exact h
  | a :: as, bs, h => by
    cases bs with
    | nil => cases h
    | cons b bs =>
      rw [sameItems, Bool.and_eq_true] at h
      rw [equalsItems, equals_of_same h.1, equalsItems_of_same h.2, Bool.and_self]

theorem equalsFields_of_same : ∀ {low low' : Option Text} {as : Keyed.Table Value low} {bs : Keyed.Table Value low'},
    sameFields as bs = true → equalsFields as bs = true
  | _, _, .nil, bs, h => by cases bs <;> exact h
  | _, _, .cons k a _ as, bs, h => by
    cases bs with
    | nil => cases h
    | cons l b _ bs =>
      rw [sameFields, Bool.and_eq_true, Bool.and_eq_true] at h
      obtain ⟨⟨hkey, hhead⟩, htail⟩ := h
      rw [equalsFields, hkey, equals_of_same hhead, equalsFields_of_same htail]
      rfl

end

/-! ## A value and itself -/

/-- The first value is the second one, or stands in it at some depth. -/
inductive Occurs (u : Value) : Value → Prop
  | self : Occurs u u
  | item {items : List Value} {v : Value} : v ∈ items → Occurs u v → Occurs u (.list items)
  | field {fields : Keyed.Table Value} {e : Text × Value} : e ∈ fields.entries → Occurs u e.2 → Occurs u (.map fields)

/-- No float in the value is a NaN. -/
def FreeOfNaN (v : Value) : Prop := ∀ x, Occurs (.float x) v → x.isNaN = false

theorem freeOfNaN_float_iff {x : Double} : (Value.float x).FreeOfNaN ↔ x.isNaN = false := by
  constructor
  · exact fun h => h x .self
  · intro h y hy
    cases hy
    exact h

theorem freeOfNaN_list_iff {items : List Value} : (Value.list items).FreeOfNaN ↔ ∀ v ∈ items, v.FreeOfNaN := by
  constructor
  · exact fun h v hv x hx => h x (.item hv hx)
  · intro h x hx
    cases hx with
    | item hv hx => exact h _ hv x hx

theorem freeOfNaN_map_iff {fields : Keyed.Table Value} :
    (Value.map fields).FreeOfNaN ↔ ∀ e ∈ fields.entries, e.2.FreeOfNaN := by
  constructor
  · exact fun h e he x hx => h x (.field he hx)
  · intro h x hx
    cases hx with
    | field he hx => exact h _ he x hx

mutual

theorem equals_self_iff : ∀ v : Value, v.equals v = true ↔ v.FreeOfNaN
  | .null => iff_of_true rfl nofun
  | .bool s => iff_of_true (beq_self_eq_true s) nofun
  | .int n => iff_of_true (beq_self_eq_true n) nofun
  | .str s => iff_of_true (beq_self_eq_true s) nofun
  | .float _ => Double.same_self_iff.trans freeOfNaN_float_iff.symm
  | .list items => (equalsItems_self_iff items).trans freeOfNaN_list_iff.symm
  | .map fields => (equalsFields_self_iff fields).trans freeOfNaN_map_iff.symm

theorem equalsItems_self_iff : ∀ items : List Value, equalsItems items items = true ↔ ∀ v ∈ items, v.FreeOfNaN
  | [] => iff_of_true rfl nofun
  | v :: items => by
    rw [equalsItems, Bool.and_eq_true, equals_self_iff v, equalsItems_self_iff items, List.forall_mem_cons]

theorem equalsFields_self_iff : ∀ {low : Option Text} (fields : Keyed.Table Value low),
    equalsFields fields fields = true ↔ ∀ e ∈ fields.entries, e.2.FreeOfNaN
  | _, .nil => iff_of_true rfl nofun
  | _, .cons k v _ fields => by
    rw [equalsFields, beq_self_eq_true, Bool.true_and, Bool.and_eq_true, equals_self_iff v,
      equalsFields_self_iff fields, Keyed.Table.entries, List.forall_mem_cons]

end

/-! ## Kinds and conditions -/

theorem isEmpty_eq_of_equalsItems {as bs : List Value} (h : equalsItems as bs = true) : as.isEmpty = bs.isEmpty := by
  cases as with
  | nil =>
    cases bs with
    | nil => rfl
    | cons b bs => cases h
  | cons a as =>
    obtain ⟨b, rest, rfl, _, _⟩ := exists_of_equalsItems_cons h
    rfl

theorem keys_eq_of_equalsFields {low low' : Option Text} {as : Keyed.Table Value low} {bs : Keyed.Table Value low'}
    (h : equalsFields as bs = true) : as.entries.map (·.1) = bs.entries.map (·.1) := by
  induction as generalizing low' with
  | nil =>
    cases bs with
    | nil => rfl
    | cons => cases h
  | cons k a _ as ih =>
    obtain ⟨b, _, rest, rfl, _, htail⟩ := exists_of_equalsFields_cons h
    exact congrArg (k :: ·) (ih htail)

/-- Equal values are one value, or stand at one place as numbers, or are containers with equal parts. -/
theorem cases_of_equals {a b : Value} (h : a.equals b = true) :
    a = b ∨ (∃ r, a.rank? = some r ∧ b.rank? = some r) ∨
      (∃ as bs, a = .list as ∧ b = .list bs ∧ equalsItems as bs = true) ∨
      ∃ as bs, a = .map as ∧ b = .map bs ∧ equalsFields as bs = true := by
  have hnumber {r : Int} (ha : a.rank? = some r) : ∃ r, a.rank? = some r ∧ b.rank? = some r :=
    ⟨r, ha, (rank?_eq_of_equals h).symm.trans ha⟩
  cases a with
  | null => exact .inl (equals_null_iff.mp h).symm
  | bool s => exact .inl (equals_bool_iff.mp h).symm
  | str s => exact .inl (equals_str_iff.mp h).symm
  | int n => exact .inr (.inl (hnumber rfl))
  | float x =>
    obtain ⟨r, hrank⟩ := rank?_of_equals_float h
    exact .inr (.inl (hnumber hrank))
  | list as =>
    obtain ⟨bs, rfl, hitems⟩ := equals_list_iff.mp h
    exact .inr (.inr (.inl ⟨as, bs, rfl, rfl, hitems⟩))
  | map as =>
    obtain ⟨bs, rfl, hfields⟩ := equals_map_iff.mp h
    exact .inr (.inr (.inr ⟨as, bs, rfl, rfl, hfields⟩))

theorem kind_eq_of_equals {a b : Value} (h : a.equals b = true) : a.kind = b.kind := by
  obtain rfl | ⟨r, ha, hb⟩ | ⟨as, bs, rfl, rfl, _⟩ | ⟨as, bs, rfl, rfl, _⟩ := cases_of_equals h
  · rfl
  · rw [kind_of_rank? ha, kind_of_rank? hb]
  · rfl
  · rfl

/-- A number holds unless its place is zero. -/
theorem holds_iff_of_rank? {a : Value} {r : Int} (h : a.rank? = some r) : a.holds = true ↔ r ≠ 0 := by
  cases a with
  | int n =>
    cases h
    rw [ne_eq, Double.place_eq_zero_iff, holds, bne_iff_ne, ne_eq, ← Int64.toInt_inj]
    rfl
  | float x =>
    rw [holds, Bool.not_eq_true', ne_eq, ← Double.isZero_iff_of_rank? h, Bool.not_eq_true]
  | _ => cases h

theorem holds_eq_of_equals {a b : Value} (h : a.equals b = true) : a.holds = b.holds := by
  obtain rfl | ⟨r, ha, hb⟩ | ⟨as, bs, rfl, rfl, hitems⟩ | ⟨as, bs, rfl, rfl, hfields⟩ := cases_of_equals h
  · rfl
  · rw [Bool.eq_iff_iff, holds_iff_of_rank? ha, holds_iff_of_rank? hb]
  · exact congrArg not (isEmpty_eq_of_equalsItems hitems)
  · have hkeys := congrArg List.isEmpty (keys_eq_of_equalsFields hfields)
    rw [List.isEmpty_map, List.isEmpty_map] at hkeys
    rw [holds, holds, hkeys]

end Value

/-! ## Maps by their keys -/

namespace Keyed

variable {α β : Type}

/-- As many keys, all of them among the others, are the others: both stand in the one order. -/
theorem keys_eq_of_subset {l : List (Text × α)} {m : List (Text × β)} (hl : Ascending l) (hm : Ascending m)
    (hlength : l.length = m.length) (hsub : l.map (·.1) ⊆ m.map (·.1)) : l.map (·.1) = m.map (·.1) := by
  have hperm : (l.map (·.1)).Perm (m.map (·.1)) := by
    refine (List.subperm_of_subset (keys_nodup hl) hsub).perm_of_length_le ?_
    simp only [List.length_map, hlength, Nat.le_refl]
  refine hperm.eq_of_pairwise ?_ (ascending_iff.mp hl) (ascending_iff.mp hm)
  intro a b _ _ hab hba
  exact absurd hba (Std.OrientedCmp.not_lt_of_lt hab)

end Keyed

namespace Value

/-- Entries with the same keys are compared at the same places, so each is compared with the one
    that is looked up under its key. -/
theorem equalsFields_iff_get? {low low' : Option Text} {as : Keyed.Table Value low} {bs : Keyed.Table Value low'}
    (hkeys : as.entries.map (·.1) = bs.entries.map (·.1)) :
    equalsFields as bs = true ↔ ∀ e ∈ as.entries, ∃ b, bs.get? e.1 = some b ∧ e.2.equals b = true := by
  induction as generalizing low' with
  | nil =>
    cases bs with
    | nil => exact iff_of_true rfl nofun
    | cons => cases hkeys
  | cons k a _ as ih =>
    cases bs with
    | nil => cases hkeys
    | cons l b habove bs =>
      obtain ⟨hkey, hrest⟩ := List.cons.inj hkeys
      obtain rfl : k = l := hkey
      have hfirst : (Keyed.Table.cons k b habove bs).get? k = some b := if_pos rfl
      have hskip : ∀ e ∈ as.entries, (Keyed.Table.cons k b habove bs).get? e.1 = bs.get? e.1 := by
        intro e he
        refine if_neg ?_
        rintro heq
        have hlt : compare k e.1 = .lt := Keyed.Table.above_of_mem e he
        simp [heq] at hlt
      rw [equalsFields, beq_self_eq_true, Bool.true_and, Bool.and_eq_true, ih hrest, Keyed.Table.entries,
        List.forall_mem_cons, hfirst]
      refine and_congr ?_ (forall₂_congr fun e he => by rw [hskip e he])
      simp

/-- Maps are equal when they have as many entries, and every entry of the first finds an equal value
    under its key in the second. -/
theorem equals_map_iff_get? {as bs : Keyed.Table Value} :
    (Value.map as).equals (.map bs) = true ↔
      as.entries.length = bs.entries.length ∧ ∀ e ∈ as.entries, ∃ b, bs.get? e.1 = some b ∧ e.2.equals b = true := by
  show equalsFields as bs = true ↔ _
  constructor
  · intro h
    have hkeys := keys_eq_of_equalsFields h
    refine ⟨by simpa using congrArg List.length hkeys, (equalsFields_iff_get? hkeys).mp h⟩
  · rintro ⟨hlength, hall⟩
    refine (equalsFields_iff_get? ?_).mpr hall
    refine Keyed.keys_eq_of_subset as.ascending_entries bs.ascending_entries hlength fun k hk => ?_
    obtain ⟨e, he, rfl⟩ := List.mem_map.mp hk
    obtain ⟨b, hb, _⟩ := hall e he
    exact List.mem_map.mpr ⟨(e.1, b), Keyed.get?_mem hb, rfl⟩

/-- Equality is symmetric and holds wherever sameness does, a value equals itself exactly when no
    float in it is a NaN, and equal values are of one kind and hold together. Maps are equal by
    their keys: as many entries, each with an equal value under its key in the other map. -/
theorem equality_extends_sameness (a b : Value) :
    a.equals b = b.equals a ∧ (a.same b = true → a.equals b = true) ∧
      (a.equals a = true ↔ ∀ x, Occurs (.float x) a → x.isNaN = false) ∧
      (a.equals b = true → a.kind = b.kind ∧ a.holds = b.holds) ∧
      ∀ as bs, a = .map as → b = .map bs →
        (a.equals b = true ↔ as.entries.length = bs.entries.length ∧
          ∀ e ∈ as.entries, ∃ v, bs.get? e.1 = some v ∧ e.2.equals v = true) := by
  refine ⟨equals_comm a b, equals_of_same, equals_self_iff a, fun h => ?_, ?_⟩
  · exact ⟨kind_eq_of_equals h, holds_eq_of_equals h⟩
  · rintro as bs rfl rfl
    exact equals_map_iff_get?

/-- Two maps that are equal without being the same, and a NaN in a list. -/
theorem equality_extends_sameness_nested :
    let one : Double := ⟨0x3FF0000000000000⟩
    let nan : Double := ⟨0x7FF8000000000000⟩
    let as : Keyed.Table Value := .ofList [("n".toList, .list [.int 1, .str "x".toList])]
    let bs : Keyed.Table Value := .ofList [("n".toList, .list [.float one, .str "x".toList])]
    (Value.map as).same (.map bs) = false ∧ (Value.map as).equals (.map bs) = true ∧
      (Value.map bs).equals (.map as) = true ∧ (Value.map as).kind = (Value.map bs).kind ∧
      (Value.map as).holds = (Value.map bs).holds ∧
      (∃ v, bs.get? "n".toList = some v ∧ (Value.list [.int 1, .str "x".toList]).equals v = true) ∧
      (Value.map as).same (.map as) = true ∧ (Value.map as).equals (.map as) = true ∧
      (Value.list [.int 1, .float nan]).equals (.list [.int 1, .float nan]) ≠ true := by
  intro one nan as bs
  have heq : (Value.map as).equals (.map bs) = true := by decide +kernel
  have hsame : (Value.map as).same (.map as) = true := by decide +kernel
  obtain ⟨hcomm, _, _, hkeeps, hkeys⟩ := equality_extends_sameness (.map as) (.map bs)
  obtain ⟨_, hextends, _, _, _⟩ := equality_extends_sameness (.map as) (.map as)
  obtain ⟨_, _, hself, _, _⟩ := equality_extends_sameness (.list [.int 1, .float nan]) .null
  obtain ⟨hkind, hholds⟩ := hkeeps heq
  obtain ⟨_, hentries⟩ := (hkeys as bs rfl rfl).mp heq
  refine ⟨by decide +kernel, heq, hcomm ▸ heq, hkind, hholds, hentries _ List.mem_cons_self, hsame, hextends hsame, ?_⟩
  intro h
  have hnan := hself.mp h nan (.item (List.mem_cons_of_mem _ List.mem_cons_self) .self)
  exact absurd hnan (by decide +kernel)

end Value

end MailMerge
