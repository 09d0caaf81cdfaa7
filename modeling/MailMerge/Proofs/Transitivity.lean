/-
  MailMerge.Proofs.Transitivity — when equality and order of values carry over.

  Two integers compare exactly, and an integer and a float by the place of the double that the
  integer is rounded to. So different integers may both equal one float, and a float that stands
  between two such integers (`Value.Bridge`) is all that keeps equality and order from being
  transitive: equality carries over exactly when there is no such place in the values
  (`Value.equals_iff_not_bridge`), and a chain of comparisons comes out as it should unless its
  numbers are such integers and such a float (`Value.compare?_chain`). The integers of a bridge are
  beyond `2 ^ 53` (`Value.Bridge.large`).
-/

import MailMerge.Proofs.Rounding
import MailMerge.Value.Compare

namespace MailMerge

/-! ## Places -/

namespace Double

theorem same_iff {x y : Double} : x.same y = true ↔ ∃ r, x.rank? = some r ∧ y.rank? = some r := by
  unfold same
  split
  · rename_i r s hx hy
    rw [beq_iff_eq, hx, hy]
    constructor
    · rintro rfl
      exact ⟨r, rfl, rfl⟩
    · rintro ⟨t, ht, ht'⟩
      cases ht
      cases ht'
      rfl
  · rename_i hnone
    exact ⟨fun h => Bool.noConfusion h, fun ⟨r, hx, hy⟩ => absurd hy (hnone r r hx)⟩

theorem ofInt_same_iff {n : Int} {x : Double} : (ofInt n).same x = true ↔ x.rank? = some (place n) := by
  rw [same_iff, rank?_ofInt]
  constructor
  · rintro ⟨r, hr, hx⟩
    cases hr
    exact hx
  · exact fun hx => ⟨_, rfl, hx⟩

theorem same_ofInt_iff {n : Int} {x : Double} : x.same (ofInt n) = true ↔ x.rank? = some (place n) := by
  rw [same_iff, rank?_ofInt]
  constructor
  · rintro ⟨r, hx, hr⟩
    cases hr
    exact hx
  · exact fun hx => ⟨_, hx, rfl⟩

theorem compare?_of_rank? {x y : Double} {r s : Int} (hx : x.rank? = some r) (hy : y.rank? = some s) :
    x.compare? y = some (compare r s) := by
  rw [compare?, hx, hy]

theorem exists_rank?_of_compare? {x y : Double} {o : Ordering} (h : x.compare? y = some o) :
    (∃ r, x.rank? = some r) ∧ ∃ s, y.rank? = some s := by
  unfold compare? at h
  split at h
  · rename_i hx hy
    exact ⟨⟨_, hx⟩, _, hy⟩
  · cases h

end Double

namespace Value

/-- The place of a number among the doubles; an integer has that of the one it is rounded to. -/
def rank? : Value → Option Int
  | .int n => some (Double.place n.toInt)
  | .float x => x.rank?
  | _ => none

/-- At one place of three values the outer two are different integers, and the middle one is the
    float that both are rounded to. -/
inductive Bridge : Value → Value → Value → Prop
  | number {m n : Int64} {x : Double} (different : m ≠ n) (left : (Double.ofInt m.toInt).same x = true)
      (right : x.same (Double.ofInt n.toInt) = true) : Bridge (.int m) (.float x) (.int n)
  | item {as bs cs : List Value} {i : Nat} {a b c : Value} (first : as[i]? = some a) (second : bs[i]? = some b)
      (third : cs[i]? = some c) (inner : Bridge a b c) : Bridge (.list as) (.list bs) (.list cs)
  | field {as bs cs : Keyed.Table Value} {i : Nat} {k : Text} {a b c : Value} (first : as.entries[i]? = some (k, a))
      (second : bs.entries[i]? = some (k, b)) (third : cs.entries[i]? = some (k, c)) (inner : Bridge a b c) :
      Bridge (.map as) (.map bs) (.map cs)

/-- The integers of a bridge are too large for a double to tell them apart. -/
theorem Bridge.large {m n : Int64} {x : Double} (h : Bridge (.int m) (.float x) (.int n)) :
    1 <<< 53 ≤ m.toInt.natAbs ∧ 1 <<< 53 ≤ n.toInt.natAbs := by
  cases h with
  | number hne hleft hright =>
    have hplace : some (Double.place m.toInt) = some (Double.place n.toInt) := by
      rw [← Double.ofInt_same_iff.mp hleft, ← Double.same_ofInt_iff.mp hright]
    exact Double.natAbs_ge_of_place_eq (fun h => hne (Int64.toInt_inj.mp h)) (Option.some.inj hplace)

/-- A number in the place of two different integers bridges them, or is an integer itself. -/
theorem Bridge.of_rank? {m n : Int64} {b : Value} {r : Int} (hne : m ≠ n) (hm : (Value.int m).rank? = some r)
    (hb : b.rank? = some r) (hn : (Value.int n).rank? = some r) :
    Bridge (.int m) b (.int n) ∨ ∃ k, b = .int k := by
  cases b with
  | int k => exact Or.inr ⟨k, rfl⟩
  | float x =>
    refine Or.inl (.number hne (Double.ofInt_same_iff.mpr ?_) (Double.same_ofInt_iff.mpr ?_))
    · exact hb.trans hm.symm
    · exact hb.trans hn.symm
  | _ => cases hb

/-! ## Equality -/

theorem rank?_eq_of_equals {a b : Value} (h : a.equals b = true) : a.rank? = b.rank? := by
  unfold equals at h
  split at h
  · rfl
  · rfl
  · rw [beq_iff_eq.mp h]
  · exact (Double.ofInt_same_iff.mp h).symm
  · exact Double.same_ofInt_iff.mp h
  · obtain ⟨r, ha, hb⟩ := Double.same_iff.mp h
    exact ha.trans hb.symm
  · rfl
  · rfl
  · rfl
  · cases h

theorem equals_of_rank? {a b : Value} {r : Int} (ha : a.rank? = some r) (hb : b.rank? = some r) :
    a.equals b = true ∨ ∃ m n, m ≠ n ∧ a = .int m ∧ b = .int n := by
  cases a with
  | int m =>
    cases b with
    | int n =>
      by_cases hmn : m = n
      · exact Or.inl (beq_iff_eq.mpr hmn)
      · exact Or.inr ⟨m, n, hmn, rfl, rfl⟩
    | float y => exact Or.inl (Double.ofInt_same_iff.mpr (hb.trans ha.symm))
    | _ => cases hb
  | float x =>
    cases b with
    | int n => exact Or.inl (Double.same_ofInt_iff.mpr (ha.trans hb.symm))
    | float y => exact Or.inl (Double.same_iff.mpr ⟨r, ha, hb⟩)
    | _ => cases hb
  | _ => cases ha

theorem equals_iff_not_bridge_of_rank? {a b c : Value} {r : Int} (ha : a.rank? = some r) (hab : a.equals b = true)
    (hbc : b.equals c = true) : a.equals c = true ↔ ¬ Bridge a b c := by
  have hb : b.rank? = some r := (rank?_eq_of_equals hab).symm.trans ha
  have hc : c.rank? = some r := (rank?_eq_of_equals hbc).symm.trans hb
  constructor
  · intro hac hbridge
    cases hbridge with
    | number hne _ _ => exact hne (beq_iff_eq.mp hac)
    | item _ _ _ _ => cases ha
    | field _ _ _ _ => cases ha
  · intro hno
    rcases equals_of_rank? ha hc with hac | ⟨m, n, hne, rfl, rfl⟩
    · exact hac
    · rcases Bridge.of_rank? hne ha hb hc with hbridge | ⟨k, rfl⟩
      · exact absurd hbridge hno
      · exact absurd ((beq_iff_eq.mp hab).trans (beq_iff_eq.mp hbc)) hne

theorem rank?_of_equals_float {x : Double} {b : Value} (h : (Value.float x).equals b = true) :
    ∃ r, (Value.float x).rank? = some r := by
  cases b with
  | int n => exact ⟨_, Double.same_ofInt_iff.mp h⟩
  | float y =>
    obtain ⟨r, hx, _⟩ := Double.same_iff.mp h
    exact ⟨r, hx⟩
  | _ => cases h

theorem equals_null_iff {b : Value} : Value.null.equals b = true ↔ b = .null := by
  cases b <;> simp [equals]

theorem equals_bool_iff {t : Bool} {b : Value} : (Value.bool t).equals b = true ↔ b = .bool t := by
  cases b <;> simp [equals, @eq_comm _ t]

theorem equals_str_iff {s : Text} {b : Value} : (Value.str s).equals b = true ↔ b = .str s := by
  cases b <;> simp [equals, @eq_comm _ s]

theorem equals_list_iff {as : List Value} {b : Value} :
    (Value.list as).equals b = true ↔ ∃ bs, b = .list bs ∧ equalsItems as bs = true := by
  cases b <;> simp [equals]

theorem equals_map_iff {as : Keyed.Table Value} {b : Value} :
    (Value.map as).equals b = true ↔ ∃ bs, b = .map bs ∧ equalsFields as bs = true := by
  cases b <;> simp [equals]

theorem exists_of_equalsItems_cons {a : Value} {as bs : List Value} (h : equalsItems (a :: as) bs = true) :
    ∃ b rest, bs = b :: rest ∧ a.equals b = true ∧ equalsItems as rest = true := by
  cases bs with
  | nil => cases h
  | cons b rest => exact ⟨b, rest, rfl, Bool.and_eq_true_iff.mp h⟩

theorem exists_of_equalsFields_cons {low low' : Option Text} {k : Text} {a : Value} {above : Keyed.Above low k}
    {as : Keyed.Table Value (some k)} {bs : Keyed.Table Value low'}
    (h : equalsFields (.cons k a above as) bs = true) :
    ∃ b above' rest, bs = .cons k b above' rest ∧ a.equals b = true ∧ equalsFields as rest = true := by
  cases bs with
  | nil => cases h
  | cons l b above' rest =>
    simp only [equalsFields, Bool.and_eq_true, beq_iff_eq] at h
    obtain ⟨⟨rfl, hhead⟩, htail⟩ := h
    exact ⟨b, above', rest, rfl, hhead, htail⟩

/-- At one place, and under one key, the entries have a bridge. -/
def FieldBridge (as bs cs : List (Text × Value)) : Prop :=
  ∃ (i : Nat) (k : Text) (a b c : Value),
    as[i]? = some (k, a) ∧ bs[i]? = some (k, b) ∧ cs[i]? = some (k, c) ∧ Bridge a b c

theorem fieldBridge_cons_iff {k : Text} {a b c : Value} {as bs cs : List (Text × Value)} :
    FieldBridge ((k, a) :: as) ((k, b) :: bs) ((k, c) :: cs) ↔ Bridge a b c ∨ FieldBridge as bs cs := by
  constructor
  · rintro ⟨i, l, a', b', c', ha, hb, hc, hbridge⟩
    cases i with
    | zero =>
      cases ha
      cases hb
      cases hc
      exact Or.inl hbridge
    | succ i => exact Or.inr ⟨i, l, a', b', c', ha, hb, hc, hbridge⟩
  · rintro (hbridge | ⟨i, l, a', b', c', ha, hb, hc, hbridge⟩)
    · exact ⟨0, k, a, b, c, rfl, rfl, rfl, hbridge⟩
    · exact ⟨i + 1, l, a', b', c', ha, hb, hc, hbridge⟩

namespace Bridge

theorem map_iff {as bs cs : Keyed.Table Value} :
    Bridge (.map as) (.map bs) (.map cs) ↔ FieldBridge as.entries bs.entries cs.entries := by
  constructor
  · intro h
    cases h with
    | field ha hb hc hbridge => exact ⟨_, _, _, _, _, ha, hb, hc, hbridge⟩
  · rintro ⟨i, k, a, b, c, ha, hb, hc, hbridge⟩
    exact .field ha hb hc hbridge

theorem items_cons_iff {a b c : Value} {as bs cs : List Value} :
    Bridge (.list (a :: as)) (.list (b :: bs)) (.list (c :: cs)) ↔
      Bridge a b c ∨ Bridge (.list as) (.list bs) (.list cs) := by
  constructor
  · rintro (_ | @⟨_, _, _, i, _, _, _, ha, hb, hc, hbridge⟩)
    cases i with
    | zero =>
      cases ha
      cases hb
      cases hc
      exact Or.inl hbridge
    | succ i => exact Or.inr (.item ha hb hc hbridge)
  · rintro (hbridge | (_ | @⟨_, _, _, i, _, _, _, ha, hb, hc, hbridge⟩))
    · exact .item (i := 0) rfl rfl rfl hbridge
    · exact .item (i := i + 1) ha hb hc hbridge

end Bridge

mutual

theorem equals_iff_not_bridge : ∀ {a b c : Value}, a.equals b = true → b.equals c = true →
    (a.equals c = true ↔ ¬ Bridge a b c)
  | .null, _, _, hab, hbc => by
    obtain rfl := equals_null_iff.mp hab
    exact iff_of_true hbc nofun
  | .bool _, _, _, hab, hbc => by
    obtain rfl := equals_bool_iff.mp hab
    exact iff_of_true hbc nofun
  | .str _, _, _, hab, hbc => by
    obtain rfl := equals_str_iff.mp hab
    exact iff_of_true hbc nofun
  | .int _, _, _, hab, hbc => equals_iff_not_bridge_of_rank? rfl hab hbc
  | .float _, _, _, hab, hbc => by
    obtain ⟨r, hrank⟩ := rank?_of_equals_float hab
    exact equals_iff_not_bridge_of_rank? hrank hab hbc
  | .list as, _, _, hab, hbc => by
    obtain ⟨bs, rfl, hab⟩ := equals_list_iff.mp hab
    obtain ⟨cs, rfl, hbc⟩ := equals_list_iff.mp hbc
    exact equalsItems_iff_not_bridge hab hbc
  | .map as, _, _, hab, hbc => by
    obtain ⟨bs, rfl, hab⟩ := equals_map_iff.mp hab
    obtain ⟨cs, rfl, hbc⟩ := equals_map_iff.mp hbc
    rw [Bridge.map_iff]
    exact equalsFields_iff_not_bridge hab hbc

theorem equalsItems_iff_not_bridge : ∀ {as bs cs : List Value}, equalsItems as bs = true →
    equalsItems bs cs = true → (equalsItems as cs = true ↔ ¬ Bridge (.list as) (.list bs) (.list cs))
  | [], bs, cs, hab, hbc => by
    cases bs with
    | nil => exact iff_of_true hbc (fun | .item ha _ _ _ => by cases ha)
    | cons b bs => cases hab
  | a :: as, _, _, hab, hbc => by
    obtain ⟨b, bs, rfl, hhead, htail⟩ := exists_of_equalsItems_cons hab
    obtain ⟨c, cs, rfl, hhead', htail'⟩ := exists_of_equalsItems_cons hbc
    rw [Bridge.items_cons_iff, not_or, ← equals_iff_not_bridge hhead hhead', ← equalsItems_iff_not_bridge htail htail',
      equalsItems, Bool.and_eq_true]

theorem equalsFields_iff_not_bridge : ∀ {low low' low'' : Option Text} {as : Keyed.Table Value low}
    {bs : Keyed.Table Value low'} {cs : Keyed.Table Value low''}, equalsFields as bs = true →
    equalsFields bs cs = true → (equalsFields as cs = true ↔ ¬ FieldBridge as.entries bs.entries cs.entries)
  | _, _, _, .nil, bs, cs, hab, hbc => by
    cases bs with
    | nil =>
      cases cs with
      | nil => exact iff_of_true rfl (fun ⟨_, _, _, _, _, ha, _⟩ => by cases ha)
      | cons => cases hbc
    | cons => cases hab
  | _, _, _, .cons k a _ as, _, _, hab, hbc => by
    obtain ⟨b, _, bs, rfl, hhead, htail⟩ := exists_of_equalsFields_cons hab
    obtain ⟨c, _, cs, rfl, hhead', htail'⟩ := exists_of_equalsFields_cons hbc
    rw [Keyed.Table.entries, Keyed.Table.entries, Keyed.Table.entries, fieldBridge_cons_iff, not_or,
      ← equals_iff_not_bridge hhead hhead', ← equalsFields_iff_not_bridge htail htail', equalsFields,
      beq_self_eq_true, Bool.true_and, Bool.and_eq_true]

end

/-! ## Order -/

/-- Two steps that do not go down make one, which stays level only when both do. -/
theorem compare_chain {α : Type} [Ord α] [Std.TransOrd α] [Std.LawfulEqOrd α] {a b c : α}
    (hab : compare a b ≠ .gt) (hbc : compare b c ≠ .gt) :
    compare a c ≠ .gt ∧ (compare a c = .eq → compare a b = .eq ∧ compare b c = .eq) := by
  have hab := Ordering.isLE_iff_ne_gt.mpr hab
  have hbc := Ordering.isLE_iff_ne_gt.mpr hbc
  refine ⟨Ordering.isLE_iff_ne_gt.mp (Std.TransCmp.isLE_trans hab hbc), fun hac => ?_⟩
  obtain rfl := Std.LawfulEqCmp.eq_of_compare hac
  exact ⟨Std.OrientedCmp.isLE_antisymm hab hbc, Std.OrientedCmp.isLE_antisymm hbc hab⟩

theorem le_of_compare_ne_gt {α : Type} [Ord α] [LE α] [Std.LawfulOrderOrd α] {a b : α} (h : compare a b ≠ .gt) :
    a ≤ b := Std.isLE_compare.mp (Ordering.isLE_iff_ne_gt.mpr h)

/-- Numbers that are not both integers are in the order of their places. -/
theorem compare?_of_rank? {a b : Value} {r s : Int} (ha : a.rank? = some r) (hb : b.rank? = some s) :
    (∃ m n, a = .int m ∧ b = .int n) ∨ a.compare? b = some (compare r s) := by
  cases a with
  | int m =>
    cases b with
    | int n => exact Or.inl ⟨m, n, rfl, rfl⟩
    | float y => exact Or.inr (Double.compare?_of_rank? ((Double.rank?_ofInt _).trans ha) hb)
    | _ => cases hb
  | float x =>
    cases b with
    | int n => exact Or.inr (Double.compare?_of_rank? ha ((Double.rank?_ofInt _).trans hb))
    | float y => exact Or.inr (Double.compare?_of_rank? ha hb)
    | _ => cases hb
  | _ => cases ha

theorem exists_rank?_of_compare? {a b : Value} {o : Ordering} (hkind : a.kind = .number)
    (h : a.compare? b = some o) : (∃ r, a.rank? = some r) ∧ ∃ s, b.rank? = some s := by
  cases a with
  | int m =>
    cases b with
    | int n => exact ⟨⟨_, rfl⟩, _, rfl⟩
    | float y => exact ⟨⟨_, rfl⟩, (Double.exists_rank?_of_compare? h).2⟩
    | _ => cases h
  | float x =>
    cases b with
    | int n => exact ⟨(Double.exists_rank?_of_compare? h).1, _, rfl⟩
    | float y => exact Double.exists_rank?_of_compare? h
    | _ => cases h
  | _ => cases hkind

theorem kind_of_rank? {a : Value} {r : Int} (ha : a.rank? = some r) : a.kind = .number := by
  cases a with
  | int m => rfl
  | float x => rfl
  | _ => cases ha

/-- A step that does not go down does not go down among the doubles either; there it may stay level
    between different integers. -/
theorem rank?_le_of_compare? {a b : Value} {r : Int} {o : Ordering} (ha : a.rank? = some r)
    (h : a.compare? b = some o) (ho : o ≠ .gt) :
    ∃ s, b.rank? = some s ∧ r ≤ s ∧ (r = s → o = .eq ∨ ∃ m n, m ≠ n ∧ a = .int m ∧ b = .int n) := by
  obtain ⟨_, s, hb⟩ := exists_rank?_of_compare? (kind_of_rank? ha) h
  refine ⟨s, hb, ?_⟩
  rcases compare?_of_rank? ha hb with ⟨m, n, rfl, rfl⟩ | hplaces
  · cases ha
    cases hb
    cases h
    refine ⟨Double.place_le_place (Int64.le_iff_toInt_le.mp (le_of_compare_ne_gt ho)), fun _ => ?_⟩
    by_cases hmn : m = n
    · exact Or.inl (Std.compare_eq_iff_eq.mpr hmn)
    · exact Or.inr ⟨m, n, hmn, rfl, rfl⟩
  · cases hplaces.symm.trans h
    exact ⟨le_of_compare_ne_gt ho, fun hrs => Or.inl (Std.compare_eq_iff_eq.mpr hrs)⟩

/-- What a chain of two steps says about its ends: that they are in order, but for a bridge. -/
def Chained (a b c : Value) (o₁ o₂ : Ordering) : Prop :=
  ∃ o, a.compare? c = some o ∧ (o = .gt → Bridge a b c) ∧
    (o = .eq → o₁ = .eq ∧ o₂ = .eq ∨ Bridge a c b ∨ Bridge b a c)

theorem chained_of_rank? {a b c : Value} {r : Int} {o₁ o₂ : Ordering} (ha : a.rank? = some r)
    (hab : a.compare? b = some o₁) (hbc : b.compare? c = some o₂) (h₁ : o₁ ≠ .gt) (h₂ : o₂ ≠ .gt) :
    Chained a b c o₁ o₂ := by
  obtain ⟨s, hb, hrs, heq₁⟩ := rank?_le_of_compare? ha hab h₁
  obtain ⟨t, hc, hst, heq₂⟩ := rank?_le_of_compare? hb hbc h₂
  by_cases hints : ∃ m n, a = .int m ∧ c = .int n
  · obtain ⟨m, n, rfl, rfl⟩ := hints
    cases b with
    | int k =>
      cases hab
      cases hbc
      obtain ⟨hle, hlevel⟩ := compare_chain h₁ h₂
      exact ⟨_, rfl, fun hgt => absurd hgt hle, fun heq => Or.inl (hlevel heq)⟩
    | float x =>
      refine ⟨_, rfl, fun hgt => ?_, fun heq => Or.inl ?_⟩
      · have hnm : n < m := Std.compare_eq_gt.mp hgt
        have hback : t ≤ r := by
          cases ha
          cases hc
          exact Double.place_le_place (Int64.le_iff_toInt_le.mp (Int64.le_of_lt hnm))
        obtain rfl : r = s := by omega
        obtain rfl : r = t := by omega
        exact (Bridge.of_rank? (Int64.ne_of_lt hnm).symm ha hb hc).resolve_right nofun
      · obtain rfl : m = n := Std.compare_eq_iff_eq.mp heq
        obtain rfl : r = t := Option.some.inj (ha.symm.trans hc)
        have hrs : r = s := by omega
        exact ⟨(heq₁ hrs).resolve_right nofun, (heq₂ hrs.symm).resolve_right nofun⟩
    | _ => cases hb
  · have hac := (compare?_of_rank? ha hc).resolve_left hints
    refine ⟨_, hac, fun hgt => ?_, fun heq => ?_⟩
    · have := Int.compare_eq_gt.mp hgt
      omega
    · obtain rfl : r = t := Std.compare_eq_iff_eq.mp heq
      obtain rfl : r = s := by omega
      rcases heq₁ rfl with hlevel₁ | ⟨m, k, hne, rfl, rfl⟩
      · rcases heq₂ rfl with hlevel₂ | ⟨k, n, hne, rfl, rfl⟩
        · exact Or.inl ⟨hlevel₁, hlevel₂⟩
        · refine Or.inr (Or.inr ((Bridge.of_rank? hne hb ha hc).resolve_right ?_))
          exact fun ⟨m, hm⟩ => hints ⟨m, n, hm, rfl⟩
      · refine Or.inr (Or.inl ((Bridge.of_rank? hne ha hc hb).resolve_right ?_))
        exact fun ⟨n, hn⟩ => hints ⟨m, n, rfl, hn⟩

/-- Texts and truth values are in an order of their own, without bridges. -/
theorem chained_of_compare {α : Type} [Ord α] [Std.TransOrd α] [Std.LawfulEqOrd α] {f : α → Value} {a b c : α}
    (hf : ∀ x y, (f x).compare? (f y) = some (compare x y)) (h₁ : compare a b ≠ .gt) (h₂ : compare b c ≠ .gt) :
    Chained (f a) (f b) (f c) (compare a b) (compare b c) := by
  obtain ⟨hle, hlevel⟩ := compare_chain h₁ h₂
  exact ⟨_, hf a c, fun hgt => absurd hgt hle, fun heq => Or.inl (hlevel heq)⟩

theorem exists_str_of_compare? {s : Text} {b : Value} {o : Ordering} (h : (Value.str s).compare? b = some o) :
    ∃ t, b = .str t ∧ compare s t = o := by
  cases b with
  | str t => exact ⟨t, rfl, Option.some.inj h⟩
  | _ => cases h

theorem exists_bool_of_compare? {s : Bool} {b : Value} {o : Ordering} (h : (Value.bool s).compare? b = some o) :
    ∃ t, b = .bool t ∧ compare s t = o := by
  cases b with
  | bool t => exact ⟨t, rfl, Option.some.inj h⟩
  | _ => cases h

theorem compare?_chain {a b c : Value} {o₁ o₂ : Ordering} (hab : a.compare? b = some o₁) (hbc : b.compare? c = some o₂)
    (h₁ : o₁ ≠ .gt) (h₂ : o₂ ≠ .gt) : Chained a b c o₁ o₂ := by
  by_cases hkind : a.kind = .number
  · obtain ⟨⟨r, ha⟩, _⟩ := exists_rank?_of_compare? hkind hab
    exact chained_of_rank? ha hab hbc h₁ h₂
  cases a with
  | str s =>
    obtain ⟨t, rfl, rfl⟩ := exists_str_of_compare? hab
    obtain ⟨u, rfl, rfl⟩ := exists_str_of_compare? hbc
    exact chained_of_compare (fun _ _ => rfl) h₁ h₂
  | bool s =>
    obtain ⟨t, rfl, rfl⟩ := exists_bool_of_compare? hab
    obtain ⟨u, rfl, rfl⟩ := exists_bool_of_compare? hbc
    exact chained_of_compare (fun _ _ => rfl) h₁ h₂
  | int m => exact absurd rfl hkind
  | float x => exact absurd rfl hkind
  | null => cases b <;> cases hab
  | list as => cases b <;> cases hab
  | map as => cases b <;> cases hab

theorem order_eq_ok_iff {a b : Value} {o : Ordering} : a.order b = .ok o ↔ a.compare? b = some o := by
  unfold order
  split
  · rename_i heq
    rw [heq, Except.ok.injEq, Option.some.injEq]
  · rename_i hnone
    rw [hnone]
    exact iff_of_false nofun nofun

/-- Equality carries over exactly when nothing in the three values is a bridge, and a chain that
    does not go down has its ends in order: the first above the last only at a bridge, and the two
    level only when both steps were, or at a bridge between two of the three that round to the
    other. The integers of a bridge are beyond `2 ^ 53`. -/
theorem equals_and_order_carry_over (a b c : Value) :
    (a.equals b = true → b.equals c = true → (a.equals c = true ↔ ¬ Bridge a b c)) ∧
      (∀ o₁ o₂, a.order b = .ok o₁ → b.order c = .ok o₂ → o₁ ≠ .gt → o₂ ≠ .gt →
        ∃ o, a.order c = .ok o ∧ (o = .gt → Bridge a b c) ∧
          (o = .eq → o₁ = .eq ∧ o₂ = .eq ∨ Bridge a c b ∨ Bridge b a c)) ∧
      ∀ m x n, Bridge (.int m) (.float x) (.int n) → 1 <<< 53 ≤ m.toInt.natAbs ∧ 1 <<< 53 ≤ n.toInt.natAbs := by
  refine ⟨equals_iff_not_bridge, fun o₁ o₂ hab hbc h₁ h₂ => ?_, fun _ _ _ => Bridge.large⟩
  obtain ⟨o, hac, hgt, heq⟩ := compare?_chain (order_eq_ok_iff.mp hab) (order_eq_ok_iff.mp hbc) h₁ h₂
  exact ⟨o, order_eq_ok_iff.mpr hac, hgt, heq⟩

/-- One is level with the float 1.0 and below two, in lists and alone; and there is a bridge. -/
theorem equals_and_order_carry_over_one :
    let one : Double := ⟨0x3FF0000000000000⟩
    let large : Double := ⟨0x4340000000000000⟩
    ((Value.list [.int 1]).equals (.list [.float one]) = true ∧
      (Value.list [.float one]).equals (.list [.int 1]) = true ∧
      ((Value.list [.int 1]).equals (.list [.int 1]) = true ↔
        ¬ Bridge (.list [.int 1]) (.list [.float one]) (.list [.int 1]))) ∧
    ((Value.int 1).order (.float one) = .ok .eq ∧ (Value.float one).order (.int 2) = .ok .lt ∧
      ∃ o, (Value.int 1).order (.int 2) = .ok o ∧ (o = .gt → Bridge (.int 1) (.float one) (.int 2)) ∧
        (o = .eq → Ordering.eq = .eq ∧ Ordering.lt = .eq ∨ Bridge (.int 1) (.int 2) (.float one) ∨
          Bridge (.float one) (.int 1) (.int 2))) ∧
    Bridge (.int 9007199254740993) (.float large) (.int 9007199254740992) ∧
      1 <<< 53 ≤ (9007199254740993 : Int64).toInt.natAbs ∧ 1 <<< 53 ≤ (9007199254740992 : Int64).toInt.natAbs := by
  intro one large
  have hlist := (equals_and_order_carry_over (.list [.int 1]) (.list [.float one]) (.list [.int 1])).1
  have hchain := (equals_and_order_carry_over (.int 1) (.float one) (.int 2)).2.1 .eq .lt
  have hlarge := (equals_and_order_carry_over .null .null .null).2.2 9007199254740993 large 9007199254740992
  have hone : (Value.list [.int 1]).equals (.list [.float one]) = true := by decide +kernel
  have hone' : (Value.list [.float one]).equals (.list [.int 1]) = true := by decide +kernel
  have hlevel : (Value.int 1).order (.float one) = .ok .eq := order_eq_ok_iff.mpr (by decide +kernel)
  have hbelow : (Value.float one).order (.int 2) = .ok .lt := order_eq_ok_iff.mpr (by decide +kernel)
  have hbridge : Bridge (.int 9007199254740993) (.float large) (.int 9007199254740992) :=
    .number (by decide) (by decide +kernel) (by decide +kernel)
  exact ⟨⟨hone, hone', hlist hone hone'⟩, ⟨hlevel, hbelow, hchain hlevel hbelow nofun nofun⟩, hbridge, hlarge hbridge⟩

/-- The integers `2 ^ 53 + 1` and `2 ^ 53` both equal the float `2 ^ 53` and not each other. -/
theorem float_between_unequal_integers :
    let a := Value.int 9007199254740993
    let b := Value.float ⟨0x4340000000000000⟩
    let c := Value.int 9007199254740992
    a.equals b = true ∧ b.equals c = true ∧ a.equals c = false ∧
      a.order b = .ok .eq ∧ b.order c = .ok .eq ∧ a.order c = .ok .gt ∧ c.order a = .ok .lt ∧ c.order b = .ok .eq := by
  simp only [order_eq_ok_iff]
  decide +kernel

end Value

end MailMerge
