/-
  MailMerge.Proofs.IntegerKeys — maps whose keys are integers.

  A key is converted like any datum, and the value is printed. A 64-bit integer is printed by its
  digits; an unsigned key beyond the signed 64-bit integers has become the nearest float by then, and
  is printed as that (`Data.keyName`).

  Proved: integers are told apart by their text (`Number.ofInt_injective`), and no float is written
  like one (`Number.write_ne_ofInt`). So a map with integer keys keeps every entry under the digits of
  its key exactly when no key has become a float; in any case the last entry told under a name is
  the one that is kept (`Data.toValue_integer_keys`). Two keys that have become the same float are
  one key (`Data.keys_collide_beyond_int64`).
-/

import MailMerge.Proofs.Conversion
import MailMerge.Proofs.Integers

namespace MailMerge

/-! ## Written numbers -/

namespace Number

theorem ofInt_injective {m n : Int} (h : ofInt m = ofInt n) : m = n := by
  have hm := Numeral.splitSign_ofInt m []
  rw [h, Numeral.splitSign_ofInt n []] at hm
  simp only [List.append_nil, Prod.mk.injEq, decide_eq_decide] at hm
  obtain ⟨hsign, hdigits⟩ := hm
  have hnatAbs := congrArg Numeral.ofDigits hdigits
  rw [Numeral.ofDigits_digits, Numeral.ofDigits_digits] at hnatAbs
  omega

theorem point_mem_positional (ds : Text) (point : Int) : '.' ∈ positional ds point := by
  unfold positional
  split <;> simp

theorem mark_mem_scientific (plus ds : Text) (point : Int) : 'e' ∈ scientific plus ds point := by
  simp [scientific]

/-- A finite float is written with a point or with a power of ten. -/
theorem exists_mark_of_ofMagnitude (layout : Layout) (m : Nat) :
    '.' ∈ layout.ofMagnitude m ∨ 'e' ∈ layout.ofMagnitude m := by
  unfold Layout.ofMagnitude
  split
  · exact Or.inl (by decide)
  · extract_lets d all point ds
    split
    · exact Or.inl (point_mem_positional ds point)
    · exact Or.inr (mark_mem_scientific layout.plus ds point)

theorem exists_mark_of_write (x : Double) : ∃ c ∈ Layout.plain.write x, c.isDigit = false ∧ c ≠ '-' := by
  have hfinite : ∃ c ∈ Layout.plain.ofMagnitude x.magnitude, c.isDigit = false ∧ c ≠ '-' := by
    rcases exists_mark_of_ofMagnitude .plain x.magnitude with h | h
    · exact ⟨'.', h, by decide⟩
    · exact ⟨'e', h, by decide⟩
  unfold Layout.write
  split
  · exact ⟨'N', by decide, by decide⟩
  split
  · obtain ⟨c, hc, hmark⟩ := hfinite
    split
    · exact ⟨c, List.mem_cons_of_mem _ hc, hmark⟩
    · exact ⟨c, hc, hmark⟩
  split
  · exact ⟨'i', by decide, by decide⟩
  · exact ⟨'i', by decide, by decide⟩

/-- No float is written like an integer. -/
theorem write_ne_ofInt (x : Double) (n : Int) : Layout.plain.write x ≠ ofInt n := by
  intro h
  obtain ⟨c, hc, hdigit, hminus⟩ := exists_mark_of_write x
  rw [h] at hc
  rcases isDigit_of_mem_ofInt hc with h | h
  · simp [h] at hdigit
  · exact hminus h

end Number

namespace Data

/-! ## The names of integers -/

/-- The number that a datum of one of the integer types is. -/
def integer? : Data → Option Int
  | .int8 n => some n.toInt
  | .int16 n => some n.toInt
  | .int32 n => some n.toInt
  | .int64 n => some n.toInt
  | .nat8 n => some n.toNat
  | .nat16 n => some n.toNat
  | .nat32 n => some n.toNat
  | .nat64 n => some n.toNat
  | _ => none

/-- The name of an integer as a key: its digits, or beyond the signed 64-bit integers the text of the
    nearest float. -/
def keyName (n : Int) : Text :=
  if n < 0x8000000000000000 then Number.ofInt n else Number.Layout.plain.write (.ofNat n.toNat)

theorem keyName_of_lt {n : Int} (h : n < 0x8000000000000000) : keyName n = Number.ofInt n := if_pos h

/-- Only an unsigned integer of 64 bits can be beyond the signed ones. -/
theorem integer?_lt_iff {d : Data} {n : Int} (h : d.integer? = some n) :
    n < 0x8000000000000000 ↔ ∀ m, d = .nat64 m → m.toNat < 0x8000000000000000 := by
  cases d with
  | nat64 m =>
    cases h
    constructor
    · rintro hlt _ ⟨⟩
      omega
    · intro hlt
      have := hlt m rfl
      omega
  | int8 m | int16 m | int32 m | int64 m =>
    cases h
    refine iff_of_true ?_ nofun
    have := m.toInt_lt
    omega
  | nat8 m | nat16 m | nat32 m =>
    cases h
    refine iff_of_true ?_ nofun
    have := m.toNat_lt
    omega
  | _ => cases h

theorem keyText_int (m : Int64) : MapDraft.keyText (.int m) = .ok (keyName m.toInt) := by
  have := m.toInt_lt
  rw [keyName_of_lt (by omega)]
  rfl

theorem keyText_ofNat {m : Nat} (h : m < 0x8000000000000000) :
    MapDraft.keyText (.int (.ofNat m)) = .ok (keyName m) := by
  rw [keyText_int, Int64.toInt_ofNat_of_lt h]

/-- A datum of an integer type is a key by the name of its number. -/
theorem keyText_of_integer? {d : Data} {n : Int} (h : d.integer? = some n) :
    (d.toValue >>= MapDraft.keyText) = .ok (keyName n) := by
  cases d with
  | int8 m | int16 m | int32 m =>
    cases h
    rw [toValue]
    refine (keyText_int _).trans ?_
    simp
  | int64 m =>
    cases h
    rw [toValue]
    exact keyText_int m
  | nat8 m | nat16 m | nat32 m =>
    cases h
    rw [toValue]
    have := m.toNat_lt
    exact keyText_ofNat (by omega)
  | nat64 m =>
    cases h
    rw [toValue, Value.ofUInt64]
    split
    · rename_i hlt
      exact keyText_ofNat hlt
    · rename_i hge
      rw [keyName, if_neg (by omega), Int.toNat_natCast]
      rfl
  | _ => cases h

/-! ## Maps with integer keys -/

/-- The entry is an integer with the value as its datum's. -/
structure Numbered (e : Data × Data) (p : Int × Value) : Prop where
  key : e.1.integer? = some p.1
  value : e.2.toValue = .ok p.2

/-- The entries by the names of their keys. -/
def named (ps : List (Int × Value)) : List (Text × Value) := ps.map fun p => (keyName p.1, p.2)

theorem toValue_of_numbered {es : List (Data × Data)} {ps : List (Int × Value)} (h : List.Forall₂ Numbered es ps) :
    (entries es).toValue = .ok (.map (.ofList (named ps))) := by
  refine toValue_entries (List.forall₂_map_right_iff.mpr (h.imp ?_))
  exact fun e p hp => ⟨keyText_of_integer? hp.key, hp.value⟩

theorem lt_iff_of_numbered {es : List (Data × Data)} {ps : List (Int × Value)} (h : List.Forall₂ Numbered es ps) :
    (∀ p ∈ ps, p.1 < 0x8000000000000000) ↔ ∀ e ∈ es, ∀ m, e.1 = .nat64 m → m.toNat < 0x8000000000000000 := by
  induction h with
  | nil => simp
  | cons hp _ ih => rw [List.forall_mem_cons, List.forall_mem_cons, ih, integer?_lt_iff hp.key]

/-- The map has as many entries as were told, and under each text the value that was told with the
    integer of these digits. -/
structure KeptByDigits (ps : List (Int × Value)) (fields : Keyed.Table Value) : Prop where
  length : fields.entries.length = ps.length
  bound : ∀ k v, fields.get? k = some v ↔ ∃ n, k = Number.ofInt n ∧ (n, v) ∈ ps

theorem named_of_lt {ps : List (Int × Value)} (h : ∀ p ∈ ps, p.1 < 0x8000000000000000) :
    named ps = ps.map fun p => (Number.ofInt p.1, p.2) :=
  List.map_congr_left fun p hp => by rw [keyName_of_lt (h p hp)]

theorem keptByDigits_of_lt {ps : List (Int × Value)} (hdistinct : (ps.map (·.1)).Nodup)
    (h : ∀ p ∈ ps, p.1 < 0x8000000000000000) : KeptByDigits ps (.ofList (named ps)) := by
  have hkeys : ((named ps).map (·.1)).Nodup := by
    have hmap : (named ps).map (·.1) = (ps.map (·.1)).map Number.ofInt := by
      rw [named_of_lt h, List.map_map, List.map_map]
      rfl
    rw [hmap]
    exact List.pairwise_map.mpr (hdistinct.imp fun hne heq => hne (Number.ofInt_injective heq))
  have hperm := Keyed.Table.ofList_perm hkeys
  constructor
  · rw [hperm.length_eq, named, List.length_map]
  · intro k v
    rw [Keyed.Table.get?_eq_some_iff, hperm.mem_iff, named_of_lt h, List.mem_map]
    constructor
    · rintro ⟨⟨n, u⟩, hp, heq⟩
      cases heq
      exact ⟨n, rfl, hp⟩
    · rintro ⟨n, rfl, hp⟩
      exact ⟨(n, v), hp, rfl⟩

/-- A key that has become a float leaves no entry under its digits. -/
theorem lt_of_keptByDigits {ps : List (Int × Value)} (h : KeptByDigits ps (.ofList (named ps))) :
    ∀ p ∈ ps, p.1 < 0x8000000000000000 := by
  intro p hp
  have hget := (h.bound (Number.ofInt p.1) p.2).mpr ⟨p.1, rfl, hp⟩
  rw [Keyed.Table.get?_ofList] at hget
  have hmem := List.mem_reverse.mp (Keyed.get?_mem hget)
  obtain ⟨q, _, hq⟩ := List.mem_map.mp hmem
  have hname : keyName q.1 = Number.ofInt p.1 := congrArg Prod.fst hq
  unfold keyName at hname
  split at hname
  · rename_i hlt
    rwa [← Number.ofInt_injective hname]
  · exact absurd hname (Number.write_ne_ofInt _ _)

/-- A map with integers as keys, whose data has values, always has a value. Under each name stands the
    value of the last entry with that name, and nothing stands under any other text. Of different
    integers every entry is kept under its digits exactly when no key is an unsigned integer beyond
    the signed ones of 64 bits. -/
theorem toValue_integer_keys {es : List (Data × Data)} {ps : List (Int × Value)} (h : List.Forall₂ Numbered es ps) :
    ∃ fields, (entries es).toValue = .ok (.map fields) ∧
      (∀ before p after, ps = before ++ p :: after → (∀ q ∈ after, keyName q.1 ≠ keyName p.1) →
        fields.get? (keyName p.1) = some p.2) ∧
      (∀ k, (∀ p ∈ ps, keyName p.1 ≠ k) → fields.get? k = none) ∧
      ((ps.map (·.1)).Nodup →
        (KeptByDigits ps fields ↔ ∀ e ∈ es, ∀ m, e.1 = .nat64 m → m.toNat < 0x8000000000000000)) := by
  refine ⟨_, toValue_of_numbered h, ?_, fun k hnone => ?_, fun hdistinct => ?_⟩
  · rintro before p after rfl hlast
    rw [Keyed.Table.get?_ofList, named, List.map_append, List.map_cons]
    exact Keyed.get?_reverse_of_last (List.forall_mem_map.mpr hlast)
  · rw [Keyed.Table.get?_ofList]
    exact Keyed.get?_reverse_eq_none (List.forall_mem_map.mpr hnone)
  · rw [← lt_iff_of_numbered h]
    exact ⟨lt_of_keptByDigits, keptByDigits_of_lt hdistinct⟩

/-- The two greatest unsigned integers have one name. -/
theorem keyName_greatest :
    keyName 18446744073709551615 = "1.8446744073709552e19".toList ∧
      keyName 18446744073709551614 = "1.8446744073709552e19".toList := by
  decide +kernel

/-- Keys of three widths, the greatest signed 64-bit integer among them, are all kept; of the two
    greatest unsigned ones, which become one float, only the later entry is. -/
theorem toValue_integer_keys_of_mixed_widths :
    let small : List (Data × Data) :=
      [(.int8 (-128), .bool true), (.nat64 9223372036854775807, .str "x".toList), (.int32 7, .unit)]
    let large : List (Data × Data) := [(.nat64 18446744073709551615, .int64 1), (.nat64 18446744073709551614, .int64 2)]
    (∃ fields, (entries small).toValue = .ok (.map fields) ∧ fields.entries.length = 3 ∧
      fields.get? (Number.ofInt 9223372036854775807) = some (.str "x".toList)) ∧
    ∃ fields, (entries large).toValue = .ok (.map fields) ∧
      fields.get? "1.8446744073709552e19".toList = some (.int 2) ∧
      fields.get? (Number.ofInt 18446744073709551614) = none := by
  intro small large
  have hsmall : List.Forall₂ Numbered small [(-128, .bool true), (9223372036854775807, .str "x".toList), (7, .null)] :=
    .cons ⟨rfl, rfl⟩ (.cons ⟨rfl, rfl⟩ (.cons ⟨rfl, rfl⟩ .nil))
  have hlarge : List.Forall₂ Numbered large [(18446744073709551615, .int 1), (18446744073709551614, .int 2)] :=
    .cons ⟨rfl, rfl⟩ (.cons ⟨rfl, rfl⟩ .nil)
  constructor
  · obtain ⟨fields, hvalue, _, _, hkept⟩ := toValue_integer_keys hsmall
    obtain ⟨hlength, hbound⟩ := (hkept (by decide)).mpr (by simp [small])
    exact ⟨fields, hvalue, hlength, (hbound _ _).mpr ⟨_, rfl, by simp⟩⟩
  · obtain ⟨fields, hvalue, hlast, hnone, _⟩ := toValue_integer_keys hlarge
    have hlater := hlast [(18446744073709551615, .int 1)] (18446744073709551614, .int 2) [] rfl nofun
    refine ⟨fields, hvalue, keyName_greatest.2 ▸ hlater, hnone _ ?_⟩
    simp only [List.forall_mem_cons, keyName_greatest]
    decide

/-- Two unsigned keys that are one float are one key of the map, and the first entry is lost. -/
theorem keys_collide_beyond_int64 :
    (entries [(.nat64 18446744073709551615, .int64 1), (.nat64 18446744073709551614, .int64 2)]).toValue =
      .ok (.map (.ofList [("1.8446744073709552e19".toList, .int 2)])) := by
  have hnumbered : List.Forall₂ Numbered
      [(.nat64 18446744073709551615, .int64 1), (.nat64 18446744073709551614, .int64 2)]
      [(18446744073709551615, .int 1), (18446744073709551614, .int 2)] :=
    .cons ⟨rfl, rfl⟩ (.cons ⟨rfl, rfl⟩ .nil)
  obtain ⟨hfirst, hsecond⟩ := keyName_greatest
  rw [toValue_of_numbered hnumbered, named, List.map_cons, List.map_cons, List.map_nil, hfirst, hsecond]
  rfl

end Data

end MailMerge
