/-
  MailMerge.Keyed — entries with a text as key.

  In a list of entries the first of equal keys counts. A `Table` has its entries in ascending order
  of their keys, which is the order of the code points, and cannot have them in any other: with
  each entry stands the proof that its key is above the one before. `insert` puts an entry in its
  place, over one with an equal key, so in `ofList` the last of equal keys wins.

  - `Table.get?_insert`: an insertion changes the value at its own key only.
  - `Table.get?_ofList`: after insertions the last value of a key stands under it.
  - `Table.ofList_perm`: entries with different keys are all kept.
  - `Table.ofList_entries`: a table is what its own entries make.
-/

import MailMerge.Text.Blank

namespace MailMerge.Keyed

variable {α : Type}

/-! ## Lists of entries -/

/-- The value of the first entry with the key. -/
def get? (key : Text) : List (Text × α) → Option α
  | [] => none
  | (k, a) :: rest => if key = k then some a else get? key rest

@[simp] theorem get?_nil (key : Text) : get? key ([] : List (Text × α)) = none := rfl

theorem get?_eq_none {key : Text} {m : List (Text × α)} (h : ∀ e ∈ m, e.1 ≠ key) : get? key m = none := by
  induction m with
  | nil => rfl
  | cons e m ih =>
    obtain ⟨he, hm⟩ := List.forall_mem_cons.mp h
    rw [get?, if_neg (Ne.symm he), ih hm]

theorem get?_append (key : Text) (l m : List (Text × α)) : get? key (l ++ m) = (get? key l).or (get? key m) := by
  induction l with
  | nil => rfl
  | cons e l ih =>
    by_cases h : key = e.1
    · simp [get?, h]
    · simp [get?, h, ih]

theorem get?_mem {key : Text} {m : List (Text × α)} {a : α} (h : get? key m = some a) : (key, a) ∈ m := by
  induction m with
  | nil => cases h
  | cons e m ih =>
    obtain ⟨k, b⟩ := e
    rw [get?] at h
    split at h
    · rename_i hk
      cases h
      rw [hk]
      exact List.mem_cons_self
    · exact List.mem_cons_of_mem _ (ih h)

/-- Among different keys a look-up finds every entry. -/
theorem get?_eq_some_iff {key : Text} {m : List (Text × α)} {a : α} (h : (m.map (·.1)).Nodup) :
    get? key m = some a ↔ (key, a) ∈ m := by
  refine ⟨get?_mem, fun hmem => ?_⟩
  obtain ⟨before, after, rfl⟩ := List.append_of_mem hmem
  rw [List.map_append, List.map_cons, List.nodup_append] at h
  have hbefore : get? key before = none :=
    get?_eq_none fun e he heq => h.2.2 e.1 (List.mem_map_of_mem he) key List.mem_cons_self heq
  rw [get?_append, hbefore, Option.none_or, get?, if_pos rfl]

/-! ## The last entry with a key -/

theorem get?_reverse_eq_none {key : Text} {m : List (Text × α)} (h : ∀ e ∈ m, e.1 ≠ key) : get? key m.reverse = none :=
  get?_eq_none fun e he => h e (List.mem_reverse.mp he)

theorem get?_reverse_of_last {key : Text} {a : α} {before after : List (Text × α)} (h : ∀ e ∈ after, e.1 ≠ key) :
    get? key (before ++ (key, a) :: after).reverse = some a := by
  rw [List.reverse_append, List.reverse_cons, get?_append, get?_append, get?_reverse_eq_none h]
  simp [get?]

theorem get?_reverse_of_nodup {m : List (Text × α)} (h : (m.map (·.1)).Nodup) (key : Text) :
    get? key m.reverse = get? key m := by
  have hreverse : (m.reverse.map (·.1)).Nodup := (m.reverse_perm.map _).nodup_iff.mpr h
  refine Option.ext fun a => ?_
  rw [get?_eq_some_iff hreverse, get?_eq_some_iff h, List.mem_reverse]

/-- The keys stand in strictly ascending order. -/
def Ascending (m : List (Text × α)) : Prop := m.Pairwise fun a b => compare a.1 b.1 = .lt

theorem ascending_iff {m : List (Text × α)} : Ascending m ↔ (m.map (·.1)).Pairwise (compare · · = .lt) := by
  rw [Ascending, List.pairwise_map]

theorem keys_nodup {m : List (Text × α)} (h : Ascending m) : (m.map (·.1)).Nodup := by
  refine (ascending_iff.mp h).imp ?_
  intro a b hlt heq
  simp [heq] at hlt

/-! ## Tables -/

/-- The key comes after the bound, when there is one. -/
def Above : Option Text → Text → Prop
  | none, _ => True
  | some low, key => compare low key = .lt

theorem above_none (key : Text) : Above none key := trivial

theorem above_of_lt {low key : Text} (h : compare low key = .lt) : Above (some low) key := h

/-- Entries in strictly ascending order of their keys, all above the bound when there is one. -/
inductive Table (α : Type) : (low : Option Text := none) → Type
  | nil {low : Option Text} : Table α low
  | cons {low : Option Text} (key : Text) (value : α) (above : Above low key) (rest : Table α (some key)) :
      Table α low
  deriving Repr

namespace Table

def empty : Table α := .nil

def entries : {low : Option Text} → Table α low → List (Text × α)
  | _, .nil => []
  | _, .cons key value _ rest => (key, value) :: rest.entries

def get? {low : Option Text} (t : Table α low) (key : Text) : Option α := Keyed.get? key t.entries

/-- The entry put in its place; it replaces an entry with an equal key. -/
def insertAbove (key : Text) (value : α) : {low : Option Text} → Above low key → Table α low → Table α low
  | _, h, .nil => .cons key value h .nil
  | _, h, .cons k a hk rest =>
    match hc : compare key k with
    | .lt => .cons key value h (.cons k a (above_of_lt hc) rest)
    | .eq => .cons k value hk rest
    | .gt => .cons k a hk (insertAbove key value (above_of_lt (Std.OrientedCmp.lt_of_gt hc)) rest)

def insert (t : Table α) (key : Text) (value : α) : Table α := insertAbove key value (above_none key) t

/-- The entries inserted one after another. -/
def insertAll (t : Table α) (es : List (Text × α)) : Table α := es.foldl (fun t e => t.insert e.1 e.2) t

/-- The entries in their places; the last of equal keys wins. -/
def ofList (es : List (Text × α)) : Table α := empty.insertAll es

@[simp] theorem entries_empty : (empty : Table α).entries = [] := rfl

section
variable {low : Option Text}

theorem above_of_mem {t : Table α low} : ∀ e ∈ t.entries, Above low e.1 := by
  induction t with
  | nil => exact nofun
  | @cons low k a hk rest ih =>
    refine List.forall_mem_cons.mpr ⟨hk, fun e he => ?_⟩
    cases low with
    | none => trivial
    | some low => exact Std.TransCmp.lt_trans hk (ih e he)

theorem ascending_entries (t : Table α low) : Ascending t.entries := by
  induction t with
  | nil => exact .nil
  | cons k a _ rest ih => exact List.pairwise_cons.mpr ⟨above_of_mem, ih⟩

/-- A table has nothing but its entries. -/
theorem ext_entries {t t' : Table α low} (h : t.entries = t'.entries) : t = t' := by
  induction t with
  | nil =>
    cases t' with
    | nil => rfl
    | cons => cases h
  | cons k a _ rest ih =>
    cases t' with
    | nil => cases h
    | cons =>
      obtain ⟨hfirst, hrest⟩ := List.cons.inj h
      cases hfirst
      rw [ih hrest]

/-- A look-up finds every entry. -/
theorem get?_eq_some_iff {t : Table α low} {key : Text} {a : α} : t.get? key = some a ↔ (key, a) ∈ t.entries :=
  Keyed.get?_eq_some_iff (keys_nodup t.ascending_entries)

theorem get?_insertAbove {key : Text} (value : α) (h : Above low key) (t : Table α low) (k : Text) :
    (insertAbove key value h t).get? k = if k = key then some value else t.get? k := by
  induction t with
  | nil => rfl
  | cons k' a _ rest ih =>
    rw [insertAbove]
    split
    · rfl
    · rename_i hc
      obtain rfl : key = k' := Std.LawfulEqOrd.eq_of_compare hc
      by_cases hk : k = key <;> simp [get?, entries, Keyed.get?, hk]
    · rename_i hc
      have hne : key ≠ k' := by rintro rfl; simp at hc
      have hrest := ih (above_of_lt (Std.OrientedCmp.lt_of_gt hc))
      simp only [get?, entries, Keyed.get?] at hrest ⊢
      by_cases hk : k = k'
      · subst hk; simp [Ne.symm hne]
      · simp [hk, hrest]

/-- An entry with a key of its own is one more. -/
theorem insertAbove_perm {key : Text} (value : α) (h : Above low key) {t : Table α low}
    (hne : ∀ e ∈ t.entries, e.1 ≠ key) : (insertAbove key value h t).entries.Perm ((key, value) :: t.entries) := by
  induction t with
  | nil => exact .refl _
  | cons k a _ rest ih =>
    obtain ⟨hk, hrest⟩ := List.forall_mem_cons.mp hne
    rw [insertAbove]
    split
    · exact .refl _
    · rename_i heq
      exact absurd (Std.LawfulEqOrd.eq_of_compare heq).symm hk
    · exact ((ih _ hrest).cons (k, a)).trans (.swap _ _ _)

/-- A key above all others goes to the end. -/
theorem insertAbove_last {key : Text} (value : α) (h : Above low key) {t : Table α low}
    (hlast : ∀ e ∈ t.entries, compare e.1 key = .lt) :
    (insertAbove key value h t).entries = t.entries ++ [(key, value)] := by
  induction t with
  | nil => rfl
  | cons k a _ rest ih =>
    obtain ⟨hk, hrest⟩ := List.forall_mem_cons.mp hlast
    rw [insertAbove]
    split
    · rename_i hc
      exact absurd hc (Std.OrientedCmp.not_lt_of_lt hk)
    · rename_i hc
      simp [Std.LawfulEqOrd.eq_of_compare hc] at hk
    · rw [entries, ih _ hrest]
      rfl

end

theorem get?_insert (t : Table α) (key k : Text) (value : α) :
    (t.insert key value).get? k = if k = key then some value else t.get? k := get?_insertAbove value _ t k

theorem get?_insertAll (t : Table α) (es : List (Text × α)) (key : Text) :
    (t.insertAll es).get? key = (Keyed.get? key es.reverse).or (t.get? key) := by
  induction es generalizing t with
  | nil => rfl
  | cons e es ih =>
    have hfirst : (t.insert e.1 e.2).get? key = (Keyed.get? key [e]).or (t.get? key) := by
      rw [get?_insert]
      by_cases h : key = e.1 <;> simp [Keyed.get?, h]
    rw [insertAll, List.foldl_cons, ← insertAll, ih, hfirst, List.reverse_cons, get?_append, Option.or_assoc]

theorem get?_ofList (es : List (Text × α)) (key : Text) : (ofList es).get? key = Keyed.get? key es.reverse :=
  (get?_insertAll empty es key).trans Option.or_none

theorem insertAll_perm {t : Table α} {es : List (Text × α)} (h : ((es ++ t.entries).map (·.1)).Nodup) :
    (t.insertAll es).entries.Perm (es ++ t.entries) := by
  induction es generalizing t with
  | nil => exact .refl _
  | cons e es ih =>
    have hnew : ∀ e' ∈ t.entries, e'.1 ≠ e.1 := by
      intro e' he' heq
      exact (List.nodup_cons.mp h).1 (List.mem_map.mpr ⟨e', List.mem_append_right _ he', heq⟩)
    have hplaced : (es ++ (t.insert e.1 e.2).entries).Perm (e :: es ++ t.entries) :=
      ((insertAbove_perm e.2 (above_none _) hnew).append_left es).trans List.perm_middle
    exact (ih ((hplaced.map (·.1)).nodup_iff.mpr h)).trans hplaced

theorem ofList_perm {es : List (Text × α)} (h : (es.map (·.1)).Nodup) : (ofList es).entries.Perm es := by
  have hall : (ofList es).entries.Perm (es ++ []) := insertAll_perm (by rwa [entries_empty, List.append_nil])
  rwa [List.append_nil] at hall

/-- Entries in order, above those that are there, go to the end one after another. -/
theorem entries_insertAll {t : Table α} {es : List (Text × α)} (h : Ascending (t.entries ++ es)) :
    (t.insertAll es).entries = t.entries ++ es := by
  induction es generalizing t with
  | nil => exact (List.append_nil _).symm
  | cons e es ih =>
    have hlast : (t.insert e.1 e.2).entries = t.entries ++ [e] :=
      insertAbove_last e.2 (above_none _) fun e' he' => (List.pairwise_append.mp h).2.2 e' he' e List.mem_cons_self
    have hsplit : (t.insert e.1 e.2).entries ++ es = t.entries ++ e :: es := by
      rw [hlast, List.append_assoc, List.singleton_append]
    exact (ih (by rwa [hsplit])).trans hsplit

theorem entries_ofList {es : List (Text × α)} (h : Ascending es) : (ofList es).entries = es := entries_insertAll h

theorem ofList_entries (t : Table α) : ofList t.entries = t := ext_entries (entries_ofList t.ascending_entries)

end Table

end MailMerge.Keyed
