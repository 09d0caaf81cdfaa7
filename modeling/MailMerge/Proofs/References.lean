/-
  MailMerge.Proofs.References — names and paths at the front of a text.

  A cut behind a name is one where the name does not go on (`splitName_eq_some_iff`), and what a
  path takes off the text are characters of names and points (`exists_taken`). A reference is
  a mark, a path and a fallback (`read_eq_some_iff`). A name alone refers to itself unless it is
  reserved (`read_name`), one under the mark always does (`read_marked`), also with JSON text
  after it (`read_marked_json`), and a reserved word is not a reference, whatever follows it, as
  long as the name ends there (`read_reserved`).
-/

import MailMerge.Expr.Reference
import MailMerge.Proofs.Words

namespace MailMerge

namespace Text

theorem splitName_eq_some_iff {s name rest : Text} :
    splitName s = some (name, rest) ↔
      s = name ++ rest ∧ isName name = true ∧ ∀ c ∈ rest.head?, isNameChar c = false := by
  constructor
  · intro h
    refine ⟨(splitName_append h).symm, ?_⟩
    cases s with
    | nil => cases h
    | cons c s =>
      simp only [splitName] at h
      split at h
      · rename_i hc
        cases h
        exact ⟨isName_cons.mpr ⟨hc, fun d hd => List.all_eq_true.mp List.all_takeWhile d hd⟩,
          fun d hd => head?_dropWhile hd⟩
      · cases h
  · intro hparts
    obtain ⟨rfl, hname, hrest⟩ := hparts
    cases name with
    | nil => cases hname
    | cons c name =>
      obtain ⟨hc, hchars⟩ := isName_cons.mp hname
      simp only [List.cons_append, splitName, hc, if_true, takeWhile_exact hchars hrest, dropWhile_exact hchars hrest]

end Text

namespace Reference

open Text

/-! ## Paths -/

/-- A path takes characters of names and points off the text, beginning with that of a name. -/
theorem exists_taken {s rest : Text} {names : List Text} (h : splitPath s = some (names, rest)) :
    ∃ taken, s = taken ++ rest ∧ (∃ c ∈ taken.head?, isNameStart c = true) ∧
      ∀ c ∈ taken, isNameChar c = true ∨ c = '.' := by
  have front {s name rest : Text} (hname : splitName s = some (name, rest)) :
      ∃ c ∈ name.head?, isNameStart c = true := by
    obtain ⟨-, hname, -⟩ := splitName_eq_some_iff.mp hname
    cases name with
    | nil => cases hname
    | cons c name => exact ⟨c, rfl, (isName_cons.mp hname).1⟩
  fun_induction splitPath s generalizing names with
  | case1 => cases h
  | case2 s name rest' hname ih =>
    simp only [Option.map_eq_some_iff, Prod.exists, Prod.mk.injEq] at h
    obtain ⟨_, _, hpath, -, rfl⟩ := h
    obtain ⟨taken, rfl, -, htaken⟩ := ih hpath
    obtain ⟨c, hc, hstart⟩ := front hname
    obtain ⟨rfl, hname, -⟩ := splitName_eq_some_iff.mp hname
    refine ⟨name ++ '.' :: taken, by simp, ⟨c, by simp [Option.mem_def.mp hc], hstart⟩, fun d hd => ?_⟩
    rcases List.mem_append.mp hd with hd | hd
    · exact Or.inl (isNameChar_of_mem_name hname d hd)
    · rcases List.mem_cons.mp hd with rfl | hd
      · exact Or.inr rfl
      · exact htaken d hd
  | case3 s name rest' _ hname =>
    cases h
    have hfront := front hname
    obtain ⟨rfl, hname, -⟩ := splitName_eq_some_iff.mp hname
    exact ⟨name, rfl, hfront, fun d hd => Or.inl (isNameChar_of_mem_name hname d hd)⟩

/-- A name before the end, or before a character that neither continues it nor goes on to a field. -/
theorem splitPath_name {name rest : Text} (hname : isName name = true)
    (hrest : ∀ c ∈ rest.head?, isNameChar c = false ∧ c ≠ '.') : splitPath (name ++ rest) = some ([name], rest) := by
  have hsplit := splitName_eq_some_iff.mpr ⟨rfl, hname, fun c hc => (hrest c hc).1⟩
  rw [splitPath, hsplit]
  cases rest with
  | nil => rfl
  | cons c rest =>
    split
    · rename_i h
      cases h
    · rename_i h
      cases h
      exact absurd rfl (hrest '.' rfl).2
    · rename_i h
      cases h
      rfl

theorem splitPath_self {name : Text} (hname : isName name = true) : splitPath name = some ([name], []) := by
  have hpath : splitPath (name ++ []) = some ([name], []) := splitPath_name hname fun c hc => nomatch hc
  rwa [List.append_nil] at hpath

/-! ## References -/

theorem splitMark_append (s : Text) : (splitMark s).1 ++ (splitMark s).2 = s := by
  unfold splitMark
  split
  · rename_i h
    obtain ⟨t, rfl⟩ := List.isPrefixOf_iff_prefix.mp h
    simp
  · rfl

theorem mark_eq_or (s : Text) : (splitMark s).1 = callerMark ∨ (splitMark s).1 = [] := by
  unfold splitMark
  split
  · exact Or.inl rfl
  · exact Or.inr rfl

theorem read_eq_some_iff {s : Text} {path : List Text} {fallback : Option Value} :
    read s = some (path, fallback) ↔
      ∃ head names rest, splitPath (splitMark s).2 = some (head :: names, rest) ∧
        ¬ ((splitMark s).1 = [] ∧ head ∈ reserved) ∧ readFallback rest = some fallback ∧
        path = ((splitMark s).1 ++ head) :: names := by
  unfold read
  simp only
  split
  · rename_i head names rest hpath
    split
    · rename_i hreserved
      simp only [Bool.and_eq_true, List.isEmpty_iff, List.contains_iff_mem] at hreserved
      constructor
      · intro h
        cases h
      · intro hparts
        obtain ⟨_, _, _, hpath', hfree, -⟩ := hparts
        cases hpath.symm.trans hpath'
        exact absurd hreserved hfree
    · rename_i hfree
      simp only [Bool.and_eq_true, List.isEmpty_iff, List.contains_iff_mem] at hfree
      constructor
      · intro h
        simp only [Option.map_eq_some_iff, Prod.mk.injEq] at h
        obtain ⟨_, hfallback, rfl, rfl⟩ := h
        exact ⟨head, names, rest, hpath, hfree, hfallback, rfl⟩
      · intro hparts
        obtain ⟨_, _, _, hpath', -, hfallback, rfl⟩ := hparts
        cases hpath.symm.trans hpath'
        rw [hfallback]
        rfl
  · rename_i hnone
    constructor
    · intro h
      cases h
    · intro hparts
      obtain ⟨head, names, rest, hpath, -⟩ := hparts
      exact absurd hpath (hnone head names rest)

theorem splitMark_marked (s : Text) : splitMark (callerMark ++ s) = (callerMark, s) := by
  rw [splitMark, if_pos (List.isPrefixOf_iff_prefix.mpr (List.prefix_append _ _)), List.drop_left]

theorem splitMark_of_not_mem {s : Text} (h : ':' ∉ s) : splitMark s = ([], s) := by
  refine if_neg fun hmark => h ?_
  exact (List.isPrefixOf_iff_prefix.mp hmark).subset (by decide)

/-- A name refers to itself. -/
theorem read_name {name : Text} (hname : isName name = true) (hfree : name ∉ reserved) :
    read name = some ([name], none) := by
  have hcolon : ':' ∉ name := fun hc => absurd (isNameChar_of_mem_name hname ':' hc) (by decide)
  rw [read_eq_some_iff, splitMark_of_not_mem hcolon]
  exact ⟨name, [], [], splitPath_self hname, fun h => hfree h.2, rfl, rfl⟩

/-- A name under the mark refers to the caller's variable. -/
theorem read_marked {name : Text} (hname : isName name = true) :
    read (callerMark ++ name) = some ([callerMark ++ name], none) := by
  rw [read_eq_some_iff, splitMark_marked]
  exact ⟨name, [], [], splitPath_self hname, fun h => List.cons_ne_nil _ _ h.1, rfl, rfl⟩

/-- A name under the mark, with JSON text after it. -/
theorem read_marked_json {name s : Text} {j : Json} (hname : isName name = true)
    (hjson : Json.read (trim s) = some j) :
    read (callerMark ++ (name ++ ':' :: s)) = some ([callerMark ++ name], some (.ofJson j)) := by
  have hpath : splitPath (name ++ ':' :: s) = some ([name], ':' :: s) :=
    splitPath_name hname fun c hc => by cases hc; decide
  have hfallback : readFallback (':' :: s) = some (some (.ofJson j)) := by
    rw [readFallback, hjson]
    rfl
  rw [read_eq_some_iff, splitMark_marked]
  exact ⟨name, [], ':' :: s, hpath, fun h => List.cons_ne_nil _ _ h.1, hfallback, rfl⟩

theorem read_reserved {word rest : Text} (hword : word ∈ reserved)
    (hrest : ∀ c ∈ rest.head?, isNameChar c = false ∧ c ≠ '.') : read (word ++ rest) = none := by
  have hparts : isName word = true ∧ splitMark (word ++ rest) = ([], word ++ rest) := by
    simp only [reserved, List.mem_cons, List.not_mem_nil, or_false] at hword
    rcases hword with rfl | rfl | rfl
    all_goals exact ⟨by decide, rfl⟩
  obtain ⟨hname, hmark⟩ := hparts
  refine Option.eq_none_iff_forall_ne_some.mpr fun reference h => ?_
  obtain ⟨path, fallback⟩ := reference
  obtain ⟨head, names, rest', hpath, hfree, -⟩ := read_eq_some_iff.mp h
  rw [hmark] at hpath hfree
  cases (splitPath_name hname hrest).symm.trans hpath
  exact hfree ⟨rfl, hword⟩

end Reference

end MailMerge
