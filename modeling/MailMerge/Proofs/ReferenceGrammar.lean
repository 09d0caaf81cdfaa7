/-
  MailMerge.Proofs.ReferenceGrammar — which texts are references.

  `Reference.Reading` is the grammar: the mark of the caller's variables or no mark, names
  joined by points, and then nothing or a colon and JSON text. Without the mark the first name is
  not reserved.

  Proved: a path is taken off a text as far as it goes (`Reference.splitPath_eq_some_iff`), and
  what is read is what the grammar says (`Expr.read_eq_var_iff_reading`), but for one name: the
  mark itself is a name with a colon behind it, and wherever it stands at the front it is the mark.
  So the name `var` has no fallback (`Expr.mark_is_no_name`), and every other has any.
-/

import Mathlib.Data.List.Basic
import MailMerge.Proofs.Calls

namespace MailMerge

namespace Reference

open Text (isName isNameChar splitName trim)

/-- What may stand behind the path, and the value that it gives: nothing, or JSON text after a colon. -/
inductive Ending : Text → Option Value → Prop
  | none : Ending [] none
  | json {s : Text} {j : Json} : Json.read (trim s) = some j → Ending (':' :: s) (some (.ofJson j))

/-- The text is a reference under the mark or without one, to the first name and the fields after it. -/
structure Reading (s mark head : Text) (names : List Text) (fallback : Option Value) : Prop where
  marked : mark = callerMark ∨ mark = [] ∧ head ∉ reserved
  named : ∀ n ∈ head :: names, isName n = true
  written : ∃ rest, s = mark ++ (List.intercalate ['.'] (head :: names) ++ rest) ∧ Ending rest fallback

/-! ## Paths -/

theorem splitPath_cons {n s rest : Text} {names : List Text} (hn : isName n = true)
    (h : splitPath s = some (names, rest)) : splitPath (n ++ '.' :: s) = some (n :: names, rest) := by
  have hsplit : splitName (n ++ '.' :: s) = some (n, '.' :: s) :=
    Text.splitName_eq_some_iff.mpr ⟨rfl, hn, fun c hc => by cases hc; decide⟩
  rw [splitPath]
  split
  · rename_i hnone
    rw [hsplit] at hnone
    cases hnone
  · rename_i hsome
    rw [hsplit] at hsome
    cases hsome
    rw [h]
    rfl
  · rename_i hno hsome
    rw [hsplit] at hsome
    cases hsome
    exact absurd rfl (hno s)

theorem splitPath_intercalate {n rest : Text} {names : List Text} (hnames : ∀ m ∈ n :: names, isName m = true)
    (hrest : ∀ c ∈ rest.head?, isNameChar c = false ∧ c ≠ '.') :
    splitPath (List.intercalate ['.'] (n :: names) ++ rest) = some (n :: names, rest) := by
  induction names generalizing n with
  | nil => simpa using splitPath_name (hnames n List.mem_cons_self) hrest
  | cons m names ih =>
    obtain ⟨hn, hlater⟩ := List.forall_mem_cons.mp hnames
    simpa [List.intercalate] using splitPath_cons hn (ih hlater)

/-- A path is taken off the text as far as it goes. -/
theorem splitPath_eq_some_iff {s rest : Text} {names : List Text} :
    splitPath s = some (names, rest) ↔ names ≠ [] ∧ s = List.intercalate ['.'] names ++ rest ∧
      (∀ n ∈ names, isName n = true) ∧ ∀ c ∈ rest.head?, isNameChar c = false ∧ c ≠ '.' := by
  constructor
  · intro h
    fun_induction splitPath s generalizing names with
    | case1 => cases h
    | case2 s n rest' hn ih =>
      simp only [Option.map_eq_some_iff, Prod.exists, Prod.mk.injEq] at h
      obtain ⟨later, _, hlater, rfl, rfl⟩ := h
      obtain ⟨hne, rfl, hnames, hrest⟩ := ih hlater
      obtain ⟨rfl, hname, -⟩ := Text.splitName_eq_some_iff.mp hn
      obtain ⟨m, later, rfl⟩ := List.exists_cons_of_ne_nil hne
      exact ⟨List.cons_ne_nil _ _, by simp [List.intercalate], List.forall_mem_cons.mpr ⟨hname, hnames⟩, hrest⟩
    | case3 s n rest' hno hn =>
      cases h
      obtain ⟨rfl, hname, hstop⟩ := Text.splitName_eq_some_iff.mp hn
      refine ⟨List.cons_ne_nil _ _, by simp, by simpa using hname, fun c hc => ⟨hstop c hc, ?_⟩⟩
      rintro rfl
      obtain ⟨rest, rfl⟩ := List.head?_eq_some_iff.mp hc
      exact hno rest rfl
  · rintro ⟨hne, rfl, hnames, hrest⟩
    obtain ⟨n, names, rfl⟩ := List.exists_cons_of_ne_nil hne
    exact splitPath_intercalate hnames hrest

/-! ## References -/

theorem readFallback_eq_some_iff {rest : Text} {fallback : Option Value} :
    readFallback rest = some fallback ↔ Ending rest fallback := by
  constructor
  · intro h
    unfold readFallback at h
    split at h
    · cases h
      exact .none
    · simp only [Option.map_eq_some_iff] at h
      obtain ⟨j, hj, rfl⟩ := h
      exact .json hj
    · cases h
  · intro h
    cases h with
    | none => rfl
    | json hj => simp [readFallback, hj]

theorem Ending.stops {rest : Text} {fallback : Option Value} (h : Ending rest fallback) :
    ∀ c ∈ rest.head?, isNameChar c = false ∧ c ≠ '.' := by
  intro c hc
  cases h with
  | none => cases hc
  | json =>
    cases hc
    decide

section
variable {s mark head : Text} {names : List Text} {fallback : Option Value}

/-- Without the mark, a text that begins like one is the name `var` with a fallback. -/
theorem Reading.eq_var_of_prefix (h : Reading s [] head names fallback) (hmark : callerMark <+: s) :
    head :: names = ["var".toList] ∧ fallback ≠ none := by
  obtain ⟨rest, hs, hending⟩ := h.written
  obtain ⟨t, ht⟩ := hmark
  have hpath : splitPath s = some (head :: names, rest) := by
    rw [hs]
    exact splitPath_intercalate h.named hending.stops
  have hvar : splitPath s = some (["var".toList], ':' :: t) := by
    have hname : isName "var".toList = true := by decide
    rw [← ht]
    exact splitPath_name hname fun c hc => by cases hc; decide
  rw [hpath] at hvar
  cases hvar
  cases hending with
  | json => exact ⟨rfl, Option.some_ne_none _⟩

/-- A text is read as the grammar says, except that the name `var` has no fallback. -/
theorem read_iff_reading {path : List Text} :
    read s = some (path, fallback) ↔ ∃ mark head names, Reading s mark head names fallback ∧
      path = (mark ++ head) :: names ∧ (mark = [] → head :: names = ["var".toList] → fallback = none) := by
  rw [read_eq_some_iff]
  constructor
  · rintro ⟨head, names, rest, hpath, hfree, hfallback, rfl⟩
    obtain ⟨-, hs, hnames, -⟩ := splitPath_eq_some_iff.mp hpath
    have hending := readFallback_eq_some_iff.mp hfallback
    have happend := splitMark_append s
    rw [hs] at happend
    refine ⟨_, head, names, ⟨?_, hnames, rest, happend.symm, hending⟩, rfl, fun hmark hvar => ?_⟩
    · rcases mark_eq_or s with hmark | hmark
      · exact Or.inl hmark
      · exact Or.inr ⟨hmark, fun hreserved => hfree ⟨hmark, hreserved⟩⟩
    · cases hending with
      | none => rfl
      | @json t j _ =>
        -- The text would begin with the mark, and so would have been read under it.
        rw [hmark, hvar] at happend
        have hprefix : callerMark <+: s := ⟨t, happend⟩
        rw [splitMark, if_pos (List.isPrefixOf_iff_prefix.mpr hprefix)] at hmark
        cases hmark
  · rintro ⟨mark, head, names, h, rfl, hvar⟩
    obtain ⟨rest, hs, hending⟩ := h.written
    have hpath := splitPath_intercalate h.named hending.stops
    have hfallback := readFallback_eq_some_iff.mpr hending
    rcases h.marked with rfl | ⟨rfl, hfree⟩
    · rw [hs, splitMark_marked]
      exact ⟨head, names, rest, hpath, fun hfree => List.cons_ne_nil _ _ hfree.1, hfallback, rfl⟩
    · have hmark : splitMark s = ([], s) := by
        refine if_neg fun hmark => ?_
        obtain ⟨heq, hsome⟩ := h.eq_var_of_prefix (List.isPrefixOf_iff_prefix.mp hmark)
        exact hsome (hvar rfl heq)
      rw [hmark]
      exact ⟨head, names, rest, by rw [hs]; exact hpath, fun hreserved => hfree hreserved.2, hfallback, rfl⟩

end

end Reference

/-! ## Expressions -/

namespace Expr

open Reference (Reading reserved)

theorem read_eq_var_iff {s source : Text} {path : List Text} {fallback : Option Value} :
    read s = .var source path fallback ↔ source = Text.trim s ∧ Reference.read (Text.trim s) = some (path, fallback) := by
  constructor
  · intro h
    rw [read] at h
    split at h
    · cases h
    · split at h
      · rename_i hreference
        cases h
        exact ⟨rfl, hreference⟩
      · split at h
        · cases h
        · split at h <;> cases h
  · rintro ⟨rfl, h⟩
    rw [← read_trim, read_of_reference (Text.trimmed_trim s) h]

/-- A text is a reference exactly when it has a reading in which the name `var` has no fallback, and
    this reading gives its path and its fallback. Every name that is neither reserved nor `var` may
    have any JSON text as its fallback. -/
theorem read_eq_var_iff_reading (s : Text) :
    (∀ source path fallback, read s = .var source path fallback ↔
      source = Text.trim s ∧ ∃ mark head names, Reading (Text.trim s) mark head names fallback ∧
        path = (mark ++ head) :: names ∧ (mark = [] → head :: names = ["var".toList] → fallback = none)) ∧
    ∀ x j, Text.isName x = true → x ∉ reserved → x ≠ "var".toList → Json.read (Text.trim s) = some j →
      ∃ source, read (x ++ ':' :: s) = .var source [x] (some (.ofJson j)) := by
  refine ⟨fun source path fallback => ?_, fun x j hx hfree hvar hj => ?_⟩
  · rw [read_eq_var_iff, Reference.read_iff_reading]
  · have hcolon : Text.Trimmed (x ++ [':']) :=
      Text.trimmed_append (Text.name_ne_nil hx) (List.cons_ne_nil _ _) (Text.trimmed_of_isName hx).start
        fun c hc => by cases hc; decide
    obtain ⟨t, htrim, ht⟩ := Text.exists_trim_append hcolon (by simp) s
    have hs : Text.trim (x ++ ':' :: s) = x ++ ':' :: t := by simpa using htrim
    have hreading : Reading (x ++ ':' :: t) [] x [] (some (.ofJson j)) :=
      ⟨Or.inr ⟨rfl, hfree⟩, by simpa using hx, ':' :: t, by simp, .json (by rw [ht]; exact hj)⟩
    refine ⟨_, read_eq_var_iff.mpr ⟨rfl, ?_⟩⟩
    rw [hs, Reference.read_iff_reading]
    exact ⟨[], x, [], hreading, rfl, fun _ heq => absurd (List.cons.inj heq).1 hvar⟩

theorem json_five : Json.read (Text.trim "5".toList) = some (.number (.nat 5)) := by
  obtain ⟨nested?, hrun⟩ := value_run Json.maxDepth
  rw [Json.read, hrun]
  rfl

/-- The name `var` as a first name, and a name that begins with a reserved word, with a fallback. -/
theorem read_eq_var_iff_reading_bare :
    read "var.x:5".toList = .var "var.x:5".toList ["var".toList, "x".toList] (some (.int 5)) ∧
      ∃ source, read ("nulls".toList ++ ':' :: "5".toList) = .var source ["nulls".toList] (some (.int 5)) := by
  have hreading : Reading (Text.trim "var.x:5".toList) [] "var".toList ["x".toList] (some (.int 5)) :=
    ⟨Or.inr ⟨rfl, by decide⟩, by decide, ":5".toList, by decide, .json json_five⟩
  refine ⟨((read_eq_var_iff_reading _).1 _ _ _).mpr ?_, (read_eq_var_iff_reading _).2 _ _ ?_ ?_ ?_ json_five⟩
  · exact ⟨by decide, [], "var".toList, ["x".toList], hreading, rfl, fun _ heq => absurd heq (by decide)⟩
  · decide
  · decide
  · decide

/-- The grammar has the name `var` with a fallback, but what stands there is the mark, and no name follows it. -/
theorem mark_is_no_name :
    Reading (Text.trim "var:5".toList) [] "var".toList [] (some (.int 5)) ∧
      ∀ source path fallback, read "var:5".toList ≠ .var source path fallback := by
  refine ⟨⟨Or.inr ⟨rfl, by decide⟩, by decide, ":5".toList, by decide, .json json_five⟩, fun source path fallback h => ?_⟩
  have hnone : Reference.read (Text.trim "var:5".toList) = none := by cbv
  rw [(read_eq_var_iff.mp h).2] at hnone
  cases hnone

end Expr

end MailMerge
