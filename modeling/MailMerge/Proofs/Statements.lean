/-
  MailMerge.Proofs.Statements — the grammar of statement tags.

  A tag says a keyword, which ends at the first blank or at the end of the tag, and after it an
  operand without blanks around it (`Statement.Says`). The operand of a loop is a name, the word
  `in`, and the collection, with blanks between (`Statement.Header`).

  Proved: `Statement.read` finds each statement exactly when the tag says its keyword and operand
  (`read_eq_iff`), and `loopHeader` takes apart exactly the headers (`loopHeader_eq_ok_iff`).
-/

import MailMerge.Proofs.Words
import MailMerge.Tree.Statement

namespace MailMerge.Statement

open Text (isBlank Blanks Trimmed)

/-- The tag with this text inside says the keyword, with this operand. -/
def Says (inner keyword operand : Text) : Prop :=
  (∀ c ∈ keyword, isBlank c = false) ∧
    ∃ tail, Text.trim inner = keyword ++ tail ∧ (∀ c ∈ tail.head?, isBlank c = true) ∧ operand = Text.trim tail

/-- What follows `for`: a name, the word `in`, and the text of the collection. -/
def Header (header item collection : Text) : Prop :=
  Text.isName item = true ∧ collection ≠ [] ∧ Trimmed collection ∧
    ∃ gap gap', gap ≠ [] ∧ Blanks gap ∧ gap' ≠ [] ∧ Blanks gap' ∧
      header = item ++ (gap ++ ("in".toList ++ (gap' ++ collection)))

/-! ## Keywords -/

theorem says_iff {inner keyword operand : Text} :
    Says inner keyword operand ↔
      Text.word (Text.trim inner) = keyword ∧ Text.trim (Text.afterWord (Text.trim inner)) = operand := by
  constructor
  · intro h
    obtain ⟨hk, tail, htail, hhead, rfl⟩ := h
    rw [htail, Text.word_append hk hhead, Text.afterWord_append hk hhead]
    exact ⟨rfl, rfl⟩
  · intro h
    obtain ⟨rfl, rfl⟩ := h
    refine ⟨fun c hc => Text.isBlank_of_mem_word hc, _, (Text.word_append_afterWord _).symm, ?_, rfl⟩
    exact fun c hc => Text.isBlank_of_head?_afterWord hc

theorem Says.trimmed {inner keyword operand : Text} (h : Says inner keyword operand) : Trimmed operand := by
  obtain ⟨-, tail, -, -, rfl⟩ := h
  exact Text.trimmed_trim tail

/-- The keyword and the operand of each statement that has a rule. -/
inductive Spelled : Statement → Text → Text → Prop
  | opensCond (condition : Text) : Spelled (.opensCond condition) "if".toList condition
  | opensLoop (header : Text) : Spelled (.opensLoop header) "for".toList header
  | otherwise (rest : Text) : Spelled (.otherwise rest) "else".toList rest
  | otherwiseIf (condition : Text) : Spelled (.otherwiseIf condition) "elseif".toList condition
  | closes (block : Text) : Spelled (.closes ("end".toList ++ block)) ("end".toList ++ block) []

/-- What `read` finds, by keyword. -/
theorem read_cases (body : Text) :
    Spelled (read body) (Text.word body) (Text.trim (Text.afterWord body)) ∨ read body = .unknown := by
  unfold read
  simp only
  split
  · rename_i h
    rw [h]
    exact Or.inl (.opensCond _)
  split
  · rename_i h
    rw [h]
    exact Or.inl (.opensLoop _)
  split
  · rename_i h
    rw [h]
    exact Or.inl (.otherwise _)
  split
  · rename_i h
    rw [h]
    exact Or.inl (.otherwiseIf _)
  split
  · rename_i h
    rw [Bool.and_eq_true, List.isEmpty_iff, List.isPrefixOf_iff_prefix] at h
    obtain ⟨⟨block, hblock⟩, hrest⟩ := h
    rw [hrest, ← hblock]
    exact Or.inl (.closes block)
  · exact Or.inr rfl

/-- The statement determines what its tag says. -/
theorem Spelled.unique {s : Statement} {keyword keyword' operand operand' : Text} (h : Spelled s keyword operand)
    (h' : Spelled s keyword' operand') : keyword = keyword' ∧ operand = operand' := by
  generalize hs : s = s' at h'
  cases h <;> cases h' <;> cases hs <;> exact ⟨rfl, rfl⟩

theorem read_of_spelled {body : Text} {s : Statement} (h : Spelled s (Text.word body) (Text.trim (Text.afterWord body))) :
    read body = s := by
  generalize hk : Text.word body = k at h
  generalize ho : Text.trim (Text.afterWord body) = o at h
  cases h <;> simp [read, hk, ho]

/-- A statement is found exactly when the tag says its keyword and its operand. -/
theorem read_eq_iff {inner keyword operand : Text} {s : Statement} (h : Spelled s keyword operand) :
    read (Text.trim inner) = s ↔ Says inner keyword operand := by
  rw [says_iff]
  constructor
  · intro heq
    subst heq
    rcases read_cases (Text.trim inner) with h' | h'
    · exact h'.unique h
    · rw [h'] at h
      cases h
  · intro hparts
    obtain ⟨rfl, rfl⟩ := hparts
    exact read_of_spelled h

/-! ## Headers -/

theorem afterIn?_eq_some_iff {s collection : Text} :
    afterIn? s = some collection ↔
      ∃ gap c rest, Blanks gap ∧ isBlank c = true ∧ s = gap ++ ("in".toList ++ c :: rest) ∧
        collection = Text.trim rest := by
  constructor
  · intro h
    obtain ⟨gap, hgap, hs⟩ := Text.trimStart_split s
    unfold afterIn? at h
    split at h
    · rename_i c rest htrim
      split at h
      · rename_i hc
        cases h
        exact ⟨gap, c, rest, hgap, hc, by rw [htrim] at hs; exact hs, rfl⟩
      · cases h
    · cases h
  · intro h
    obtain ⟨gap, c, rest, hgap, hc, rfl, rfl⟩ := h
    have htrim : Text.trimStart (gap ++ ("in".toList ++ c :: rest)) = 'i' :: 'n' :: c :: rest := by
      rw [Text.trimStart_append _ hgap]
      refine Text.trimStart_self fun d hd => ?_
      cases hd
      decide
    rw [afterIn?, htrim]
    exact if_pos hc

theorem loopHeader_parts {body header item collection : Text} :
    loopHeader body header = .ok (item, collection) ↔
      item = Text.word header ∧ Text.isName item = true ∧ collection ≠ [] ∧
        afterIn? (Text.afterWord header) = some collection := by
  unfold loopHeader
  simp only
  split
  · rename_i h
    simp [h]
  · rename_i h
    simp only [h, reduceCtorEq, Option.some.injEq, false_iff]
    intro h
    obtain ⟨-, -, hne, rfl⟩ := h
    exact hne rfl
  · rename_i collection' hne h
    rw [h]
    by_cases hname : Text.isName (Text.word header) = true
    · simp only [hname, if_true, Except.ok.injEq, Prod.mk.injEq, Option.some.injEq]
      constructor
      · intro h
        obtain ⟨rfl, rfl⟩ := h
        exact ⟨rfl, hname, hne, rfl⟩
      · intro h
        obtain ⟨rfl, -, -, rfl⟩ := h
        exact ⟨rfl, rfl⟩
    · simp only [hname, Bool.false_eq_true, if_false, reduceCtorEq, false_iff]
      intro h
      obtain ⟨rfl, hname', -⟩ := h
      exact hname hname'

/-- Of a header without blanks at its end, the parts are the name and the collection. -/
theorem loopHeader_eq_ok_iff {body header item collection : Text} (ht : Trimmed header) :
    loopHeader body header = .ok (item, collection) ↔ Header header item collection := by
  rw [loopHeader_parts, afterIn?_eq_some_iff]
  constructor
  · intro h
    obtain ⟨rfl, hname, hne, gap, c, rest, hgap, hc, hafter, rfl⟩ := h
    have hheader := Text.word_append_afterWord header
    obtain ⟨a, b, ha, hb, hrest⟩ := Text.trim_split rest
    have hgapne : gap ≠ [] := by
      intro heq
      subst heq
      have := Text.isBlank_of_head?_afterWord (s := header) (c := 'i') (by rw [hafter]; rfl)
      exact absurd this (by decide)
    -- Blanks after the collection would be blanks at the end of the header.
    have hparts : header = Text.word header ++ (gap ++ ("in".toList ++ (c :: a ++ Text.trim rest))) ++ b := by
      calc header = Text.word header ++ (gap ++ ("in".toList ++ c :: rest)) := by rw [← hafter, hheader]
        _ = Text.word header ++ (gap ++ ("in".toList ++ c :: (a ++ (Text.trim rest ++ b)))) :=
          congrArg (fun r => Text.word header ++ (gap ++ ("in".toList ++ c :: r))) hrest
        _ = _ := by simp
    obtain rfl : b = [] := Text.eq_nil_of_blanks (hparts ▸ ht) hb
    refine ⟨hname, hne, Text.trimmed_trim rest, gap, c :: a, hgapne, hgap, List.cons_ne_nil c a, ?_, ?_⟩
    · exact List.forall_mem_cons.mpr ⟨hc, ha⟩
    · rwa [List.append_nil] at hparts
  · intro h
    obtain ⟨hname, hne, hcoll, gap, gap', hgapne, hgap, hgapne', hgap', rfl⟩ := h
    obtain ⟨c, a, rfl⟩ := List.exists_cons_of_ne_nil hgapne'
    obtain ⟨hc, ha⟩ := List.forall_mem_cons.mp hgap'
    have hitem := Text.isBlank_of_mem_name hname
    have htail : ∀ d ∈ (gap ++ ("in".toList ++ (c :: a ++ collection))).head?, isBlank d = true := by
      obtain ⟨g, gap, rfl⟩ := List.exists_cons_of_ne_nil hgapne
      intro d hd
      cases hd
      exact hgap _ (List.mem_cons_self ..)
    refine ⟨(Text.word_append hitem htail).symm, hname, hne, gap, c, a ++ collection, hgap, hc, ?_, ?_⟩
    · rw [Text.afterWord_append hitem htail]
      rfl
    · exact (Text.trim_blanks_append ha hcoll).symm

end MailMerge.Statement
