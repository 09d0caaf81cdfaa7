/-
  MailMerge.Proofs.Parentheses — texts whose parentheses match.

  `Balanced` is the grammar of these texts: characters that are neither quotes nor parentheses,
  quotations, and balanced texts in parentheses, in any order. So outside quotations a closing
  parenthesis always closes one before it, every parenthesis is closed, and no quotation is left
  open.

  Proved: the search for the closing parenthesis of a call stops behind a balanced text
  (`closing?_append`), and what it has passed is one (`closes_of_closing?`). Both together are
  `closing?_eq_some_iff`, by which it can be decided whether a text is balanced.
-/

import MailMerge.Expr.Call

namespace MailMerge

/-- What may stand between two quotes: any character after a backslash, and otherwise neither
    quotes nor backslashes. -/
inductive Quoted : Text → Prop
  | nil : Quoted []
  | plain {c : Char} {s : Text} : c ≠ '"' → c ≠ '\\' → Quoted s → Quoted (c :: s)
  | escaped {c : Char} {s : Text} : Quoted s → Quoted ('\\' :: c :: s)

inductive Balanced : Text → Prop
  | nil : Balanced []
  | plain {c : Char} {s : Text} : c ≠ '"' → c ≠ '(' → c ≠ ')' → Balanced s → Balanced (c :: s)
  | quotation {q s : Text} : Quoted q → Balanced s → Balanced ('"' :: q ++ '"' :: s)
  | parentheses {a s : Text} : Balanced a → Balanced s → Balanced ('(' :: a ++ ')' :: s)

theorem Balanced.append {a b : Text} (ha : Balanced a) (hb : Balanced b) : Balanced (a ++ b) := by
  induction ha with
  | nil => exact hb
  | plain hquote hopen hclose _ ih => exact .plain hquote hopen hclose ih
  | quotation hq _ ih =>
    rw [List.append_assoc]
    exact .quotation hq ih
  | parentheses ha _ _ ih =>
    rw [List.append_assoc]
    exact .parentheses ha ih

/-! ## Balanced texts are passed -/

namespace Call

section
variable {depth : Nat} {s inner rest : Text}

theorem closing?_quoted {q : Text} (hq : Quoted q) (h : closing? .outside depth s = some (inner, rest)) :
    closing? .inside depth (q ++ '"' :: s) = some (q ++ '"' :: inner, rest) := by
  induction hq with
  | nil => simp [closing?, Quotes.covers, Quotes.next, h]
  | plain hquote hslash _ ih => simp [closing?, Quotes.covers, Quotes.next, hquote, hslash, ih]
  | escaped _ ih => simp [closing?, Quotes.covers, Quotes.next, ih]

/-- The search passes a balanced text, however many parentheses are open before it. -/
theorem closing?_append {a : Text} (ha : Balanced a) (h : closing? .outside depth s = some (inner, rest)) :
    closing? .outside depth (a ++ s) = some (a ++ inner, rest) := by
  induction ha generalizing depth s inner with
  | nil => exact h
  | plain hquote hopen hclose _ ih =>
    simp [closing?, Quotes.covers, Quotes.next, hquote, hopen, hclose, ih h]
  | quotation hq _ ih =>
    have hquotation := closing?_quoted hq (ih h)
    simp [closing?, Quotes.covers, Quotes.next, hquotation]
  | @parentheses a b _ _ iha ihb =>
    have hclose : closing? .outside (depth + 1) (')' :: (b ++ s)) = some (')' :: (b ++ inner), rest) := by
      simp [closing?, Quotes.covers, Quotes.next, ihb h]
    simp [closing?, Quotes.covers, Quotes.next, iha hclose]

end

/-! ## What is passed is balanced -/

/-- A text that closes so many parentheses of those before it, and is balanced but for these. -/
inductive Closes : Nat → Text → Prop
  | balanced {s : Text} : Balanced s → Closes 0 s
  | close {depth : Nat} {a s : Text} : Balanced a → Closes depth s → Closes (depth + 1) (a ++ ')' :: s)

theorem Closes.after {depth : Nat} {a s : Text} (ha : Balanced a) (h : Closes depth s) : Closes depth (a ++ s) := by
  cases h with
  | balanced hs => exact .balanced (ha.append hs)
  | close hb hs =>
    rw [← List.append_assoc]
    exact .close (ha.append hb) hs

/-- An opening parenthesis before such a text is one more that it closes. -/
theorem Closes.opened {depth : Nat} {s : Text} (h : Closes (depth + 1) s) : Closes depth ('(' :: s) := by
  cases h with
  | close ha hs =>
    have hparentheses := Balanced.parentheses ha .nil
    simpa using hs.after hparentheses

/-- A text that goes on to the end of the quotation in which the reader stands. -/
inductive Finishes : Quotes → Text → Prop
  | outside : Finishes .outside []
  | inside {q : Text} : Quoted q → Finishes .inside (q ++ ['"'])
  | escaped {c : Char} {q : Text} : Quoted q → Finishes .escaped (c :: (q ++ ['"']))

theorem Finishes.cons {q : Quotes} {c : Char} {t : Text} (hq : q ≠ .outside) (h : Finishes (q.next c) t) :
    Finishes q (c :: t) := by
  cases q with
  | outside => exact absurd rfl hq
  | escaped =>
    cases h with
    | inside hq => exact .escaped hq
  | inside =>
    by_cases hslash : c = '\\'
    · subst hslash
      cases h with
      | escaped hq => exact .inside (.escaped hq)
    · by_cases hquote : c = '"'
      · subst hquote
        cases h with
        | outside => exact .inside .nil
      · have hnext : Quotes.next .inside c = .inside := by simp [Quotes.next, hslash, hquote]
        rw [hnext] at h
        cases h with
        | inside hq => exact .inside (.plain hquote hslash hq)

/-- What the search passes ends the quotation in which it begins, and then closes the parentheses
    that are open. -/
theorem closes_of_closing? {q : Quotes} {depth : Nat} {s inner rest : Text}
    (h : closing? q depth s = some (inner, rest)) : ∃ t u, inner = t ++ u ∧ Finishes q t ∧ Closes depth u := by
  induction s generalizing q depth inner with
  | nil => cases h
  | cons c s ih =>
    have later {depth : Nat} (hl : (closing? (q.next c) depth s).map (fun cut => (c :: cut.1, cut.2)) =
        some (inner, rest)) : ∃ t u, inner = c :: (t ++ u) ∧ Finishes (q.next c) t ∧ Closes depth u := by
      simp only [Option.map_eq_some_iff, Prod.exists, Prod.mk.injEq] at hl
      obtain ⟨inner', _, hl, rfl, rfl⟩ := hl
      obtain ⟨t, u, rfl, ht, hu⟩ := ih hl
      exact ⟨t, u, rfl, ht, hu⟩
    simp only [closing?] at h
    by_cases hq : q = .outside
    · subst hq
      by_cases hquote : c = '"'
      · -- A quotation begins; with its end it is a balanced text.
        subst hquote
        obtain ⟨t, u, rfl, ht, hu⟩ := later h
        cases ht with
        | inside hq =>
          have hquotation := Balanced.quotation hq .nil
          exact ⟨[], _, rfl, .outside, hu.after hquotation⟩
      · have hnext : Quotes.next .outside c = .outside := if_neg hquote
        have hbare : Quotes.covers .outside c = false := by simp [Quotes.covers, hquote]
        have bare {depth : Nat} (hl : (closing? (Quotes.next .outside c) depth s).map (fun cut =>
            (c :: cut.1, cut.2)) = some (inner, rest)) : ∃ u, inner = c :: u ∧ Closes depth u := by
          obtain ⟨t, u, rfl, ht, hu⟩ := later hl
          rw [hnext] at ht
          cases ht
          exact ⟨u, rfl, hu⟩
        simp only [hbare, Bool.false_eq_true, if_false] at h
        split at h
        · rename_i hopen
          subst hopen
          obtain ⟨u, rfl, hu⟩ := bare h
          exact ⟨[], _, rfl, .outside, hu.opened⟩
        · rename_i hopen
          split at h
          · rename_i hclose
            subst hclose
            split at h
            · cases h
              exact ⟨[], [], rfl, .outside, .balanced .nil⟩
            · obtain ⟨u, rfl, hu⟩ := bare h
              exact ⟨[], _, rfl, .outside, .close .nil hu⟩
          · rename_i hclose
            obtain ⟨u, rfl, hu⟩ := bare h
            have hplain : Balanced [c] := .plain hquote hopen hclose .nil
            exact ⟨[], _, rfl, .outside, hu.after hplain⟩
    · have hcover : q.covers c = true := by
        cases q with
        | outside => exact absurd rfl hq
        | inside | escaped => rfl
      rw [if_pos hcover] at h
      obtain ⟨t, u, rfl, ht, hu⟩ := later h
      exact ⟨c :: t, u, rfl, ht.cons hq, hu⟩

/-- The closing parenthesis is the one behind the balanced text. -/
theorem closing?_eq_some_iff {s inner rest : Text} :
    closing? .outside 0 s = some (inner, rest) ↔ s = inner ++ ')' :: rest ∧ Balanced inner := by
  constructor
  · intro h
    obtain ⟨t, u, hinner, ht, hu⟩ := closes_of_closing? h
    cases ht
    cases hu with
    | balanced hu => exact ⟨closing?_eq_some h, hinner ▸ hu⟩
  · rintro ⟨rfl, hinner⟩
    have hend : closing? .outside 0 (')' :: rest) = some ([], rest) := by simp [closing?, Quotes.covers]
    simpa using closing?_append hinner hend

end Call

instance (s : Text) : Decidable (Balanced s) :=
  decidable_of_iff (Call.closing? .outside 0 (s ++ [')']) = some (s, [])) <| by
    rw [Call.closing?_eq_some_iff]
    exact and_iff_right rfl

example : Balanced "F(x:\")\") <= (y)".toList ∧ ¬ Balanced ")(".toList ∧ ¬ Balanced "\"(\\\")".toList := by decide

end MailMerge
