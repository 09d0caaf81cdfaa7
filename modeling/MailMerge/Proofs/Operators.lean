/-
  MailMerge.Proofs.Operators — where a text is cut at an operator.

  A `Place` is where the search stands with respect to quotations and parentheses, and it is free
  at `Place.start`: outside quotations, with no parenthesis open. At a free place the spelling that
  stands there is taken, and everywhere else the search goes on (`search_cons`).

  Proved: nothing is found exactly when no spelling stands at a free place (`search_eq_none_iff`);
  what is found stands at a free place, and no spelling at one before it (`search_eq_some`); and a
  text in which none does, also together with what follows it, is passed (`search_append`).
  Blanks around a text change nothing (`split?_padded`), so a text in which an operator is found is
  a comparison, trimmed or not (`Expr.read_of_split`).
-/

import Mathlib.Data.List.Find
import MailMerge.Proofs.Calls

namespace MailMerge

namespace Operator

open MailMerge.Expr (isSilent)

/-! ## Places -/

/-- Where a reader stands with respect to quotations, and how many parentheses are open there. -/
structure Place where
  quotes : Quotes
  depth : Nat
  deriving DecidableEq

namespace Place

/-- Outside quotations and parentheses, as before a text. -/
def start : Place := ⟨.outside, 0⟩

/-- The place after the character. A closing parenthesis without an opening one is passed over. -/
def next (p : Place) (c : Char) : Place where
  quotes := p.quotes.next c
  depth :=
    if p.quotes.covers c then p.depth else if c = '(' then p.depth + 1 else if c = ')' then p.depth - 1 else p.depth

/-- The place after the text. -/
def after (p : Place) (s : Text) : Place := s.foldl next p

@[simp] theorem after_nil (p : Place) : p.after [] = p := rfl

@[simp] theorem after_cons (p : Place) (c : Char) (s : Text) : p.after (c :: s) = (p.next c).after s := rfl

theorem after_append (p : Place) (s t : Text) : p.after (s ++ t) = (p.after s).after t := List.foldl_append

/-- Where nothing but quotations counts, the parentheses that are open stay open. -/
theorem after_of_passes {q q' : Quotes} {s : Text} (h : Passes (isSilent ·) q s q') (depth : Nat) :
    after ⟨q, depth⟩ s = ⟨q', depth⟩ := by
  induction h with
  | nil => rfl
  | @cons q q' c s hc _ ih =>
    have hnext : next ⟨q, depth⟩ c = ⟨q.next c, depth⟩ := by
      by_cases hcover : q.covers c = true
      · simp [next, hcover]
      · have hsilent := hc (Bool.eq_false_iff.mpr hcover)
        have hopen : c ≠ '(' := by rintro rfl; cases hsilent
        have hclose : c ≠ ')' := by rintro rfl; cases hsilent
        simp [next, hcover, hopen, hclose]
    rw [after_cons, hnext, ih]

end Place

/-! ## Spellings -/

theorem not_isSilent_of_mem_spelling {spelling : Text × Op} (h : spelling ∈ spellings) :
    ∀ c ∈ spelling.1, isSilent c = false := by
  have hloud : (spellings.all fun spelling => spelling.1.all fun c => !isSilent c) = true := by decide
  simp only [List.all_eq_true, Bool.not_eq_true'] at hloud
  exact hloud spelling h

/-- A text that begins with a silent character adds nothing to a spelling before it. -/
theorem at?_append (s : Text) {t : Text} (ht : ∀ c ∈ t.head?, isSilent c = true) : at? (s ++ t) = at? s := by
  refine List.find?_congr fun spelling hmem => ?_
  rw [Bool.eq_iff_iff, List.isPrefixOf_iff_prefix, List.isPrefixOf_iff_prefix]
  refine ⟨fun hprefix => ?_, fun hprefix => hprefix.trans (List.prefix_append s t)⟩
  rcases List.prefix_or_prefix_of_prefix hprefix (List.prefix_append s t) with h | ⟨u, hu⟩
  · exact h
  · rw [← hu, List.prefix_append_right_inj] at hprefix
    cases u with
    | nil => exact ⟨[], by simpa using hu.symm⟩
    | cons c u =>
      obtain ⟨v, rfl⟩ := hprefix
      have hloud := not_isSilent_of_mem_spelling hmem c (by rw [← hu]; simp)
      rw [ht c rfl] at hloud
      cases hloud

theorem at?_eq_none_iff {s : Text} : at? s = none ↔ ∀ spelling ∈ spellings, ¬ spelling.1 <+: s := by
  simp only [at?, List.find?_eq_none, List.isPrefixOf_iff_prefix]

theorem isPrefix_of_at? {s symbol : Text} {op : Op} (h : at? s = some (symbol, op)) : symbol <+: s :=
  ⟨_, (at?_spells h).2.symm⟩

/-- The longest spelling is found: any other that stands there is the beginning of it. -/
theorem longest_of_at? {s symbol : Text} {op : Op} (h : at? s = some (symbol, op)) {spelling : Text × Op}
    (hmem : spelling ∈ spellings) (hbegins : spelling.1 <+: s) : spelling.1 <+: symbol := by
  have hsorted : spellings.Pairwise fun earlier later => ¬ earlier.1 <+: later.1 := by decide
  obtain ⟨-, before, after, htable, hbefore⟩ := List.find?_eq_some_iff_append.mp h
  rw [htable] at hmem hsorted
  rcases List.mem_append.mp hmem with hmem | hmem
  · have hmissing := hbefore spelling hmem
    rw [List.isPrefixOf_iff_prefix.mpr hbegins] at hmissing
    cases hmissing
  · rcases List.mem_cons.mp hmem with rfl | hmem
    · exact List.prefix_rfl
    · -- Of two spellings at one place one begins the other, and here it is the later one.
      obtain ⟨-, hsorted, -⟩ := List.pairwise_append.mp hsorted
      have hlater : ¬ symbol <+: spelling.1 := List.rel_of_pairwise_cons hsorted hmem
      exact (List.prefix_or_prefix_of_prefix hbegins (isPrefix_of_at? h)).resolve_right hlater

/-- A spelling is found where it stands alone: none of the longer ones begins there. -/
theorem at?_of_mem {spelling : Text × Op} (h : spelling ∈ spellings) : at? spelling.1 = some spelling := by
  have hself : ∀ spelling ∈ spellings, at? spelling.1 = some spelling := by decide
  exact hself spelling h

/-! ## The search -/

/-- The search from a place on. -/
def search (p : Place) (s : Text) : Option Split := splitFrom? p.quotes p.depth s

/-- What is found, with a text before it. -/
def Split.behind (a : Text) (r : Split) : Split := { r with before := a ++ r.before }

@[simp] theorem search_nil (p : Place) : search p [] = none := rfl

theorem search_start (s : Text) : search .start s = split? s := rfl

/-- At a free place the spelling is taken that stands there; otherwise the search goes on. -/
theorem search_cons (p : Place) (c : Char) (s : Text) :
    search p (c :: s) =
      match if p = .start then at? (c :: s) else none with
      | some (symbol, op) => some ⟨[], symbol, op, (c :: s).drop symbol.length⟩
      | none => (search (p.next c) s).map (Split.behind [c]) := by
  obtain ⟨q, depth⟩ := p
  have free (h : at? (c :: s) = none) : (if Place.mk q depth = .start then at? (c :: s) else none) = none := by
    rw [h]
    exact ite_self none
  by_cases hcover : q.covers c = true
  · -- Inside a quotation the place is not free, and at the quote that begins one no spelling stands.
    have hnone : (if Place.mk q depth = .start then at? (c :: s) else none) = none := by
      by_cases hquote : c = '"'
      · subst hquote
        exact free rfl
      · refine if_neg fun hstart => hquote ?_
        cases hstart
        exact beq_iff_eq.mp hcover
    rw [hnone]
    simp only [search, splitFrom?, Place.next, hcover, if_true]
    rfl
  · have hq : q = .outside := by
      cases q with
      | outside => rfl
      | inside | escaped => exact absurd rfl hcover
    subst hq
    by_cases hopen : c = '('
    · subst hopen
      rw [free rfl]
      rfl
    · by_cases hclose : c = ')'
      · subst hclose
        rw [free rfl]
        rfl
      · by_cases hdepth : depth = 0
        · subst hdepth
          rw [if_pos (show Place.mk .outside 0 = .start from rfl)]
          simp only [search, splitFrom?, Place.next, hcover, hopen, hclose, if_true, if_false, Bool.false_eq_true]
          rfl
        · have hbusy : Place.mk .outside depth ≠ .start := fun hstart => hdepth (Place.mk.inj hstart).2
          rw [if_neg hbusy]
          simp only [search, splitFrom?, Place.next, hcover, hopen, hclose, hdepth, if_false, Bool.false_eq_true]
          rfl

/-- Nothing is found exactly when no spelling stands at a free place. -/
theorem search_eq_none_iff {p : Place} {s : Text} :
    search p s = none ↔ ∀ x c y, s = x ++ c :: y → p.after x = .start → at? (c :: y) = none := by
  induction s generalizing p with
  | nil => simp
  | cons d s ih =>
    rw [search_cons]
    constructor
    · intro h x c y hs hfree
      split at h
      · cases h
      · rename_i hhere
        rw [Option.map_eq_none_iff, ih] at h
        cases x with
        | nil =>
          cases hs
          rwa [if_pos (show p = .start from hfree)] at hhere
        | cons e x =>
          cases hs
          exact h x c y rfl hfree
    · intro h
      have hhere : (if p = .start then at? (d :: s) else none) = none := by
        split
        · rename_i hfree
          exact h [] d s rfl hfree
        · rfl
      rw [hhere]
      have hlater : search (p.next d) s = none := ih.mpr fun x c y hs hfree => h (d :: x) c y (by rw [hs]; rfl) hfree
      simp [hlater]

/-- What is found stands at a free place, and no spelling stands at a free place before it. -/
theorem search_eq_some {p : Place} {s : Text} {r : Split} (h : search p s = some r) :
    ∃ rest, s = r.before ++ rest ∧ p.after r.before = .start ∧ at? rest = some (r.symbol, r.op) ∧
      ∀ x c y, r.before = x ++ c :: y → p.after x = .start → at? (c :: (y ++ rest)) = none := by
  induction s generalizing p r with
  | nil => cases h
  | cons d s ih =>
    rw [search_cons] at h
    split at h
    · rename_i symbol op hhere
      cases h
      split at hhere
      · rename_i hfree
        exact ⟨d :: s, rfl, hfree, hhere, fun x c y hx => by simp at hx⟩
      · cases hhere
    · rename_i hhere
      obtain ⟨q, hq, rfl⟩ := Option.map_eq_some_iff.mp h
      obtain ⟨rest, rfl, hfree, hat, hpassed⟩ := ih hq
      refine ⟨rest, rfl, hfree, hat, fun x c y hx hplace => ?_⟩
      cases x with
      | nil =>
        cases hx
        rwa [if_pos (show p = .start from hplace)] at hhere
      | cons e x =>
        obtain ⟨rfl, hx'⟩ := List.cons.inj hx
        exact hpassed x c y hx' hplace

theorem split?_eq_none_iff {s : Text} : split? s = none ↔
    ∀ x y, s = x ++ y → Place.start.after x = .start → ∀ spelling ∈ spellings, ¬ spelling.1 <+: y := by
  rw [← search_start, search_eq_none_iff]
  constructor
  · intro h x y hs hfree
    cases y with
    | nil => exact at?_eq_none_iff.mp rfl
    | cons c y => exact at?_eq_none_iff.mp (h x c y hs hfree)
  · intro h x c y hs hfree
    exact at?_eq_none_iff.mpr (h x (c :: y) hs hfree)

/-- A text at whose free places no spelling begins, also with what follows the text, is passed. -/
theorem search_append {p : Place} {a b : Text}
    (h : ∀ x c y, a = x ++ c :: y → p.after x = .start → at? (c :: y ++ b) = none) :
    search p (a ++ b) = (search (p.after a) b).map (Split.behind a) := by
  induction a generalizing p with
  | nil =>
    cases hb : search p b with
    | none => simp [hb]
    | some r => simp [hb, Split.behind]
  | cons d a ih =>
    have hhere : (if p = .start then at? (d :: (a ++ b)) else none) = none := by
      split
      · rename_i hfree
        exact h [] d a rfl hfree
      · rfl
    have hlater := ih fun x c y ha hfree => h (d :: x) c y (by rw [ha]; rfl) hfree
    rw [List.cons_append, search_cons, hhere, hlater, Place.after_cons, Option.map_map]
    rfl

/-- A text without an operator is passed when what follows begins with a silent character. -/
theorem search_append_of_none {p : Place} {a b : Text} (ha : search p a = none)
    (hb : ∀ c ∈ b.head?, isSilent c = true) : search p (a ++ b) = (search (p.after a) b).map (Split.behind a) := by
  refine search_append fun x c y hx hfree => ?_
  rw [at?_append _ hb]
  exact search_eq_none_iff.mp ha x c y hx hfree

theorem search_silent {p : Place} {a : Text} (ha : ∀ c ∈ a, isSilent c = true) : search p a = none := by
  refine search_eq_none_iff.mpr fun x c y hx _ => Expr.at?_eq_none y (ha c ?_)
  rw [hx]
  simp

/-! ## Blanks around a text -/

theorem search_blanks_append {a : Text} (ha : Text.Blanks a) (s : Text) :
    search .start (a ++ s) = (search .start s).map (Split.behind a) := by
  have hpasses : Passes (isSilent ·) .outside a .outside := Expr.silent_of_blanks ha
  rw [search_append fun x c y hx _ => ?_, Place.start, Place.after_of_passes hpasses]
  exact Expr.at?_eq_none _ (Expr.isSilent_of_isBlank (ha c (by rw [hx]; simp)))

/-- Blanks at the end stay behind the operator. -/
theorem search_append_blanks {b : Text} (hb : Text.Blanks b) (p : Place) (s : Text) :
    search p (s ++ b) = (search p s).map fun r => { r with after := r.after ++ b } := by
  induction s generalizing p with
  | nil =>
    rw [List.nil_append, search_silent fun c hc => Expr.isSilent_of_isBlank (hb c hc)]
    rfl
  | cons c s ih =>
    have hat : at? (c :: (s ++ b)) = at? (c :: s) :=
      at?_append (c :: s) fun d hd => Expr.isSilent_of_isBlank (hb d (List.mem_of_head? hd))
    rw [List.cons_append, search_cons, search_cons, hat, ih]
    cases hhere : (if p = .start then at? (c :: s) else none) with
    | none =>
      simp only [Option.map_map]
      rfl
    | some spelling =>
      obtain ⟨symbol, op⟩ := spelling
      have hsome : at? (c :: s) = some (symbol, op) := by
        split at hhere
        · exact hhere
        · cases hhere
      have hlength : symbol.length ≤ (c :: s).length := by
        rw [(at?_spells hsome).2, List.length_append]
        exact Nat.le_add_right _ _
      have hdrop : (c :: (s ++ b)).drop symbol.length = (c :: s).drop symbol.length ++ b :=
        List.drop_append_of_le_length hlength
      simp only [Option.map_some, hdrop]

/-- Blanks around a text stay around what it is cut into. -/
theorem split?_padded {a b : Text} (s : Text) (ha : Text.Blanks a) (hb : Text.Blanks b) :
    split? (a ++ (s ++ b)) =
      (split? s).map fun r => { r with before := a ++ r.before, after := r.after ++ b } := by
  have hsearch : search .start (a ++ (s ++ b)) =
      ((search .start s).map fun r => { r with after := r.after ++ b }).map (Split.behind a) := by
    rw [search_blanks_append ha, search_append_blanks hb]
  rw [Option.map_map] at hsearch
  exact hsearch

end Operator

namespace Expr

theorem read_padded {a b : Text} (s : Text) (ha : Text.Blanks a) (hb : Text.Blanks b) :
    read (a ++ (s ++ b)) = read s := by
  rw [← read_trim, Text.trim_padded s ha hb, read_trim]

theorem read_blanks_append {a : Text} (ha : Text.Blanks a) (s : Text) : read (a ++ s) = read s := by
  have hpadded := read_padded s ha Text.blanks_nil
  rwa [List.append_nil] at hpadded

theorem read_append_blanks (s : Text) {b : Text} (hb : Text.Blanks b) : read (s ++ b) = read s :=
  read_padded s Text.blanks_nil hb

/-- A text in which an operator is found is a comparison of what stands before and after it. -/
theorem read_of_split {s : Text} {p : Operator.Split} (h : Operator.split? s = some p) :
    read s = .compare (Text.trim s) p.op (read p.before) (read p.after) := by
  obtain ⟨a, b, ha, hb, hs⟩ := Text.trim_split s
  rw [hs, Operator.split?_padded _ ha hb] at h
  obtain ⟨r, hr, rfl⟩ := Option.map_eq_some_iff.mp h
  rw [← read_trim, read_of_operator (Text.trimmed_trim s) hr, read_blanks_append ha, read_append_blanks _ hb]

end Expr

end MailMerge
