/-
  MailMerge.Expr.Operator — finding the operator of a comparison.

  There are nine spellings of the six operators, and at one place the longest spelling
  counts. A place is free when it is outside quotations and parentheses; a closing
  parenthesis without an opening one is passed over. `find?` gives the byte of the first free
  place where an operator is spelled, and `split?` cuts a text there.

  - `split?_eq_some`: what the cut leaves, with the spelling between, is the text.
  - `find?_eq_map_split?`: the byte is the size of what stands before the cut.
-/

import MailMerge.Expr.Basic
import MailMerge.Expr.Quotes
import MailMerge.Text.Extent

namespace MailMerge.Operator

/-- The spellings, a longer one before a shorter one that it begins with. -/
def spellings : List (Text × Op) :=
  [("===".toList, .eq), ("==".toList, .eq), ("!=".toList, .ne), ("<>".toList, .ne), ("<=".toList, .le),
   (">=".toList, .ge), ("=".toList, .eq), ("<".toList, .lt), (">".toList, .gt)]

/-- The operator spelled at the very front of the text. -/
def at? (s : Text) : Option (Text × Op) := spellings.find? fun spelling => spelling.1.isPrefixOf s

/-- A text cut at an operator. -/
structure Split where
  before : Text
  symbol : Text
  op : Op
  after : Text
  deriving DecidableEq, Repr

/-- Cuts the text at its first operator, given where it stands in quotations and how many
    parentheses are open. -/
def splitFrom? (quotes : Quotes) (depth : Nat) : Text → Option Split
  | [] => none
  | c :: s =>
    let later (depth : Nat) := (splitFrom? (quotes.next c) depth s).map fun p => { p with before := c :: p.before }
    if quotes.covers c then later depth
    else if c = '(' then later (depth + 1)
    else if c = ')' then later (depth - 1)
    else if depth = 0 then
      match at? (c :: s) with
      | some (symbol, op) => some ⟨[], symbol, op, (c :: s).drop symbol.length⟩
      | none => later depth
    else later depth

/-- Cuts the text at its first operator outside quotations and parentheses. -/
def split? (s : Text) : Option Split := splitFrom? .outside 0 s

/-- The byte at which the first operator begins, and how it is spelled, when the text begins at byte
    `place`. -/
def findFrom? (quotes : Quotes) (depth place : Nat) : Text → Option (Nat × Text × Op)
  | [] => none
  | c :: s =>
    let later (depth : Nat) := findFrom? (quotes.next c) depth (place + c.utf8Size) s
    if quotes.covers c then later depth
    else if c = '(' then later (depth + 1)
    else if c = ')' then later (depth - 1)
    else if depth = 0 then
      match at? (c :: s) with
      | some spelling => some (place, spelling)
      | none => later depth
    else later depth

/-- The byte at which the first operator outside quotations and parentheses begins, and how it is
    spelled. -/
def find? (s : Text) : Option (Nat × Text × Op) := findFrom? .outside 0 0 s

theorem at?_spells {s symbol : Text} {op : Op} (h : at? s = some (symbol, op)) :
    symbol ≠ [] ∧ s = symbol ++ s.drop symbol.length := by
  have hmem := List.mem_of_find?_eq_some h
  have hpre := List.find?_some h
  refine ⟨?_, ?_⟩
  · rintro rfl
    simp [spellings] at hmem
  · obtain ⟨t, rfl⟩ := List.isPrefixOf_iff_prefix.mp hpre
    simp

theorem splitFrom?_eq_some {quotes : Quotes} {depth : Nat} {s : Text} {p : Split}
    (h : splitFrom? quotes depth s = some p) : s = p.before ++ p.symbol ++ p.after ∧ p.symbol ≠ [] := by
  induction s generalizing quotes depth p with
  | nil => cases h
  | cons c s ih =>
    have later {depth : Nat} (hl : (splitFrom? (quotes.next c) depth s).map (fun p => { p with before := c :: p.before }) =
        some p) : c :: s = p.before ++ p.symbol ++ p.after ∧ p.symbol ≠ [] := by
      simp only [Option.map_eq_some_iff] at hl
      obtain ⟨q, hq, rfl⟩ := hl
      obtain ⟨h₁, h₂⟩ := ih hq
      exact ⟨by simp [h₁], h₂⟩
    simp only [splitFrom?] at h
    split at h
    · exact later h
    · split at h
      · exact later h
      · split at h
        · exact later h
        · split at h
          · split at h
            · rename_i hat
              cases h
              exact ⟨(at?_spells hat).2, (at?_spells hat).1⟩
            · exact later h
          · exact later h

theorem split?_eq_some {s : Text} {p : Split} (h : split? s = some p) :
    s = p.before ++ p.symbol ++ p.after ∧ p.symbol ≠ [] := splitFrom?_eq_some h

theorem findFrom?_eq (quotes : Quotes) (depth place : Nat) (s : Text) :
    findFrom? quotes depth place s =
      (splitFrom? quotes depth s).map fun p => (place + Text.bytes p.before, p.symbol, p.op) := by
  induction s generalizing quotes depth place with
  | nil => rfl
  | cons c s ih =>
    have later (depth : Nat) : findFrom? (quotes.next c) depth (place + c.utf8Size) s =
        ((splitFrom? (quotes.next c) depth s).map fun p => { p with before := c :: p.before }).map
          fun p => (place + Text.bytes p.before, p.symbol, p.op) := by
      rw [ih, Option.map_map]
      simp only [Function.comp_def, Text.bytes_cons, Nat.add_assoc]
    simp only [findFrom?, splitFrom?, later]
    split
    · rfl
    · split
      · rfl
      · split
        · rfl
        · split
          · cases at? (c :: s) with
            | none => rfl
            | some spelling => rfl
          · rfl

/-- The first operator begins behind what stands before the cut. -/
theorem find?_eq_map_split? (s : Text) :
    find? s = (split? s).map fun p => (Text.bytes p.before, p.symbol, p.op) := by
  simp only [find?, split?, findFrom?_eq, Nat.zero_add]

theorem split?_shorter {s : Text} {p : Split} (h : split? s = some p) :
    p.before.length < s.length ∧ p.after.length < s.length := by
  obtain ⟨h₁, h₂⟩ := split?_eq_some h
  have := List.length_pos_iff.mpr h₂
  have := congrArg List.length h₁
  simp only [List.length_append] at this
  omega

end MailMerge.Operator
