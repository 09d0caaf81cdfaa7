/-
  MailMerge.Proofs.FirstOperator — which operator is found, by bytes.

  A byte of a text is free when the reader that comes to it from the front stands outside quotations
  and parentheses (`FreeAt`). The first operator stands at the least free byte at which an operator is
  spelled, in its longest spelling there (`First`); a text has one at most (`First.unique`).

  Proved:
  - `first_of_split?`, `slices_of_split?`: where a text is cut, its first operator stands, and the two
    parts are shorter slices of the text.
  - `finds_first_longest`: the search gives the first operator, and nothing exactly when there is none;
    and what stands before and after it are shorter slices, into which the text is cut.
-/

import MailMerge.Proofs.Matching
import MailMerge.Proofs.Operators

namespace MailMerge

namespace Operator

/-! ## The first operator -/

/-- Byte `i` is a boundary of characters, and a reader of what comes before it stands outside quotations
    and parentheses there. -/
def FreeAt (s : Text) (i : Nat) : Prop := ∃ x, Text.Slice s 0 i x ∧ Place.start.after x = .start

/-- An operator is spelled so from byte `i` on. -/
def SpelledAt (s : Text) (i : Nat) (spelling : Text × Op) : Prop :=
  spelling ∈ spellings ∧ Text.Slice s i (i + Text.bytes spelling.1) spelling.1

/-- The first operator stands at byte `i`, and this is its longest spelling. -/
structure First (s : Text) (i : Nat) (spelling : Text × Op) : Prop where
  free : FreeAt s i
  spelled : SpelledAt s i spelling
  longest : ∀ other, SpelledAt s i other → Text.bytes other.1 ≤ Text.bytes spelling.1
  least : ∀ j other, FreeAt s j → SpelledAt s j other → i ≤ j

theorem freeAt_iff {s : Text} {i : Nat} :
    FreeAt s i ↔ ∃ x y, s = x ++ y ∧ Text.bytes x = i ∧ Place.start.after x = .start := by
  simp only [FreeAt, Text.slice_front_iff]
  constructor
  · intro h
    obtain ⟨x, ⟨⟨y, hs⟩, hi⟩, hfree⟩ := h
    exact ⟨x, y, hs.symm, hi, hfree⟩
  · intro h
    obtain ⟨x, y, rfl, hi, hfree⟩ := h
    exact ⟨x, ⟨List.prefix_append x y, hi⟩, hfree⟩

theorem spelledAt_append_iff {x y : Text} {spelling : Text × Op} :
    SpelledAt (x ++ y) (Text.bytes x) spelling ↔ spelling ∈ spellings ∧ spelling.1 <+: y := by
  rw [SpelledAt, Text.slice_append_iff, and_iff_left rfl]

theorem First.unique {s : Text} {i j : Nat} {spelling other : Text × Op} (h : First s i spelling)
    (h' : First s j other) : i = j ∧ spelling = other := by
  obtain rfl : i = j := Nat.le_antisymm (h.least j other h'.free h'.spelled) (h'.least i spelling h.free h.spelled)
  have hbytes := Nat.le_antisymm (h'.longest spelling h.spelled) (h.longest other h'.spelled)
  obtain ⟨hmem, hslice⟩ := h.spelled
  obtain ⟨hmem', hslice'⟩ := h'.spelled
  rw [hbytes] at hslice
  -- The spellings are as long, so they are the same text, and the table has it once.
  have hsymbol := hslice.unique hslice'
  have hat := at?_of_mem hmem
  rw [hsymbol, at?_of_mem hmem'] at hat
  exact ⟨rfl, (Option.some.inj hat).symm⟩

/-! ## What the search gives -/

theorem find?_eq_none_iff {s : Text} : find? s = none ↔ ∀ i spelling, FreeAt s i → ¬ SpelledAt s i spelling := by
  rw [find?_eq_map_split?, Option.map_eq_none_iff, split?_eq_none_iff]
  constructor
  · intro h i spelling hplace hspelled
    obtain ⟨x, y, rfl, rfl, hfree⟩ := freeAt_iff.mp hplace
    obtain ⟨hmem, hbegins⟩ := spelledAt_append_iff.mp hspelled
    exact h x y rfl hfree spelling hmem hbegins
  · intro h x y hs hfree spelling hmem hbegins
    subst hs
    exact h _ spelling (freeAt_iff.mpr ⟨x, y, rfl, rfl, hfree⟩) (spelledAt_append_iff.mpr ⟨hmem, hbegins⟩)

/-- Where a text is cut, its first operator stands. -/
theorem first_of_split? {s : Text} {r : Split} (h : split? s = some r) :
    First s (Text.bytes r.before) (r.symbol, r.op) := by
  obtain ⟨rest, rfl, hfree, hat, hpassed⟩ := search_eq_some (p := .start) h
  refine ⟨freeAt_iff.mpr ⟨r.before, rest, rfl, rfl, hfree⟩, ?_, fun other hother => ?_, fun j other hj hother => ?_⟩
  · exact spelledAt_append_iff.mpr ⟨List.mem_of_find?_eq_some hat, isPrefix_of_at? hat⟩
  · obtain ⟨hmem, hbegins⟩ := spelledAt_append_iff.mp hother
    exact Text.bytes_le_of_prefix (longest_of_at? hat hmem hbegins)
  · obtain ⟨x, y, hs, rfl, hx⟩ := freeAt_iff.mp hj
    rw [hs] at hother
    obtain ⟨hmem, hbegins⟩ := spelledAt_append_iff.mp hother
    rcases List.append_eq_append_iff.mp hs with ⟨z, rfl, -⟩ | ⟨z, hbefore, rfl⟩
    · exact Text.bytes_le_of_prefix (List.prefix_append r.before z)
    · -- A place within what stands before the cut has been passed, so nothing is spelled there.
      cases z with
      | nil => simp [hbefore]
      | cons c z => exact absurd hbegins (at?_eq_none_iff.mp (hpassed x c z hbefore hx) other hmem)

/-- What stands before and after the operator are slices, both shorter than the text. -/
theorem slices_of_split? {s : Text} {r : Split} (h : split? s = some r) :
    Text.Slice s 0 (Text.bytes r.before) r.before ∧
    Text.Slice s (Text.bytes r.before + Text.bytes r.symbol) (Text.bytes s) r.after ∧
    Text.bytes r.before < Text.bytes s ∧ Text.bytes r.after < Text.bytes s := by
  obtain ⟨hs, hsymbol⟩ := split?_eq_some h
  have hbytes : Text.bytes s = Text.bytes r.before + Text.bytes r.symbol + Text.bytes r.after := by
    rw [hs, Text.bytes_append, Text.bytes_append]
  have hpos : 0 < Text.bytes r.symbol := Nat.pos_of_ne_zero fun hzero => hsymbol (Text.eq_nil_of_bytes hzero)
  refine ⟨?_, ?_, by omega, by omega⟩
  · exact Text.slice_front_iff.mpr ⟨⟨r.symbol ++ r.after, by simpa using hs.symm⟩, rfl⟩
  · rw [hbytes, hs, ← Text.bytes_append]
    exact Text.slice_append_iff.mpr ⟨List.prefix_rfl, rfl⟩

theorem find?_eq_some_iff {s : Text} {i : Nat} {symbol : Text} {op : Op} :
    find? s = some (i, symbol, op) ↔ ∃ before after, split? s = some ⟨before, symbol, op, after⟩ ∧ Text.bytes before = i := by
  rw [find?_eq_map_split?, Option.map_eq_some_iff]
  constructor
  · intro h
    obtain ⟨⟨before, symbol, op, after⟩, hsplit, hfound⟩ := h
    cases hfound
    exact ⟨before, after, hsplit, rfl⟩
  · intro h
    obtain ⟨before, after, hsplit, rfl⟩ := h
    exact ⟨_, hsplit, rfl⟩

/-- The search gives the first operator of a text, in its longest spelling there, and nothing exactly
    when no operator is spelled at a free byte. The texts before and after the operator are shorter
    slices of the text, and the text is cut into them. -/
theorem finds_first_longest (s : Text) :
    (find? s = none ↔ ∀ i spelling, FreeAt s i → ¬ SpelledAt s i spelling) ∧
    (∀ i spelling, find? s = some (i, spelling) ↔ First s i spelling) ∧
    ∀ i symbol op, find? s = some (i, symbol, op) → ∃ before after,
      Text.Slice s 0 i before ∧ Text.Slice s (i + Text.bytes symbol) (Text.bytes s) after ∧
      Text.bytes before < Text.bytes s ∧ Text.bytes after < Text.bytes s ∧
      split? s = some ⟨before, symbol, op, after⟩ := by
  have hfirst {i : Nat} {spelling : Text × Op} (h : find? s = some (i, spelling)) : First s i spelling := by
    obtain ⟨before, after, hsplit, rfl⟩ := find?_eq_some_iff.mp h
    exact first_of_split? hsplit
  refine ⟨find?_eq_none_iff, fun i spelling => ⟨hfirst, fun h => ?_⟩, fun i symbol op h => ?_⟩
  · cases hfind : find? s with
    | none => exact absurd h.spelled (find?_eq_none_iff.mp hfind i spelling h.free)
    | some found =>
      obtain ⟨rfl, rfl⟩ := h.unique (hfirst hfind)
      rfl
  · obtain ⟨before, after, hsplit, rfl⟩ := find?_eq_some_iff.mp h
    obtain ⟨hbefore, hafter, hbefore', hafter'⟩ := slices_of_split? hsplit
    exact ⟨before, after, hbefore, hafter, hbefore', hafter', hsplit⟩

/-- Behind operators in a quotation and in parentheses, and a parenthesis that none has opened. -/
theorem finds_first_longest_behind_parentheses :
    let s := "é\"<\"(a==b))<=>=c".toList
    let symbol := "<=".toList
    find? s = some (12, symbol, .le) ∧ First s 12 (symbol, .le) ∧ ∃ before after,
      Text.Slice s 0 12 before ∧ Text.Slice s (12 + Text.bytes symbol) (Text.bytes s) after ∧
      Text.bytes before < Text.bytes s ∧ Text.bytes after < Text.bytes s ∧
      split? s = some ⟨before, symbol, .le, after⟩ := by
  intro s symbol
  have hfind : find? s = some (12, symbol, .le) := by decide
  obtain ⟨-, hfirst, hcut⟩ := finds_first_longest s
  exact ⟨hfind, (hfirst 12 (symbol, .le)).mp hfind, hcut 12 symbol .le hfind⟩

end Operator

end MailMerge
