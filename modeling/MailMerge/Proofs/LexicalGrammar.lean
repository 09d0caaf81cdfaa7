/-
  MailMerge.Proofs.LexicalGrammar — the lexical grammar of templates.

  A list of tokens is canonical when each token is lawful, literal text is followed only by a
  tag and then does not end in a brace, and every token stands at the byte and on the line
  where the text of the tokens before it ends (`Token.Canonical`).

  Proved: a template is cut into exactly the canonical list whose text it is, and there is at
  most one (`readAll_iff_canonical`). Recounting the lines from the start gives the lines that
  the tokens have, also for the tokens before an unmatched delimiter.
-/

import MailMerge.Proofs.Cutting

namespace MailMerge

/-- What may come next. Literal text ends at the earliest place where a tag opens, so more
    literal text cannot follow, and no brace may stand before the tag. -/
def Lexeme.Meets : Lexeme → Lexeme → Prop
  | .content s, next => next.isTag = true ∧ s.getLast? ≠ some '{'
  | .expression _, _ | .statement _, _ => True

namespace Token

/-- Every token begins where the text of those before it ends, counted from the given byte and line. -/
def Placed (offset line : Nat) (ts : List Token) : Prop :=
  ∀ before tok after, ts = before ++ tok :: after →
    tok.offset = offset + Text.bytes (Lexeme.join (before.map lexeme)) ∧
      tok.line = line + Text.lineBreaks (Lexeme.join (before.map lexeme))

structure Canonical (ts : List Token) : Prop where
  lawful : ∀ tok ∈ ts, tok.lexeme.Lawful
  meets : (ts.map lexeme).IsChain Lexeme.Meets
  placed : Placed 0 1 ts

end Token

/-- A row with nothing after it is lawful lexemes, each followed by one that may come next. -/
theorem Lexeme.inFront_nil_iff {ls : List Lexeme} :
    InFront ls [] ↔ (∀ l ∈ ls, l.Lawful) ∧ ls.IsChain Lexeme.Meets := by
  induction ls with
  | nil => simp [InFront]
  | cons l ls ih =>
    have next (hls : InFront ls []) : l.EndsBefore (join ls ++ []) ↔ ∀ m ∈ ls.head?, l.Meets m := by
      cases l with
      | expression inner => exact ⟨fun _ _ _ => trivial, fun _ => trivial⟩
      | statement inner => exact ⟨fun _ _ _ => trivial, fun _ => trivial⟩
      | content s =>
        cases ls with
        | nil => exact ⟨fun _ _ hm => absurd hm (Option.not_mem_none _), fun _ => Or.inl rfl⟩
        | cons m ms =>
          have hne : join (m :: ms) ++ [] ≠ [] := by simp [raw_ne_nil hls.1]
          simp only [EndsBefore, hne, false_or, opensTag_join hls]
          simp [Meets]
    constructor
    · intro h
      obtain ⟨hl, hend, hls⟩ := h
      obtain ⟨hlawful, hchain⟩ := ih.mp hls
      exact ⟨List.forall_mem_cons.mpr ⟨hl, hlawful⟩, List.isChain_cons.mpr ⟨(next hls).mp hend, hchain⟩⟩
    · intro h
      obtain ⟨hlawful, hchain⟩ := h
      obtain ⟨hl, hlawful⟩ := List.forall_mem_cons.mp hlawful
      obtain ⟨hmeets, hchain⟩ := List.isChain_cons.mp hchain
      have hls := ih.mpr ⟨hlawful, hchain⟩
      exact ⟨hl, (next hls).mpr hmeets, hls⟩

namespace Token

theorem placed_cons {offset line : Nat} {tok : Token} {ts : List Token} :
    Placed offset line (tok :: ts) ↔ tok.offset = offset ∧ tok.line = line ∧
      Placed (offset + Text.bytes tok.lexeme.raw) (line + Text.lineBreaks tok.lexeme.raw) ts := by
  constructor
  · intro h
    refine ⟨(h [] tok ts rfl).1, (h [] tok ts rfl).2, fun before t after hts => ?_⟩
    have := h (tok :: before) t after (by rw [hts]; rfl)
    simpa only [List.map_cons, Lexeme.join_cons, Text.bytes_append, Text.lineBreaks_append, Nat.add_assoc] using this
  · intro hparts before t after hts
    obtain ⟨ho, hl, h⟩ := hparts
    cases before with
    | nil =>
      obtain ⟨rfl, rfl⟩ := List.cons.inj hts
      exact ⟨ho, hl⟩
    | cons b before =>
      obtain ⟨rfl, hts'⟩ := List.cons.inj hts
      simpa only [List.map_cons, Lexeme.join_cons, Text.bytes_append, Text.lineBreaks_append, Nat.add_assoc]
        using h before t after hts'

/-- Places that add up are the places that scanning gives. -/
theorem placed_iff {offset line : Nat} {ts : List Token} :
    Placed offset line ts ↔ ts = place offset line (ts.map lexeme) := by
  induction ts generalizing offset line with
  | nil => exact iff_of_true (fun before _ _ h => absurd h (by cases before <;> simp)) rfl
  | cons tok ts ih =>
    rw [placed_cons, ih, List.map_cons, place, List.cons.injEq]
    constructor
    · intro hparts
      obtain ⟨rfl, rfl, h⟩ := hparts
      exact ⟨rfl, h⟩
    · intro hparts
      obtain ⟨h, hts⟩ := hparts
      exact ⟨congrArg Token.offset h, congrArg Token.line h, hts⟩

theorem canonical_place {ls : List Lexeme} : Canonical (place 0 1 ls) ↔ Lexeme.InFront ls [] := by
  rw [Lexeme.inFront_nil_iff]
  constructor
  · intro h
    obtain ⟨hlawful, hmeets, -⟩ := h
    rw [map_lexeme_place] at hmeets
    refine ⟨fun l hl => ?_, hmeets⟩
    rw [← map_lexeme_place 0 1 ls] at hl
    obtain ⟨tok, htok, rfl⟩ := List.mem_map.mp hl
    exact hlawful tok htok
  · intro h
    obtain ⟨hlawful, hmeets⟩ := h
    refine ⟨fun tok htok => hlawful _ ?_, by rwa [map_lexeme_place], placed_iff.mpr (by rw [map_lexeme_place])⟩
    rw [← map_lexeme_place 0 1 ls]
    exact List.mem_map_of_mem htok

theorem readAll_ok_iff_canonical {t : Text} {ts : List Token} :
    readAll t = .ok ts ↔ Lexeme.join (ts.map lexeme) = t ∧ Canonical ts := by
  rw [readAll_eq_ok_iff_place]
  constructor
  · intro h
    obtain ⟨ls, hls, rfl, rfl⟩ := h
    exact ⟨by rw [map_lexeme_place], canonical_place.mpr hls⟩
  · intro hparts
    obtain ⟨rfl, h⟩ := hparts
    have hts := placed_iff.mp h.placed
    rw [hts] at h
    exact ⟨ts.map lexeme, canonical_place.mp h, rfl, hts⟩

/-- The line of a token is the one found by counting from the start of the template. -/
theorem line_eq_lineOf {t : Text} {tok : Token} (h : tok ∈ (scan t).tokens) : tok.line = Text.lineOf t tok.offset := by
  obtain ⟨ls, rest, failure, rfl, -, hscan, -⟩ := exists_scan_eq t
  rw [hscan] at h
  obtain ⟨before, after, hplace⟩ := List.append_of_mem h
  obtain ⟨rfl, ho, hl⟩ := place_split hplace
  rw [ho, hl, Lexeme.join_append, List.append_assoc, Nat.zero_add, Text.lineOf_bytes]

end Token

/-- The text between the delimiters of a tag, which have two characters each. -/
def Lexeme.between (l : Lexeme) : Text := (l.raw.drop 2).take (l.raw.length - 4)

theorem Lexeme.body_eq (l : Lexeme) : l.body = if l.isTag then Text.trim l.between else l.raw := by
  cases l with
  | content s => rfl
  | expression inner => simp [body, isTag, between, raw, Delimiter.text]
  | statement inner => simp [body, isTag, between, raw, Delimiter.text]

/-- A template is cut into the one canonical list of tokens whose text it is, and not at all
    when there is none. -/
theorem Token.readAll_iff_canonical (t : Text) :
    (∀ ts, readAll t = .ok ts ↔ Lexeme.join (ts.map lexeme) = t ∧ Canonical ts) ∧
    (∀ ts ts', (Lexeme.join (ts.map lexeme) = t ∧ Canonical ts) → (Lexeme.join (ts'.map lexeme) = t ∧ Canonical ts') →
      ts = ts') ∧
    ∀ tok ∈ (scan t).tokens, tok.line = Text.lineOf t tok.offset ∧
      tok.lexeme.body = if tok.lexeme.isTag then Text.trim tok.lexeme.between else tok.lexeme.raw := by
  refine ⟨fun ts => readAll_ok_iff_canonical, fun ts ts' h h' => ?_, fun tok h => ⟨line_eq_lineOf h, tok.lexeme.body_eq⟩⟩
  have hts := readAll_ok_iff_canonical.mpr h
  rw [readAll_ok_iff_canonical.mpr h'] at hts
  exact (Except.ok.inj hts).symm

end MailMerge
