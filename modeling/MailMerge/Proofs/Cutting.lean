/-
  MailMerge.Proofs.Cutting — what `cut` takes off the front of a text, and so what a scan finds.

  Proved:
  - `cut_eq_token_iff`: one step. A lexeme is cut off exactly when the text is its raw form
    followed by the rest, no delimiter stands inside it (`Lexeme.Lawful`), and it ends where the
    rest makes it end (`Lexeme.EndsBefore`).
  - `exists_inFront`: every text is a row of such lexemes, and then nothing or a fault.
  - `scanFrom_join`: a scan of such a row yields the lexemes with their places, then goes on
    with the rest as if it stood alone.
-/

import MailMerge.Proofs.Delimiters
import MailMerge.Token.Scan

namespace MailMerge

open Delimiter (Free)

namespace Lexeme

def isTag : Lexeme → Bool
  | .content _ => false
  | .expression _ | .statement _ => true

/-- What a lexeme may hold. A third closing brace would belong to the tag, not to what is inside. -/
def Lawful : Lexeme → Prop
  | .content s => s ≠ [] ∧ Free s
  | .expression inner => Free inner ∧ inner.getLast? ≠ some '}'
  | .statement inner => Free inner

/-- Where a lexeme ends: a tag at its closing delimiter, literal text at the earliest place where
    a tag opens, or at the end of the template. -/
def EndsBefore : Lexeme → Text → Prop
  | .content s, rest => rest = [] ∨ (Token.opensTag rest = true ∧ s.getLast? ≠ some '{')
  | .expression _, _ | .statement _, _ => True

/-- The lexemes as they stand in the template, one after another. -/
def join (ls : List Lexeme) : Text := ls.flatMap raw

/-- The lexemes can be cut, one after another, off a text that goes on with `rest`. -/
def InFront : List Lexeme → Text → Prop
  | [], _ => True
  | l :: ls, rest => l.Lawful ∧ l.EndsBefore (join ls ++ rest) ∧ InFront ls rest

instance : (l : Lexeme) → Decidable l.Lawful
  | .content s => inferInstanceAs (Decidable (s ≠ [] ∧ Free s))
  | .expression inner => inferInstanceAs (Decidable (Free inner ∧ inner.getLast? ≠ some '}'))
  | .statement inner => inferInstanceAs (Decidable (Free inner))

instance : (l : Lexeme) → (rest : Text) → Decidable (l.EndsBefore rest)
  | .content s, rest => inferInstanceAs (Decidable (rest = [] ∨ (Token.opensTag rest = true ∧ s.getLast? ≠ some '{')))
  | .expression _, _ | .statement _, _ => .isTrue trivial

instance decidableInFront : (ls : List Lexeme) → (rest : Text) → Decidable (InFront ls rest)
  | [], _ => .isTrue trivial
  | l :: ls, rest =>
    have := decidableInFront ls rest
    inferInstanceAs (Decidable (l.Lawful ∧ l.EndsBefore (join ls ++ rest) ∧ InFront ls rest))

@[simp] theorem join_nil : join [] = [] := rfl

@[simp] theorem join_cons (l : Lexeme) (ls : List Lexeme) : join (l :: ls) = l.raw ++ join ls := rfl

theorem join_append (ls ms : List Lexeme) : join (ls ++ ms) = join ls ++ join ms := List.flatMap_append

theorem raw_ne_nil {l : Lexeme} (h : l.Lawful) : l.raw ≠ [] := by
  cases l with
  | content s => exact h.1
  | expression inner => exact List.cons_ne_nil _ _
  | statement inner => exact List.cons_ne_nil _ _

end Lexeme

namespace Token

/-! ## Where tags open -/

theorem opensTag_iff {s : Text} : opensTag s = true ↔ ∃ x t, s = '{' :: x :: t ∧ (x = '{' ∨ x = '%') := by
  constructor
  · intro h
    unfold opensTag at h
    split at h
    · rename_i hd
      exact ⟨'{', _, Delimiter.eq_of_at? hd, Or.inl rfl⟩
    · rename_i hd
      exact ⟨'%', _, Delimiter.eq_of_at? hd, Or.inr rfl⟩
    · cases h
  · intro h
    rcases h with ⟨x, t, rfl, rfl | rfl⟩ <;> rfl

theorem not_opensTag_of_free {s t : Text} {x y : Char} (h : Free (x :: y :: s)) : opensTag (x :: y :: t) = false := by
  rw [Bool.eq_false_iff]
  intro ho
  obtain ⟨_, _, heq, hy⟩ := opensTag_iff.mp ho
  obtain ⟨rfl, rfl, -⟩ : x = '{' ∧ y = _ ∧ t = _ := by simpa using heq
  have hat := (Delimiter.free_cons_iff.mp h).1
  rcases hy with rfl | rfl <;> cases hat

/-- Free text that ends where it should is not the beginning of a tag. -/
theorem not_opensTag_content {s rest : Text} (hs : s ≠ []) (hfree : Free s)
    (hend : (Lexeme.content s).EndsBefore rest) : opensTag (s ++ rest) = false := by
  rcases s with _ | ⟨x, _ | ⟨y, s⟩⟩
  · exact absurd rfl hs
  · rw [Bool.eq_false_iff]
    intro ho
    rcases hend with rfl | ⟨hrest, hx⟩
    · obtain ⟨_, _, heq, -⟩ := opensTag_iff.mp ho
      cases heq
    · obtain ⟨_, _, heq, -⟩ := opensTag_iff.mp ho
      obtain rfl : x = '{' := (List.cons.inj heq).1
      exact hx rfl
  · exact not_opensTag_of_free hfree

theorem opensTag_raw_append {l : Lexeme} (t : Text) (h : l.isTag = true) : opensTag (l.raw ++ t) = true := by
  cases l with
  | content s => cases h
  | expression inner => rfl
  | statement inner => rfl

/-! ## Literal text -/

theorem splitContent_append_eq {s rest : Text} (hfree : Free s) (hend : (Lexeme.content s).EndsBefore rest) :
    splitContent (s ++ rest) = (s, rest) := by
  induction s with
  | nil =>
    cases rest with
    | nil => rfl
    | cons c rest =>
      rcases hend with hnil | ⟨hrest, -⟩
      · cases hnil
      · rw [List.nil_append, splitContent, if_pos hrest]
  | cons c s ih =>
    have hopen := not_opensTag_content (List.cons_ne_nil c s) hfree hend
    have hend' : (Lexeme.content s).EndsBefore rest := by
      rcases hend with h | ⟨hrest, hlast⟩
      · exact Or.inl h
      · refine Or.inr ⟨hrest, fun h => hlast ?_⟩
        rw [List.getLast?_cons, h]
        rfl
    rw [List.cons_append] at hopen ⊢
    rw [splitContent, if_neg (by simp [hopen]), ih (Delimiter.free_cons_iff.mp hfree).2 hend']

/-- The cut of literal text is at the end or before a tag, and the brace before it opens no tag. -/
theorem splitContent_endsBefore (s : Text) : (Lexeme.content (splitContent s).1).EndsBefore (splitContent s).2 := by
  induction s with
  | nil => exact Or.inl rfl
  | cons c s ih =>
    rw [splitContent]
    split
    · rename_i ho
      exact Or.inr ⟨ho, by simp⟩
    · rename_i ho
      rcases ih with h | ⟨hrest, hlast⟩
      · exact Or.inl h
      · refine Or.inr ⟨hrest, fun h => ?_⟩
        rw [List.getLast?_cons] at h
        cases hl : (splitContent s).1.getLast? with
        | some x =>
          rw [hl] at h hlast
          exact hlast h
        | none =>
          -- The whole of it is the brace `c`, and a tag opens right after it.
          rw [hl] at h
          obtain rfl : c = '{' := by simpa using h
          have hnil : (splitContent s).1 = [] := List.getLast?_eq_none_iff.mp hl
          have happ := splitContent_append s
          rw [hnil, List.nil_append] at happ
          rw [happ] at hrest
          obtain ⟨x, t, rfl, hx⟩ := opensTag_iff.mp hrest
          exact ho rfl

/-! ## One lexeme -/

theorem cutTag_eq_token_iff {opener closer : Delimiter} {make : Text → Lexeme} {s rest : Text} {l : Lexeme} :
    cutTag opener closer make s = .token l rest ↔
      ∃ inner, l = make inner ∧ s = inner ++ (closer.text ++ rest) ∧ Free inner ∧
        ¬ closer.text <:+: inner ++ closer.text.take 1 := by
  constructor
  · intro h
    unfold cutTag at h
    split at h
    · cases h
    · rename_i inner rest' hs
      split at h
      · cases h
      · rename_i hf
        cases h
        obtain ⟨hs, hfirst⟩ := Delimiter.splitAt?_eq_some_iff.mp hs
        exact ⟨inner, rfl, hs, Delimiter.firstIn?_eq_none_iff.mp hf, hfirst⟩
  · intro h
    obtain ⟨inner, rfl, rfl, hfree, hfirst⟩ := h
    simp only [cutTag, Delimiter.splitAt?_append rest hfirst, Delimiter.firstIn?_eq_none_iff.mpr hfree]

/-- Inside free text, the closing delimiter of an expression could only begin at a last brace. -/
theorem not_infix_exprClose_iff {inner : Text} (h : Free inner) :
    ¬ Delimiter.exprClose.text <:+: inner ++ Delimiter.exprClose.text.take 1 ↔ inner.getLast? ≠ some '}' := by
  rw [Delimiter.not_infix_append_iff]
  constructor
  · intro hparts hlast
    obtain ⟨-, -, hseam⟩ := hparts
    exact hseam '}' hlast '}' rfl rfl
  · intro hlast
    refine ⟨h _, by decide, fun x hx y hy heq => hlast ?_⟩
    obtain rfl : x = '}' := by
      cases heq
      rfl
    exact hx

theorem not_infix_stmtClose {inner : Text} (h : Free inner) :
    ¬ Delimiter.stmtClose.text <:+: inner ++ Delimiter.stmtClose.text.take 1 := by
  rw [Delimiter.not_infix_append_iff]
  refine ⟨h _, by decide, fun x _ y hy heq => ?_⟩
  obtain rfl : '%' = y := by simpa [Delimiter.text] using hy
  cases heq

theorem cut_content {s : Text} (h : opensTag s = false) :
    cut s = match Delimiter.firstIn? (splitContent s).1 with
      | some (before, d) => .unmatched before d
      | none => .token (.content (splitContent s).1) (splitContent s).2 := by
  unfold cut
  unfold opensTag at h
  split at h
  · cases h
  · cases h
  · rfl

/-- Exactly the lawful lexemes that end where they should are cut off the front. -/
theorem cut_eq_token_iff {s rest : Text} {l : Lexeme} (hs : s ≠ []) :
    cut s = .token l rest ↔ s = l.raw ++ rest ∧ l.Lawful ∧ l.EndsBefore rest := by
  constructor
  · intro h
    obtain ⟨hraw, hne⟩ := cut_token hs h
    refine ⟨hraw, ?_⟩
    by_cases ho : opensTag s = true
    · obtain ⟨x, t, rfl, rfl | rfl⟩ := opensTag_iff.mp ho
      · obtain ⟨inner, rfl, -, hfree, hfirst⟩ := cutTag_eq_token_iff.mp h
        exact ⟨⟨hfree, (not_infix_exprClose_iff hfree).mp hfirst⟩, trivial⟩
      · obtain ⟨inner, rfl, -, hfree, -⟩ := cutTag_eq_token_iff.mp h
        exact ⟨hfree, trivial⟩
    · rw [cut_content (by simpa using ho)] at h
      split at h
      · cases h
      · rename_i hf
        cases h
        exact ⟨⟨hne, Delimiter.firstIn?_eq_none_iff.mp hf⟩, splitContent_endsBefore s⟩
  · intro h
    obtain ⟨rfl, hl, hend⟩ := h
    cases l with
    | content t =>
      rw [Lexeme.raw, cut_content (not_opensTag_content hl.1 hl.2 hend), splitContent_append_eq hl.2 hend,
        Delimiter.firstIn?_eq_none_iff.mpr hl.2]
    | expression inner =>
      refine cutTag_eq_token_iff.mpr ⟨inner, rfl, by simp [Lexeme.raw, Delimiter.text], hl.1, ?_⟩
      exact (not_infix_exprClose_iff hl.1).mpr hl.2
    | statement inner =>
      exact cutTag_eq_token_iff.mpr
        ⟨inner, rfl, by simp [Lexeme.raw, Delimiter.text], hl, not_infix_stmtClose hl⟩

/-- Of three closing braces the first two close the tag. -/
example : cut "\x7b\x7ba\x7d\x7d\x7d".toList = .token (.expression "a".toList) "\x7d".toList := by decide

end Token

/-! ## Rows of lexemes -/

namespace Lexeme

theorem inFront_append {ls ms : List Lexeme} {rest : Text} :
    InFront (ls ++ ms) rest ↔ InFront ls (join ms ++ rest) ∧ InFront ms rest := by
  induction ls with
  | nil => simp [InFront]
  | cons l ls ih => simp only [List.cons_append, InFront, join_append, List.append_assoc, ih, and_assoc]

theorem InFront.lawful {ls : List Lexeme} {rest : Text} (h : InFront ls rest) : ∀ l ∈ ls, l.Lawful := by
  induction ls with
  | nil => exact fun l hl => absurd hl List.not_mem_nil
  | cons l ls ih => exact List.forall_mem_cons.mpr ⟨h.1, ih h.2.2⟩

/-- A row opens a tag exactly when its first lexeme is one. -/
theorem opensTag_join {l : Lexeme} {ls : List Lexeme} {rest : Text} (h : InFront (l :: ls) rest) :
    Token.opensTag (join (l :: ls) ++ rest) = l.isTag := by
  obtain ⟨hl, hend, -⟩ := h
  rw [join_cons, List.append_assoc]
  cases l with
  | content s => exact Token.not_opensTag_content hl.1 hl.2 hend
  | expression inner => exact Token.opensTag_raw_append _ rfl
  | statement inner => exact Token.opensTag_raw_append _ rfl

/-- Text that is nothing, or that opens a tag: literal text before it ends there. -/
def Stops (rest : Text) : Prop := rest = [] ∨ Token.opensTag rest = true

/-- A row in front of more text is also in front of any other text before which literal text ends. -/
theorem InFront.change {ls : List Lexeme} {rest rest' : Text} (h : InFront ls rest) (hne : rest ≠ [])
    (h' : Stops rest') : InFront ls rest' := by
  induction ls with
  | nil => trivial
  | cons l ls ih =>
    obtain ⟨hl, hend, hls⟩ := h
    have hls' := ih hls
    refine ⟨hl, ?_, hls'⟩
    cases l with
    | expression inner => trivial
    | statement inner => trivial
    | content s =>
      rcases hend with hnil | ⟨hopen, hlast⟩
      · exact absurd (List.append_eq_nil_iff.mp hnil).2 hne
      cases ls with
      | nil =>
        rcases h' with h' | h'
        · exact Or.inl h'
        · exact Or.inr ⟨h', hlast⟩
      | cons m ms =>
        -- The next lexeme is a tag, and remains one.
        rw [opensTag_join hls] at hopen
        exact Or.inr ⟨by rw [opensTag_join hls', hopen], hlast⟩

theorem stops_nil : Stops [] := Or.inl rfl

theorem stops_raw_append {l : Lexeme} (t : Text) (h : l.isTag = true) : Stops (l.raw ++ t) :=
  Or.inr (Token.opensTag_raw_append t h)

theorem endsBefore_of_isTag {l : Lexeme} (h : l.isTag = true) (rest : Text) : l.EndsBefore rest := by
  cases l with
  | content s => cases h
  | expression inner => trivial
  | statement inner => trivial

/-- Without its last lexeme a row is in front of any text before which literal text ends. -/
theorem InFront.init {ls : List Lexeme} {l : Lexeme} {rest rest' : Text} (h : InFront (ls ++ [l]) rest)
    (h' : Stops rest') : InFront ls rest' := by
  obtain ⟨hls, hl, -⟩ := inFront_append.mp h
  refine hls.change ?_ h'
  simp [raw_ne_nil hl]

/-- A row that ends in a tag is in front of any text. -/
theorem InFront.change_after_tag {ls : List Lexeme} {l : Lexeme} {rest : Text} (h : InFront (ls ++ [l]) rest)
    (htag : l.isTag = true) (rest' : Text) : InFront (ls ++ [l]) rest' := by
  obtain ⟨-, hl, -⟩ := inFront_append.mp h
  have hstops : Stops (join [l] ++ rest') := by
    rw [join_cons, List.append_assoc]
    exact stops_raw_append _ htag
  exact inFront_append.mpr ⟨h.init hstops, hl, endsBefore_of_isTag htag _, trivial⟩

end Lexeme

/-! ## Scans -/

namespace Token

/-- The lexemes as tokens, of which the first begins at the given byte and line. -/
def place (offset line : Nat) : List Lexeme → List Token
  | [] => []
  | l :: ls => ⟨l, offset, line⟩ :: place (offset + Text.bytes l.raw) (line + Text.lineBreaks l.raw) ls

/-- The scan with more tokens before it. -/
def Scan.after (ts : List Token) (scan : Scan) : Scan := ⟨ts ++ scan.tokens, scan.failure⟩

theorem Scan.after_nil (ts : List Token) (failure : Option Error) : Scan.after ts ⟨[], failure⟩ = ⟨ts, failure⟩ := by
  rw [Scan.after, List.append_nil]

@[simp] theorem map_lexeme_place (offset line : Nat) (ls : List Lexeme) : (place offset line ls).map lexeme = ls := by
  induction ls generalizing offset line with
  | nil => rfl
  | cons l ls ih => rw [place, List.map_cons, ih]

theorem place_append (offset line : Nat) (ls ms : List Lexeme) :
    place offset line (ls ++ ms) = place offset line ls ++
      place (offset + Text.bytes (Lexeme.join ls)) (line + Text.lineBreaks (Lexeme.join ls)) ms := by
  induction ls generalizing offset line with
  | nil => rfl
  | cons l ls ih =>
    simp only [List.cons_append, place, ih, Lexeme.join_cons, Text.bytes_append, Text.lineBreaks_append, Nat.add_assoc]

theorem scanFrom_nil (offset line : Nat) : scanFrom offset line [] = ⟨[], none⟩ := by
  rw [scanFrom, dif_pos rfl]

theorem scanFrom_unmatched (offset line : Nat) {s before : Text} {d : Delimiter} (hs : s ≠ [])
    (h : cut s = .unmatched before d) :
    scanFrom offset line s = ⟨[], some (.unmatched d (line + Text.lineBreaks before))⟩ := by
  rw [scanFrom, dif_neg hs]
  split
  · rename_i h'
    rw [h] at h'
    cases h'
    rfl
  · rename_i h'
    rw [h] at h'
    cases h'

theorem scanFrom_token (offset line : Nat) {s rest : Text} {l : Lexeme} (hs : s ≠ []) (h : cut s = .token l rest) :
    scanFrom offset line s = (scanFrom (offset + Text.bytes l.raw) (line + Text.lineBreaks l.raw) rest).after
      [⟨l, offset, line⟩] := by
  rw [scanFrom, dif_neg hs]
  split
  · rename_i h'
    rw [h] at h'
    cases h'
  · rename_i h'
    rw [h] at h'
    cases h'
    rfl

/-- A row of lexemes in front of `rest` is scanned as it is, and then `rest` as if it stood alone. -/
theorem scanFrom_join (offset line : Nat) {ls : List Lexeme} {rest : Text} (h : Lexeme.InFront ls rest) :
    scanFrom offset line (Lexeme.join ls ++ rest) =
      (scanFrom (offset + Text.bytes (Lexeme.join ls)) (line + Text.lineBreaks (Lexeme.join ls)) rest).after
        (place offset line ls) := by
  induction ls generalizing offset line with
  | nil => rfl
  | cons l ls ih =>
    obtain ⟨hl, hend, hls⟩ := h
    have hne : l.raw ++ (Lexeme.join ls ++ rest) ≠ [] := by simp [Lexeme.raw_ne_nil hl]
    have hcut := (cut_eq_token_iff hne).mpr ⟨rfl, hl, hend⟩
    rw [Lexeme.join_cons, List.append_assoc, scanFrom_token _ _ hne hcut, ih _ _ hls]
    simp only [Text.bytes_append, Text.lineBreaks_append, Nat.add_assoc]
    rfl

/-- Every text is a row of lexemes, and then nothing or a place where no lexeme can be cut. -/
theorem exists_inFront (s : Text) :
    ∃ ls rest, s = Lexeme.join ls ++ rest ∧ Lexeme.InFront ls rest ∧
      (rest = [] ∨ rest ≠ [] ∧ ∃ before d, cut rest = .unmatched before d) := by
  obtain ⟨n, hn⟩ : ∃ n, s.length ≤ n := ⟨_, Nat.le_refl _⟩
  induction n generalizing s with
  | zero =>
    obtain rfl : s = [] := List.eq_nil_of_length_eq_zero (by omega)
    exact ⟨[], [], rfl, trivial, Or.inl rfl⟩
  | succ n ih =>
    by_cases hs : s = []
    · exact ⟨[], s, rfl, trivial, Or.inl hs⟩
    cases hc : cut s with
    | unmatched before d => exact ⟨[], s, rfl, trivial, Or.inr ⟨hs, before, d, hc⟩⟩
    | token l rest =>
      obtain ⟨hraw, hl, hend⟩ := (cut_eq_token_iff hs).mp hc
      have hpos := List.length_pos_iff.mpr (Lexeme.raw_ne_nil hl)
      have hlen := congrArg List.length hraw
      rw [List.length_append] at hlen
      obtain ⟨ls, rest', rfl, hls, hstop⟩ := ih rest (by omega)
      exact ⟨l :: ls, rest', by rw [hraw, Lexeme.join_cons, List.append_assoc], ⟨hl, hend, hls⟩, hstop⟩

/-- The tokens of a scan are a row of lexemes in their places. What is left after them is nothing,
    or it begins with the unmatched delimiter at which the scan failed. -/
theorem exists_scan_eq (t : Text) :
    ∃ ls rest failure, t = Lexeme.join ls ++ rest ∧ Lexeme.InFront ls rest ∧ scan t = ⟨place 0 1 ls, failure⟩ ∧
      (rest = [] ∧ failure = none ∨ ∃ d line, failure = some (.unmatched d line)) := by
  obtain ⟨ls, rest, rfl, hls, hstop⟩ := exists_inFront t
  rw [scan, scanFrom_join _ _ hls]
  rcases hstop with rfl | ⟨hne, before, d, hc⟩
  · rw [scanFrom_nil, Scan.after_nil]
    exact ⟨ls, [], none, rfl, hls, rfl, Or.inl ⟨rfl, rfl⟩⟩
  · rw [scanFrom_unmatched _ _ hne hc, Scan.after_nil]
    exact ⟨ls, rest, _, rfl, hls, rfl, Or.inr ⟨_, _, rfl⟩⟩

theorem unmatched_of_failure {t : Text} {e : Error} (h : (scan t).failure = some e) : ∃ d line, e = .unmatched d line := by
  obtain ⟨ls, rest, failure, -, -, hscan, ⟨-, rfl⟩ | ⟨d, line, rfl⟩⟩ := exists_scan_eq t
  · rw [hscan] at h
    cases h
  · rw [hscan] at h
    exact ⟨d, line, (Option.some.inj h).symm⟩

theorem readAll_eq_ok_iff {t : Text} {ts : List Token} : readAll t = .ok ts ↔ scan t = ⟨ts, none⟩ := by
  unfold readAll
  obtain ⟨ts', failure⟩ := scan t
  cases failure <;> simp

theorem readAll_eq_error_iff {t : Text} {e : Error} : readAll t = .error e ↔ (scan t).failure = some e := by
  unfold readAll
  obtain ⟨ts', failure⟩ := scan t
  cases failure <;> simp

/-- A template that can be cut into tokens is a row of lexemes with nothing after it. -/
theorem readAll_eq_ok_iff_place {t : Text} {ts : List Token} :
    readAll t = .ok ts ↔ ∃ ls, Lexeme.InFront ls [] ∧ t = Lexeme.join ls ∧ ts = place 0 1 ls := by
  constructor
  · intro h
    rw [readAll_eq_ok_iff] at h
    obtain ⟨ls, rest, failure, rfl, hls, hscan, ⟨rfl, rfl⟩ | ⟨d, line, rfl⟩⟩ := exists_scan_eq t
    · rw [hscan] at h
      cases h
      exact ⟨ls, hls, List.append_nil _, rfl⟩
    · rw [hscan] at h
      cases h
  · intro h
    obtain ⟨ls, hls, rfl, rfl⟩ := h
    have := scanFrom_join 0 1 hls
    rw [List.append_nil, scanFrom_nil, Scan.after_nil] at this
    exact readAll_eq_ok_iff.mpr this

theorem readAll_join {ls : List Lexeme} (h : Lexeme.InFront ls []) : readAll (Lexeme.join ls) = .ok (place 0 1 ls) :=
  readAll_eq_ok_iff_place.mpr ⟨ls, h, rfl, rfl⟩

/-- A token of a row begins where the lexemes before it end. -/
theorem place_split {offset line : Nat} {ls : List Lexeme} {before after : List Token} {tok : Token}
    (h : place offset line ls = before ++ tok :: after) :
    ls = before.map lexeme ++ tok.lexeme :: after.map lexeme ∧
      tok.offset = offset + Text.bytes (Lexeme.join (before.map lexeme)) ∧
      tok.line = line + Text.lineBreaks (Lexeme.join (before.map lexeme)) := by
  have hls := congrArg (List.map lexeme) h
  rw [map_lexeme_place, List.map_append, List.map_cons] at hls
  subst hls
  rw [place_append] at h
  have hlen : (place offset line (before.map lexeme)).length = before.length := by
    rw [← List.length_map (f := lexeme), map_lexeme_place, List.length_map]
  obtain ⟨-, hrest⟩ := List.append_inj h hlen
  obtain ⟨htok, -⟩ := List.cons.inj hrest
  exact ⟨rfl, (congrArg Token.offset htok).symm, (congrArg Token.line htok).symm⟩

end Token

end MailMerge
