/-
  MailMerge.Proofs.Unmatched — which delimiter is reported as unmatched, and when.

  A search for delimiters finds the leftmost one of those it looks for (`Delimiter.Leftmost`), also
  where two of them overlap. `Token.Unmatched` says which delimiter is at fault at the front of a text:
  an opening one without its closing one, or the leftmost of those inside a tag, or the leftmost of
  those in literal text up to where a tag opens.

  Proved:
  - `cut_eq_unmatched_iff`: one step. A cut fails at exactly that delimiter.
  - `Stream.answer_start`: a stream answers with what a scan finds, and then with nothing.
  - `readAll_fails_once`: of a template that cannot be cut, the stream answers with the tokens before
    the fault, once with the fault, and never again.
-/

import MailMerge.Proofs.Cutting
import MailMerge.Token.Stream

namespace MailMerge

namespace Delimiter

/-- The delimiter that closes what this one opens. -/
def closer? : Delimiter → Option Delimiter
  | .exprOpen => some .exprClose
  | .stmtOpen => some .stmtClose
  | .exprClose | .stmtClose => none

/-- Of the delimiters asked for, `d` is the first one in the text, and `before` stands before it. -/
def Leftmost (asked : Delimiter → Prop) (s before : Text) (d : Delimiter) : Prop :=
  asked d ∧ before ++ d.text <+: s ∧ ∀ x d', asked d' → x ++ d'.text <+: s → before.length ≤ x.length

variable {asked : Delimiter → Prop} {s before : Text} {d : Delimiter}

/-! ## The leftmost delimiter -/

theorem text_injective : Function.Injective text := by
  intro d d' h
  cases d <;> cases d' <;> first | rfl | cases h

/-- Two delimiters at one place are the same, since they have the same length. -/
theorem Leftmost.unique {before' : Text} {d' : Delimiter} (h : Leftmost asked s before d)
    (h' : Leftmost asked s before' d') : before = before' ∧ d = d' := by
  obtain ⟨hd, hs, hmin⟩ := h
  obtain ⟨hd', hs', hmin'⟩ := h'
  have hlen : before.length = before'.length := Nat.le_antisymm (hmin _ _ hd' hs') (hmin' _ _ hd hs)
  have heq : before ++ d.text = before' ++ d'.text :=
    (List.prefix_of_prefix_length_le hs hs' (by simp [hlen, length_text])).eq_of_length (by simp [hlen, length_text])
  obtain ⟨hbefore, htext⟩ := List.append_inj heq hlen
  exact ⟨hbefore, text_injective htext⟩

theorem leftmost_front (hd : asked d) (h : d.text <+: s) : Leftmost asked s [] d :=
  ⟨hd, h, fun _ _ _ _ => Nat.zero_le _⟩

/-- One that is asked for and stands at the front is the leftmost. -/
theorem leftmost_front_iff {d' : Delimiter} (hd : asked d') (h : d'.text <+: s) :
    Leftmost asked s before d ↔ before = [] ∧ d = d' := by
  constructor
  · intro hleft
    exact hleft.unique (leftmost_front hd h)
  · intro hparts
    obtain ⟨rfl, rfl⟩ := hparts
    exact leftmost_front hd h

theorem not_leftmost_nil : ¬ Leftmost asked [] before d := by
  intro h
  exact text_ne_nil d (List.append_eq_nil_iff.mp (List.prefix_nil.mp h.2.1)).2

/-- With none of those asked for at the front, the leftmost one stands in the rest. -/
theorem leftmost_cons {c : Char} (h : ∀ d', asked d' → ¬ d'.text <+: c :: s) :
    Leftmost asked (c :: s) before d ↔ ∃ later, before = c :: later ∧ Leftmost asked s later d := by
  constructor
  · intro hleft
    obtain ⟨hd, hs, hmin⟩ := hleft
    cases before with
    | nil => exact absurd hs (h d hd)
    | cons b later =>
      obtain ⟨rfl, hlater⟩ := List.cons_prefix_cons.mp hs
      refine ⟨later, rfl, hd, hlater, fun x d' hd' hx => ?_⟩
      exact Nat.le_of_succ_le_succ (hmin (b :: x) d' hd' (List.cons_prefix_cons.mpr ⟨rfl, hx⟩))
  · intro hlater
    obtain ⟨later, rfl, hd, hs, hmin⟩ := hlater
    refine ⟨hd, List.cons_prefix_cons.mpr ⟨rfl, hs⟩, fun x d' hd' hx => ?_⟩
    cases x with
    | nil => exact absurd hx (h d' hd')
    | cons b x => exact Nat.succ_le_succ (hmin x d' hd' (List.cons_prefix_cons.mp hx).2)

theorem firstIn?_eq_some_iff : firstIn? s = some (before, d) ↔ Leftmost (fun _ => True) s before d := by
  induction s generalizing before with
  | nil => exact iff_of_false (by simp [firstIn?]) not_leftmost_nil
  | cons c s ih =>
    rw [firstIn?]
    split
    · rename_i d' hd'
      rw [leftmost_front_iff trivial (at?_eq_some_iff.mp hd')]
      simp [eq_comm]
    · rename_i hnone
      rw [leftmost_cons fun d' _ hd' => by rw [at?_eq_some_iff.mpr hd'] at hnone; cases hnone]
      simp only [Option.map_eq_some_iff, Prod.exists, Prod.mk.injEq]
      constructor
      · intro h
        obtain ⟨later, _, h, rfl, rfl⟩ := h
        exact ⟨later, rfl, ih.mp h⟩
      · intro h
        obtain ⟨later, rfl, h⟩ := h
        exact ⟨later, d, ih.mpr h, rfl, rfl⟩

/-- `splitAt?` cuts where the delimiter first stands. -/
theorem exists_splitAt?_iff : (∃ rest, splitAt? d s = some (before, rest)) ↔ Leftmost (· = d) s before d := by
  induction s generalizing before with
  | nil => exact iff_of_false (by simp [splitAt?]) not_leftmost_nil
  | cons c s ih =>
    by_cases hd : d.text <+: c :: s
    · have hfront : Leftmost (· = d) (c :: s) before d ↔ before = [] ∧ d = d := leftmost_front_iff rfl hd
      rw [splitAt?_cons_front hd, hfront]
      simp [eq_comm]
    · rw [splitAt?_cons_later hd, leftmost_cons fun d' hd' => by rw [hd']; exact hd]
      simp only [Option.map_eq_some_iff, Prod.exists, Prod.mk.injEq]
      constructor
      · intro h
        obtain ⟨rest, later, _, h, rfl, rfl⟩ := h
        exact ⟨later, rfl, ih.mp ⟨_, h⟩⟩
      · intro h
        obtain ⟨later, rfl, h⟩ := h
        obtain ⟨rest, h⟩ := ih.mpr h
        exact ⟨rest, later, rest, h, rfl, rfl⟩

theorem splitAt?_eq_none_iff : splitAt? d s = none ↔ ¬ d.text <:+: s := by
  induction s with
  | nil => exact iff_of_true rfl fun h => text_ne_nil d (List.infix_nil.mp h)
  | cons c s ih =>
    rw [List.infix_cons_iff, not_or]
    by_cases hd : d.text <+: c :: s
    · rw [splitAt?_cons_front hd]
      exact iff_of_false (by simp) fun h => h.1 hd
    · rw [splitAt?_cons_later hd, Option.map_eq_none_iff, ih]
      exact ⟨fun h => ⟨hd, h⟩, fun h => h.2⟩

end Delimiter

namespace Token

open Delimiter (Leftmost)

/-- `text` is what stands before the next tag, or all there is. -/
def UpToTag (s text : Text) : Prop :=
  (∃ opener, Leftmost (·.closer?.isSome) s text opener) ∨
    text = s ∧ ∀ opener : Delimiter, opener.closer?.isSome → ¬ opener.text <:+: s

/-- At the front of the text `d` is unmatched, and `before` stands before it. -/
inductive Unmatched (s : Text) : Text → Delimiter → Prop
  /-- A tag that is not closed. -/
  | unclosed {opener closer : Delimiter} {rest : Text} (hs : s = opener.text ++ rest)
      (hpair : opener.closer? = some closer) (hopen : ¬ closer.text <:+: rest) : Unmatched s [] opener
  /-- Between the opening delimiter and the first one that closes it. -/
  | inTag {opener closer d : Delimiter} {rest inner before : Text} (hs : s = opener.text ++ rest)
      (hpair : opener.closer? = some closer) (hclose : Leftmost (· = closer) rest inner closer)
      (hd : Leftmost (fun _ => True) inner before d) : Unmatched s (opener.text ++ before) d
  /-- Before the next tag. -/
  | inText {d : Delimiter} {text before : Text} (htext : UpToTag s text)
      (hd : Leftmost (fun _ => True) text before d) : Unmatched s before d

/-! ## One cut -/

theorem opensTag_iff_opener {s : Text} :
    opensTag s = true ↔ ∃ opener : Delimiter, opener.closer?.isSome ∧ opener.text <+: s := by
  constructor
  · intro h
    obtain ⟨x, t, rfl, rfl | rfl⟩ := opensTag_iff.mp h
    · exact ⟨.exprOpen, rfl, t, rfl⟩
    · exact ⟨.stmtOpen, rfl, t, rfl⟩
  · intro h
    obtain ⟨opener, hopener, t, rfl⟩ := h
    cases opener with
    | exprOpen => rfl
    | stmtOpen => rfl
    | exprClose => cases hopener
    | stmtClose => cases hopener

/-- A text that opens a tag has no literal text in front. -/
theorem UpToTag.eq_nil {s text : Text} (h : UpToTag s text) (ho : opensTag s = true) : text = [] := by
  obtain ⟨opener, hopener, hfront⟩ := opensTag_iff_opener.mp ho
  rcases h with ⟨opener', h⟩ | ⟨-, h⟩
  · exact ((Delimiter.leftmost_front_iff hopener hfront).mp h).1
  · exact absurd hfront.isInfix (h opener hopener)

/-- Where no tag opens, the character is part of the text before the next tag. -/
theorem upToTag_cons {c : Char} {s text : Text} (ho : ¬ opensTag (c :: s) = true) :
    UpToTag (c :: s) text ↔ ∃ later, text = c :: later ∧ UpToTag s later := by
  have hnot (d : Delimiter) (hd : d.closer?.isSome) : ¬ d.text <+: c :: s :=
    fun h => ho (opensTag_iff_opener.mpr ⟨d, hd, h⟩)
  constructor
  · intro h
    rcases h with ⟨opener, h⟩ | ⟨rfl, h⟩
    · obtain ⟨later, rfl, hlater⟩ := (Delimiter.leftmost_cons hnot).mp h
      exact ⟨later, rfl, Or.inl ⟨opener, hlater⟩⟩
    · exact ⟨s, rfl, Or.inr ⟨rfl, fun d hd hin => h d hd (List.infix_cons hin)⟩⟩
  · intro h
    obtain ⟨later, rfl, ⟨opener, h⟩ | ⟨rfl, h⟩⟩ := h
    · exact Or.inl ⟨opener, (Delimiter.leftmost_cons hnot).mpr ⟨later, rfl, h⟩⟩
    · refine Or.inr ⟨rfl, fun d hd hin => ?_⟩
      rcases List.infix_cons_iff.mp hin with hin | hin
      · exact hnot d hd hin
      · exact h d hd hin

theorem upToTag_iff {s text : Text} : UpToTag s text ↔ (splitContent s).1 = text := by
  induction s generalizing text with
  | nil =>
    constructor
    · intro h
      rcases h with ⟨opener, h⟩ | ⟨rfl, -⟩
      · exact absurd h Delimiter.not_leftmost_nil
      · rfl
    · intro h
      exact Or.inr ⟨h.symm, fun opener _ h => Delimiter.text_ne_nil opener (List.infix_nil.mp h)⟩
  | cons c s ih =>
    rw [splitContent]
    split
    · rename_i ho
      constructor
      · intro h
        exact (h.eq_nil ho).symm
      · intro h
        subst h
        obtain ⟨opener, hopener, hfront⟩ := opensTag_iff_opener.mp ho
        exact Or.inl ⟨opener, Delimiter.leftmost_front hopener hfront⟩
    · rename_i ho
      rw [upToTag_cons ho]
      constructor
      · intro h
        obtain ⟨later, rfl, h⟩ := h
        rw [ih.mp h]
      · intro h
        exact ⟨_, h.symm, ih.mpr rfl⟩

theorem cutTag_eq_unmatched_iff {opener closer d : Delimiter} {make : Text → Lexeme} {s before : Text} :
    cutTag opener closer make s = .unmatched before d ↔
      (¬ closer.text <:+: s ∧ before = [] ∧ d = opener) ∨
      ∃ inner within, Leftmost (· = closer) s inner closer ∧ Leftmost (fun _ => True) inner within d ∧
        before = opener.text ++ within := by
  rw [cutTag]
  split
  · rename_i hnone
    have hopen := Delimiter.splitAt?_eq_none_iff.mp hnone
    constructor
    · intro h
      cases h
      exact Or.inl ⟨hopen, rfl, rfl⟩
    · intro h
      rcases h with ⟨-, rfl, rfl⟩ | ⟨inner, within, hclose, -⟩
      · rfl
      · obtain ⟨rest, hsome⟩ := Delimiter.exists_splitAt?_iff.mpr hclose
        rw [hnone] at hsome
        cases hsome
  · rename_i inner rest hsome
    have hclose := Delimiter.exists_splitAt?_iff.mp ⟨rest, hsome⟩
    have hclosed : closer.text <:+: s := by
      by_contra hopen
      rw [Delimiter.splitAt?_eq_none_iff.mpr hopen] at hsome
      cases hsome
    constructor
    · intro h
      split at h
      · rename_i within d' hfirst
        cases h
        exact Or.inr ⟨inner, within, hclose, Delimiter.firstIn?_eq_some_iff.mp hfirst, rfl⟩
      · cases h
    · intro h
      rcases h with ⟨hopen, -⟩ | ⟨inner', within, hclose', hd, rfl⟩
      · exact absurd hclosed hopen
      · obtain ⟨rfl, -⟩ := hclose.unique hclose'
        rw [Delimiter.firstIn?_eq_some_iff.mpr hd]

theorem cut_opener {opener closer : Delimiter} (h : opener.closer? = some closer) (s : Text) :
    ∃ make, cut (opener.text ++ s) = cutTag opener closer make s := by
  cases opener with
  | exprOpen =>
    cases h
    exact ⟨.expression, rfl⟩
  | stmtOpen =>
    cases h
    exact ⟨.statement, rfl⟩
  | exprClose => cases h
  | stmtClose => cases h

theorem unmatched_tag_iff {opener closer d : Delimiter} {rest before : Text} (hpair : opener.closer? = some closer) :
    Unmatched (opener.text ++ rest) before d ↔
      (¬ closer.text <:+: rest ∧ before = [] ∧ d = opener) ∨
      ∃ inner within, Leftmost (· = closer) rest inner closer ∧ Leftmost (fun _ => True) inner within d ∧
        before = opener.text ++ within := by
  -- The tag at the front has one opening delimiter, and what follows it is `rest`.
  have front {opener' : Delimiter} {rest' : Text} (hs : opener.text ++ rest = opener'.text ++ rest') :
      opener' = opener ∧ rest' = rest := by
    obtain ⟨htext, hrest⟩ := List.append_inj hs (by simp [Delimiter.length_text])
    exact ⟨(Delimiter.text_injective htext).symm, hrest.symm⟩
  constructor
  · intro h
    cases h with
    | unclosed hs hpair' hopen =>
      obtain ⟨rfl, rfl⟩ := front hs
      obtain rfl := Option.some.inj (hpair.symm.trans hpair')
      exact Or.inl ⟨hopen, rfl, rfl⟩
    | inTag hs hpair' hclose hd =>
      obtain ⟨rfl, rfl⟩ := front hs
      obtain rfl := Option.some.inj (hpair.symm.trans hpair')
      exact Or.inr ⟨_, _, hclose, hd, rfl⟩
    | inText htext hd =>
      have hopens : opensTag (opener.text ++ rest) = true :=
        opensTag_iff_opener.mpr ⟨opener, Option.isSome_of_eq_some hpair, rest, rfl⟩
      obtain rfl := htext.eq_nil hopens
      exact absurd hd Delimiter.not_leftmost_nil
  · intro h
    rcases h with ⟨hopen, rfl, rfl⟩ | ⟨inner, within, hclose, hd, rfl⟩
    · exact .unclosed rfl hpair hopen
    · exact .inTag rfl hpair hclose hd

theorem unmatched_text_iff {s before : Text} {d : Delimiter} (ho : ¬ opensTag s = true) :
    Unmatched s before d ↔ Leftmost (fun _ => True) (splitContent s).1 before d := by
  have hnot {opener closer : Delimiter} {rest : Text} (hs : s = opener.text ++ rest)
      (hpair : opener.closer? = some closer) : False :=
    ho (opensTag_iff_opener.mpr ⟨opener, Option.isSome_of_eq_some hpair, rest, hs.symm⟩)
  constructor
  · intro h
    cases h with
    | unclosed hs hpair _ => exact (hnot hs hpair).elim
    | inTag hs hpair _ _ => exact (hnot hs hpair).elim
    | inText htext hd => rwa [upToTag_iff.mp htext]
  · exact .inText (upToTag_iff.mpr rfl)

/-- A cut fails at the delimiter that is unmatched at the front, and only there. -/
theorem cut_eq_unmatched_iff {s before : Text} {d : Delimiter} : cut s = .unmatched before d ↔ Unmatched s before d := by
  by_cases ho : opensTag s = true
  · obtain ⟨opener, hopener, rest, rfl⟩ := opensTag_iff_opener.mp ho
    obtain ⟨closer, hpair⟩ := Option.isSome_iff_exists.mp hopener
    obtain ⟨make, hcut⟩ := cut_opener hpair rest
    rw [hcut, cutTag_eq_unmatched_iff, unmatched_tag_iff hpair]
  · rw [cut_content (by simpa using ho), unmatched_text_iff ho, ← Delimiter.firstIn?_eq_some_iff]
    cases Delimiter.firstIn? (splitContent s).1 with
    | none => simp
    | some found => simp [Prod.ext_iff]

/-- What stands before the delimiter at fault is the front of the text. -/
theorem Unmatched.before_isPrefix {s before : Text} {d : Delimiter} (h : Unmatched s before d) : before <+: s := by
  cases h with
  | unclosed _ _ _ => exact List.nil_prefix
  | inTag hs _ hclose hd =>
    rw [hs, List.prefix_append_right_inj]
    exact (List.prefix_append _ _).trans (hd.2.1.trans ((List.prefix_append _ _).trans hclose.2.1))
  | inText htext hd =>
    have hfront := (List.prefix_append _ _).trans hd.2.1
    rcases htext with ⟨opener, h⟩ | ⟨rfl, -⟩
    · exact hfront.trans ((List.prefix_append _ _).trans h.2.1)
    · exact hfront

/-- Two delimiters that overlap: the one that begins first is found. -/
example : cut "a %\x7d\x7d".toList = .unmatched "a ".toList .stmtClose := by decide

/-! ## What a stream answers -/

/-- The tokens of a scan as answers, and the failure as the last one. -/
def Scan.answers (scan : Scan) : List (Except Error Token) :=
  scan.tokens.map Except.ok ++ scan.failure.toList.map Except.error

theorem Scan.answers_after (ts : List Token) (scan : Scan) :
    (scan.after ts).answers = ts.map Except.ok ++ scan.answers := by
  rw [answers, after, List.map_append, List.append_assoc]
  rfl

namespace Stream

/-- Counting from the start of the template comes to the line that the stream has kept. -/
theorem lineOf_eq (s : Stream) {before behind : Text} (h : s.rest = before ++ behind) :
    Text.lineOf s.template (s.offset + Text.bytes before) = s.line + Text.lineBreaks before := by
  obtain ⟨past, ht, ho, hl⟩ := s.sound
  rw [ht, ho, hl, h, ← List.append_assoc, ← Text.bytes_append, Text.lineOf_bytes, Text.lineBreaks_append,
    Nat.add_assoc]

/-- What the stream has yet to answer. -/
def left (s : Stream) : List (Except Error Token) :=
  if s.failed = true then [] else (scanFrom s.offset s.line s.rest).answers

/-- One request is answered with the first of what is left, and leaves the others. -/
theorem next_eq (s : Stream) : s.next.1 = s.left.head? ∧ s.next.2.left = s.left.tail := by
  by_cases hf : s.failed = true
  · rw [next_of_failed hf, left, if_pos hf]
    exact ⟨rfl, rfl⟩
  by_cases hs : s.rest = []
  · rw [next_of_end hs, left, if_neg hf, hs, scanFrom_nil]
    exact ⟨rfl, rfl⟩
  rw [next, if_neg hf, dif_neg hs]
  split
  · rename_i before d hcut
    rw [left, if_neg hf, scanFrom_unmatched _ _ hs hcut]
    refine ⟨?_, if_pos rfl⟩
    obtain ⟨behind, hrest⟩ := (cut_eq_unmatched_iff.mp hcut).before_isPrefix
    rw [s.lineOf_eq hrest.symm]
    rfl
  · rename_i l rest hcut
    rw [left, if_neg hf, scanFrom_token _ _ hs hcut, Scan.answers_after]
    exact ⟨rfl, if_neg hf⟩

theorem answer_eq (s : Stream) (n : Nat) : s.answer n = s.left[n]? := by
  induction n generalizing s with
  | zero => rw [answer_zero, (next_eq s).1, List.head?_eq_getElem?]
  | succ n ih => rw [answer_succ, ih, (next_eq s).2, List.getElem?_tail]

/-- A stream answers with what a scan of the template finds, and then with nothing. -/
theorem answer_start (t : Text) (n : Nat) : (start t).answer n = (scan t).answers[n]? := answer_eq (start t) n

end Stream

/-- A template that cannot be cut has one fault. The stream answers with the tokens before it, once with
    the fault, and then with nothing; the fault names the delimiter that is unmatched where the tokens
    end, with its line. -/
theorem readAll_fails_once {t : Text} (h : ∀ ts, readAll t ≠ .ok ts) :
    ∃ (ts : List Token) (rest before : Text) (d : Delimiter),
      t = Lexeme.join (ts.map lexeme) ++ rest ∧ Unmatched rest before d ∧
      let fault := Error.unmatched d (1 + Text.lineBreaks (Lexeme.join (ts.map lexeme) ++ before))
      readAll t = .error fault ∧
      ∀ n, (Stream.start t).answer n = (ts.map Except.ok ++ [Except.error fault])[n]? := by
  obtain ⟨ls, rest, rfl, hls, hstop⟩ := exists_inFront t
  have hscan : scan (Lexeme.join ls ++ rest) = _ := scanFrom_join 0 1 hls
  rcases hstop with rfl | ⟨hne, before, d, hcut⟩
  · rw [scanFrom_nil, Scan.after_nil] at hscan
    exact absurd (readAll_eq_ok_iff.mpr hscan) (h _)
  · rw [scanFrom_unmatched _ _ hne hcut, Scan.after_nil, Nat.add_assoc, ← Text.lineBreaks_append] at hscan
    refine ⟨place 0 1 ls, rest, before, d, by rw [map_lexeme_place], cut_eq_unmatched_iff.mp hcut, ?_, fun n => ?_⟩
    · rw [readAll_eq_error_iff, hscan, map_lexeme_place]
    · rw [Stream.answer_start, hscan, map_lexeme_place]
      rfl

/-- After a tag and a line break, the statement's closing delimiter comes before the expression's. -/
theorem readAll_fails_once_overlap :
    (∀ ts, readAll "\x7b\x7b a \x7d\x7d\nb %\x7d\x7d".toList ≠ .ok ts) ∧
    readAll "\x7b\x7b a \x7d\x7d\nb %\x7d\x7d".toList = .error (.unmatched .stmtClose 2) ∧
    ∃ (ts : List Token) (rest before : Text) (d : Delimiter),
      "\x7b\x7b a \x7d\x7d\nb %\x7d\x7d".toList = Lexeme.join (ts.map lexeme) ++ rest ∧ Unmatched rest before d ∧
      let fault := Error.unmatched d (1 + Text.lineBreaks (Lexeme.join (ts.map lexeme) ++ before))
      readAll "\x7b\x7b a \x7d\x7d\nb %\x7d\x7d".toList = .error fault ∧
      ∀ n, (Stream.start "\x7b\x7b a \x7d\x7d\nb %\x7d\x7d".toList).answer n =
        (ts.map Except.ok ++ [Except.error fault])[n]? := by
  have hfault : readAll "\x7b\x7b a \x7d\x7d\nb %\x7d\x7d".toList = .error (.unmatched .stmtClose 2) := by decide +kernel
  have hnot (ts : List Token) : readAll "\x7b\x7b a \x7d\x7d\nb %\x7d\x7d".toList ≠ .ok ts := by
    rw [hfault]
    simp
  exact ⟨hnot, hfault, readAll_fails_once hnot⟩

end Token

end MailMerge
