/-
  MailMerge.Proofs.Drafts — what one lexeme does to a draft, and what a row of them does.

  `Draft.step` is a token's effect without its line, and `Draft.run` that of a row. Proved:
  - `statement_eq_ok_iff`: a statement is taken exactly by the five moves of `Draft.Moves`.
  - `run_preserves`: what every step preserves, a run preserves.
  - `tokens_eq_ok_iff`, `tokens_eq_error_iff`: tokens do what their lexemes do; when they fail,
    they fail at the first lexeme that is not taken, with the line of its token.
  - `read_eq_ok_iff`: a template that can be read is cut into tokens that leave no block open;
    for one that cannot, `read_eq_of_tokens_error` and `read_eq_of_run` say what is wrong.
-/

import MailMerge.Proofs.Cutting
import MailMerge.Proofs.Outcomes
import MailMerge.Proofs.Statements
import MailMerge.Tree.Read

namespace MailMerge.Draft

open Statement (Says Header)

/-- The draft after one more lexeme. -/
def step (d : Draft) : Lexeme → Except Fault Draft
  | .content text => .ok (d.add (.text text))
  | .expression inner => .ok (d.add (.expr (.read (Text.trim inner))))
  | .statement inner => d.statement (Text.trim inner)

/-- The draft after a row of lexemes. -/
def run (d : Draft) : List Lexeme → Except Fault Draft
  | [] => .ok d
  | l :: ls =>
    match d.step l with
    | .ok d => d.run ls
    | .error f => .error f

/-! ## Statements -/

/-- What a statement can do to a draft. -/
inductive Moves (inner : Text) : Draft → Draft → Prop
  | openCond {d : Draft} {c : Text} : Says inner "if".toList c → c ≠ [] → d.levels.length < maxNesting →
      Moves inner d (d.enter (.branch [] (.read c)))
  | openLoop {d : Draft} {header item collection : Text} : Says inner "for".toList header →
      Header header item collection → d.levels.length < maxNesting →
      Moves inner d (d.enter (.loop item (.read collection)))
  | otherwise {nodes before : List Node} {done : List Branch} {test : Expr} {levels : List Level} :
      Says inner "else".toList [] →
      Moves inner ⟨nodes, ⟨.branch done test, before⟩ :: levels⟩
        ⟨[], ⟨.otherwise (⟨test, nodes.reverse⟩ :: done), before⟩ :: levels⟩
  | otherwiseIf {nodes before : List Node} {done : List Branch} {test : Expr} {levels : List Level} {c : Text} :
      Says inner "elseif".toList c → c ≠ [] →
      Moves inner ⟨nodes, ⟨.branch done test, before⟩ :: levels⟩
        ⟨[], ⟨.branch (⟨test, nodes.reverse⟩ :: done) (.read c), before⟩ :: levels⟩
  | close {nodes before : List Node} {opened : Opened} {levels : List Level} :
      Says inner ("end".toList ++ opened.block.keyword) [] →
      Moves inner ⟨nodes, ⟨opened, before⟩ :: levels⟩ ⟨opened.node nodes.reverse :: before, levels⟩

theorem condition_eq_ok_iff {keyword c : Text} {e : Expr} :
    condition keyword c = .ok e ↔ c ≠ [] ∧ e = .read c := by
  unfold condition
  cases c with
  | nil => simp
  | cons x c => simp [eq_comm]

theorem open?_eq_ok_iff {d d' : Draft} {opened : Except Fault Opened} :
    d.open? opened = .ok d' ↔ d.levels.length < maxNesting ∧ ∃ o, opened = .ok o ∧ d' = d.enter o := by
  unfold open?
  by_cases h : maxNesting ≤ d.levels.length
  · rw [if_pos h]
    simp [Nat.not_lt.mpr h]
  · rw [if_neg h]
    cases opened with
    | error f => simp [Except.map]
    | ok o => simp [Except.map, Nat.not_le.mp h, eq_comm]

theorem otherwise_eq_ok_iff {d d' : Draft} {rest : Text} :
    d.otherwise rest = .ok d' ↔ rest = [] ∧ ∃ nodes done test before levels,
      d = ⟨nodes, ⟨.branch done test, before⟩ :: levels⟩ ∧
        d' = ⟨[], ⟨.otherwise (⟨test, nodes.reverse⟩ :: done), before⟩ :: levels⟩ := by
  obtain ⟨nodes, levels⟩ := d
  rcases levels with _ | ⟨⟨_ | _ | _, before⟩, levels⟩
  · simp [otherwise]
  · cases rest with
    | nil => simp [otherwise, eq_comm]
    | cons c rest => simp [otherwise]
  · simp [otherwise]
  · simp [otherwise]

theorem otherwiseIf_eq_ok_iff {d d' : Draft} {c : Text} :
    d.otherwiseIf c = .ok d' ↔ c ≠ [] ∧ ∃ nodes done test before levels,
      d = ⟨nodes, ⟨.branch done test, before⟩ :: levels⟩ ∧
        d' = ⟨[], ⟨.branch (⟨test, nodes.reverse⟩ :: done) (.read c), before⟩ :: levels⟩ := by
  obtain ⟨nodes, levels⟩ := d
  rcases levels with _ | ⟨⟨_ | _ | _, before⟩, levels⟩
  · simp [otherwiseIf]
  · cases c with
    | nil => simp [otherwiseIf, condition, Except.map]
    | cons x c => simp [otherwiseIf, condition, Except.map, eq_comm]
  · cases c with
    | nil => simp [otherwiseIf, condition, Except.bind]
    | cons x c => simp [otherwiseIf, condition, Except.bind]
  · simp [otherwiseIf]

theorem close_eq_ok_iff {d d' : Draft} {keyword : Text} :
    d.close keyword = .ok d' ↔ ∃ nodes opened before levels,
      d = ⟨nodes, ⟨opened, before⟩ :: levels⟩ ∧ keyword = "end".toList ++ opened.block.keyword ∧
        d' = ⟨opened.node nodes.reverse :: before, levels⟩ := by
  obtain ⟨nodes, levels⟩ := d
  rcases levels with _ | ⟨⟨opened, before⟩, levels⟩
  · simp [close]
  · by_cases hk : keyword = "end".toList ++ opened.block.keyword
    · simp only [close, if_pos hk, Except.ok.injEq]
      constructor
      · intro heq
        subst heq
        exact ⟨nodes, opened, before, levels, rfl, hk, rfl⟩
      · intro h
        obtain ⟨_, _, _, _, heq, -, rfl⟩ := h
        cases heq
        rfl
    · simp only [close, if_neg hk, reduceCtorEq, false_iff]
      intro h
      obtain ⟨_, _, _, _, heq, hk', -⟩ := h
      cases heq
      exact hk hk'

/-- Exactly the moves are made. -/
theorem statement_eq_ok_iff {d d' : Draft} {inner : Text} :
    d.statement (Text.trim inner) = .ok d' ↔ Moves inner d d' := by
  constructor
  · intro h
    unfold statement at h
    split at h
    · rename_i c hread
      obtain ⟨hlen, o, ho, rfl⟩ := open?_eq_ok_iff.mp h
      obtain ⟨e, he, rfl⟩ := map_eq_ok_iff.mp ho
      obtain ⟨hc, rfl⟩ := condition_eq_ok_iff.mp he
      exact .openCond ((Statement.read_eq_iff (.opensCond c)).mp hread) hc hlen
    · rename_i header hread
      have hsaid := (Statement.read_eq_iff (.opensLoop header)).mp hread
      obtain ⟨hlen, o, ho, rfl⟩ := open?_eq_ok_iff.mp h
      obtain ⟨⟨item, collection⟩, hparts, rfl⟩ := map_eq_ok_iff.mp ho
      exact .openLoop hsaid ((Statement.loopHeader_eq_ok_iff hsaid.trimmed).mp hparts) hlen
    · rename_i rest hread
      obtain ⟨rfl, nodes, done, test, before, levels, rfl, rfl⟩ := otherwise_eq_ok_iff.mp h
      exact .otherwise ((Statement.read_eq_iff (.otherwise [])).mp hread)
    · rename_i c hread
      obtain ⟨hc, nodes, done, test, before, levels, rfl, rfl⟩ := otherwiseIf_eq_ok_iff.mp h
      exact .otherwiseIf ((Statement.read_eq_iff (.otherwiseIf c)).mp hread) hc
    · rename_i keyword hread
      obtain ⟨nodes, opened, before, levels, rfl, rfl, rfl⟩ := close_eq_ok_iff.mp h
      exact .close ((Statement.read_eq_iff (.closes opened.block.keyword)).mp hread)
    · cases h
  · intro h
    cases h with
    | openCond hsaid hc hlen =>
      rw [statement, (Statement.read_eq_iff (.opensCond _)).mpr hsaid]
      refine open?_eq_ok_iff.mpr ⟨hlen, _, ?_, rfl⟩
      exact map_eq_ok_iff.mpr ⟨_, condition_eq_ok_iff.mpr ⟨hc, rfl⟩, rfl⟩
    | openLoop hsaid hheader hlen =>
      rw [statement, (Statement.read_eq_iff (.opensLoop _)).mpr hsaid]
      refine open?_eq_ok_iff.mpr ⟨hlen, _, ?_, rfl⟩
      exact map_eq_ok_iff.mpr
        ⟨_, (Statement.loopHeader_eq_ok_iff hsaid.trimmed).mpr hheader, rfl⟩
    | otherwise hsaid =>
      rw [statement, (Statement.read_eq_iff (.otherwise [])).mpr hsaid]
      exact otherwise_eq_ok_iff.mpr ⟨rfl, _, _, _, _, _, rfl, rfl⟩
    | otherwiseIf hsaid hc =>
      rw [statement, (Statement.read_eq_iff (.otherwiseIf _)).mpr hsaid]
      exact otherwiseIf_eq_ok_iff.mpr ⟨hc, _, _, _, _, _, rfl, rfl⟩
    | close hsaid =>
      rw [statement, (Statement.read_eq_iff (.closes _)).mpr hsaid]
      exact close_eq_ok_iff.mpr ⟨_, _, _, _, rfl, rfl, rfl⟩

/-! ## Rows of lexemes -/

theorem run_cons {d d' : Draft} {l : Lexeme} {ls : List Lexeme} (h : d.step l = .ok d') :
    d.run (l :: ls) = d'.run ls := by
  rw [run, h]

theorem run_cons_eq_ok_iff {d d' : Draft} {l : Lexeme} {ls : List Lexeme} :
    d.run (l :: ls) = .ok d' ↔ ∃ d₁, d.step l = .ok d₁ ∧ d₁.run ls = .ok d' := by
  rw [run]
  cases d.step l <;> simp

/-- What every step preserves, a run preserves; it may speak of the lexemes taken so far. -/
theorem run_preserves {P : List Lexeme → Draft → Prop}
    (hstep : ∀ ls d l d', P ls d → d.step l = .ok d' → P (ls ++ [l]) d') {ls ms : List Lexeme} {d d' : Draft} (h : P ls d)
    (hrun : d.run ms = .ok d') : P (ls ++ ms) d' := by
  induction ms generalizing ls d with
  | nil =>
    cases hrun
    rwa [List.append_nil]
  | cons m ms ih =>
    obtain ⟨d₁, hm, hms⟩ := run_cons_eq_ok_iff.mp hrun
    rw [List.append_cons]
    exact ih (hstep ls d m d₁ h hm) hms

theorem run_append {d d' : Draft} {ls ms : List Lexeme} (h : d.run ls = .ok d') : d.run (ls ++ ms) = d'.run ms := by
  induction ls generalizing d with
  | nil =>
    cases h
    rfl
  | cons l ls ih =>
    obtain ⟨d₁, hl, hls⟩ := run_cons_eq_ok_iff.mp h
    rw [List.cons_append, run_cons hl]
    exact ih hls

/-- Of a row that is taken, all lexemes but the last are taken, and then the last. -/
theorem run_concat_eq_ok_iff {d d' : Draft} {l : Lexeme} {ls : List Lexeme} :
    d.run (ls ++ [l]) = .ok d' ↔ ∃ d₁, d.run ls = .ok d₁ ∧ d₁.step l = .ok d' := by
  induction ls generalizing d with
  | nil =>
    rw [List.nil_append, run_cons_eq_ok_iff]
    simp [run]
  | cons m ls ih =>
    simp only [List.cons_append, run_cons_eq_ok_iff, ih]
    constructor
    · rintro ⟨d₁, hm, d₂, hls, hl⟩
      exact ⟨d₂, ⟨d₁, hm, hls⟩, hl⟩
    · rintro ⟨d₂, ⟨d₁, hm, hls⟩, hl⟩
      exact ⟨d₁, hm, d₂, hls, hl⟩

theorem run_statement {d d' : Draft} {inner : Text} {ls : List Lexeme} (h : Moves inner d d') :
    d.run (.statement inner :: ls) = d'.run ls := run_cons (statement_eq_ok_iff.mpr h)

theorem token_eq (d : Draft) (tok : Token) :
    d.token tok = (d.step tok.lexeme).mapError (.malformed · tok.line) := by
  obtain ⟨l, offset, line⟩ := tok
  cases l <;> rfl

/-- Tokens are taken when their lexemes are. -/
theorem tokens_eq_ok_iff {d d' : Draft} {ts : List Token} :
    d.tokens ts = .ok d' ↔ d.run (ts.map Token.lexeme) = .ok d' := by
  induction ts generalizing d with
  | nil => simp [tokens, run]
  | cons tok ts ih =>
    rw [tokens, token_eq, List.map_cons, run]
    cases d.step tok.lexeme with
    | ok d₁ => exact ih
    | error f => simp [Except.mapError]

theorem tokens_append {d d' : Draft} {ts : List Token} (us : List Token) (h : d.tokens ts = .ok d') :
    d.tokens (ts ++ us) = d'.tokens us := by
  induction ts generalizing d with
  | nil =>
    cases h
    rfl
  | cons tok ts ih =>
    rw [tokens] at h
    rw [List.cons_append, tokens]
    cases htok : d.token tok with
    | error e =>
      rw [htok] at h
      cases h
    | ok d₁ =>
      rw [htok] at h
      exact ih h

/-- Tokens that are not all taken fail at the first one that is not, on its line. -/
theorem tokens_eq_error_iff {d : Draft} {ts : List Token} {e : Error} :
    d.tokens ts = .error e ↔ ∃ before tok after d' f, ts = before ++ tok :: after ∧
      d.run (before.map Token.lexeme) = .ok d' ∧ d'.step tok.lexeme = .error f ∧ e = .malformed f tok.line := by
  constructor
  · intro h
    induction ts generalizing d with
    | nil => cases h
    | cons tok ts ih =>
      rw [tokens, token_eq] at h
      cases hstep : d.step tok.lexeme with
      | error f =>
        rw [hstep] at h
        exact ⟨[], tok, ts, d, f, rfl, rfl, hstep, (Except.error.inj h).symm⟩
      | ok d₁ =>
        rw [hstep] at h
        obtain ⟨before, tok', after, d', f, rfl, hrun, hstep', he⟩ := ih h
        exact ⟨tok :: before, tok', after, d', f, rfl, by rw [List.map_cons, run_cons hstep, hrun], hstep', he⟩
  · intro h
    obtain ⟨before, tok, after, d', f, rfl, hrun, hstep, rfl⟩ := h
    rw [tokens_append _ (tokens_eq_ok_iff.mpr hrun), tokens, token_eq, hstep]
    rfl

/-! ## Templates -/

section
variable {t : Text}

/-- A template fails at the first token that is not taken, whatever is wrong after it. -/
theorem read_eq_of_tokens_error {e : Error} (h : empty.tokens (Token.scan t).tokens = .error e) :
    Tree.read t = .error e := by
  unfold Tree.read
  simp only [h]

/-- Of a template whose tokens are all taken, an unmatched delimiter is wrong or a block left open. -/
theorem read_eq_of_run {d : Draft} (h : empty.run ((Token.scan t).tokens.map Token.lexeme) = .ok d) :
    Tree.read t = match (Token.scan t).failure with
      | some e => .error e
      | none => d.finish (1 + Text.lineBreaks t) := by
  unfold Tree.read
  simp only [tokens_eq_ok_iff.mpr h]
  cases (Token.scan t).failure <;> rfl

/-- A template that can be read is cut into tokens that leave no block open. -/
theorem read_eq_ok_iff {T : List Node} :
    Tree.read t = .ok T ↔
      ∃ ts nodes, Token.readAll t = .ok ts ∧ empty.run (ts.map Token.lexeme) = .ok ⟨nodes, []⟩ ∧ T = nodes.reverse := by
  constructor
  · intro h
    cases htokens : empty.tokens (Token.scan t).tokens with
    | error e =>
      rw [read_eq_of_tokens_error htokens] at h
      cases h
    | ok d =>
      have hrun := tokens_eq_ok_iff.mp htokens
      rw [read_eq_of_run hrun] at h
      cases hf : (Token.scan t).failure with
      | some e =>
        rw [hf] at h
        cases h
      | none =>
        rw [hf] at h
        have hall : Token.readAll t = .ok (Token.scan t).tokens := Token.readAll_eq_ok_iff.mpr (by rw [← hf])
        obtain ⟨nodes, _ | ⟨level, levels⟩⟩ := d
        · exact ⟨_, nodes, hall, hrun, (Except.ok.inj h).symm⟩
        · cases h
  · intro ⟨ts, nodes, hall, hrun, hT⟩
    have hscan := Token.readAll_eq_ok_iff.mp hall
    rw [read_eq_of_run (by rw [hscan]; exact hrun), hscan, hT]
    rfl

/-- A row of lexemes that leaves no block open can be read. -/
theorem read_join {ls : List Lexeme} {nodes : List Node} (h : Lexeme.InFront ls []) (hrun : empty.run ls = .ok ⟨nodes, []⟩) :
    Tree.read (Lexeme.join ls) = .ok nodes.reverse := by
  refine read_eq_ok_iff.mpr ⟨_, nodes, Token.readAll_join h, ?_, rfl⟩
  rw [Token.map_lexeme_place]
  exact hrun

end

end MailMerge.Draft
