/-
  MailMerge.Proofs.Resuming — reading goes on in the middle of a template as it does at its beginning.

  `Draft.resume` reads the rest of a template, of which a draft has taken the first part. It
  depends on what came before in three ways, and each is a law:
  - `resume_join`: a row of lexemes in front of the rest is taken first.
  - `resume_later`: places that are further on are the same further on in an error.
  - `resume_above`: nodes before all others stay there, and change neither the other nodes nor
    an error. What carries it is `step_above`: no step looks at the nodes before.
  Together: after a part that leaves no block open, the rest is read as if it stood alone
  (`resume_eq_read`).
-/

import MailMerge.Proofs.Drafts

namespace MailMerge

/-! ## Later places -/

/-- The same error further on in a template, by a number of lines. -/
def Error.later (n : Nat) : Error → Error
  | .unmatched delimiter line => .unmatched delimiter (line + n)
  | .malformed fault line => .malformed fault (line + n)
  | e => e

theorem Error.later_later (n m : Nat) (e : Error) : (e.later n).later m = e.later (m + n) := by
  cases e with
  | unmatched delimiter line => exact congrArg (Error.unmatched delimiter) (by omega)
  | malformed fault line => exact congrArg (Error.malformed fault) (by omega)
  | _ => rfl

namespace Token

/-- The same token further on in a template, by bytes and lines. -/
def later (k n : Nat) (tok : Token) : Token := ⟨tok.lexeme, tok.offset + k, tok.line + n⟩

def Scan.later (k n : Nat) (scan : Scan) : Scan := ⟨scan.tokens.map (Token.later k n), scan.failure.map (Error.later n)⟩

theorem place_later (k n offset line : Nat) (ls : List Lexeme) :
    place (offset + k) (line + n) ls = (place offset line ls).map (later k n) := by
  induction ls generalizing offset line with
  | nil => rfl
  | cons l ls ih =>
    rw [place, place, List.map_cons, ← ih]
    congr 2 <;> omega

/-- A scan that begins further on finds the same, further on. -/
theorem scanFrom_later (k n offset line : Nat) (s : Text) :
    scanFrom (offset + k) (line + n) s = (scanFrom offset line s).later k n := by
  obtain ⟨ls, rest, rfl, hls, hstop⟩ := exists_inFront s
  rw [scanFrom_join _ _ hls, scanFrom_join _ _ hls, place_later]
  rcases hstop with rfl | ⟨hne, before, d, hcut⟩
  · rw [scanFrom_nil, scanFrom_nil]
    simp [Scan.after, Scan.later]
  · rw [scanFrom_unmatched _ _ hne hcut, scanFrom_unmatched _ _ hne hcut]
    simp only [Scan.after, Scan.later, Error.later, List.append_nil, Option.map_some]
    congr 3
    omega

end Token

namespace Draft

theorem tokens_later (k n : Nat) (d : Draft) (ts : List Token) :
    d.tokens (ts.map (Token.later k n)) = (d.tokens ts).mapError (Error.later n) := by
  induction ts generalizing d with
  | nil => rfl
  | cons tok ts ih =>
    have hlexeme : (Token.later k n tok).lexeme = tok.lexeme := rfl
    rw [List.map_cons, tokens, tokens, token_eq, token_eq, hlexeme]
    cases d.step tok.lexeme with
    | error f => rfl
    | ok d' => exact ih d'

theorem finish_later (n line : Nat) (d : Draft) : d.finish (line + n) = (d.finish line).mapError (Error.later n) := by
  obtain ⟨nodes, _ | ⟨level, levels⟩⟩ := d <;> rfl

/-! ## Nodes before all others -/

/-- The levels with more nodes before the outermost block. -/
def levelsAbove (base : List Node) : List Level → List Level
  | [] => []
  | [⟨opened, before⟩] => [⟨opened, before ++ base⟩]
  | level :: level' :: levels => level :: levelsAbove base (level' :: levels)

/-- The draft with more nodes before all of its own, latest first. -/
def above (base : List Node) : Draft → Draft
  | ⟨nodes, []⟩ => ⟨nodes ++ base, []⟩
  | ⟨nodes, level :: levels⟩ => ⟨nodes, levelsAbove base (level :: levels)⟩

section
variable (base : List Node)

theorem length_levelsAbove (levels : List Level) : (levelsAbove base levels).length = levels.length := by
  fun_induction levelsAbove base levels with
  | case1 => rfl
  | case2 => rfl
  | case3 level level' levels ih =>
    rw [List.length_cons, ih]
    rfl

theorem length_levels_above (d : Draft) : (d.above base).levels.length = d.levels.length := by
  obtain ⟨nodes, _ | ⟨level, levels⟩⟩ := d
  · rfl
  · exact length_levelsAbove base _

theorem add_above (d : Draft) (n : Node) : (d.above base).add n = (d.add n).above base := by
  obtain ⟨nodes, _ | ⟨level, levels⟩⟩ := d <;> rfl

theorem enter_above (d : Draft) (opened : Opened) : (d.above base).enter opened = (d.enter opened).above base := by
  obtain ⟨nodes, _ | ⟨level, levels⟩⟩ := d <;> rfl

theorem open?_above (d : Draft) (opened : Except Fault Opened) :
    (d.above base).open? opened = (d.open? opened).map (above base) := by
  rw [open?, open?, length_levels_above]
  by_cases h : maxNesting ≤ d.levels.length
  · rw [if_pos h, if_pos h]
    rfl
  · rw [if_neg h, if_neg h]
    cases opened with
    | error f => rfl
    | ok o => exact congrArg Except.ok (enter_above base d o)

/-- A move of the innermost block: with one block open the nodes before it are those before all
    others, with more they are not looked at. -/
theorem otherwise_above (d : Draft) (rest : Text) : (d.above base).otherwise rest = (d.otherwise rest).map (above base) := by
  rcases d with ⟨nodes, _ | ⟨⟨_ | _ | _, before⟩, _ | ⟨level, levels⟩⟩⟩ <;> cases rest <;> rfl

theorem otherwiseIf_above (d : Draft) (c : Text) : (d.above base).otherwiseIf c = (d.otherwiseIf c).map (above base) := by
  rcases d with ⟨nodes, _ | ⟨⟨_ | _ | _, before⟩, _ | ⟨level, levels⟩⟩⟩ <;> cases c <;> rfl

theorem close_above (d : Draft) (keyword : Text) : (d.above base).close keyword = (d.close keyword).map (above base) := by
  rcases d with ⟨nodes, _ | ⟨⟨opened, before⟩, levels⟩⟩
  · rfl
  · by_cases h : keyword = "end".toList ++ opened.block.keyword
    · cases levels with
      | nil =>
        simp only [above, levelsAbove, close, if_pos h]
        rfl
      | cons level levels =>
        simp only [above, levelsAbove, close, if_pos h]
        rfl
    · cases levels with
      | nil =>
        simp only [above, levelsAbove, close, if_neg h]
        rfl
      | cons level levels =>
        simp only [above, levelsAbove, close, if_neg h]
        rfl

theorem step_above (d : Draft) (l : Lexeme) : (d.above base).step l = (d.step l).map (above base) := by
  cases l with
  | content s => exact congrArg Except.ok (add_above base d _)
  | expression inner => exact congrArg Except.ok (add_above base d _)
  | statement inner =>
    rw [step, step, statement, statement]
    cases Statement.read (Text.trim inner) with
    | opensCond c => exact open?_above base d _
    | opensLoop header => exact open?_above base d _
    | otherwise rest => exact otherwise_above base d rest
    | otherwiseIf c => exact otherwiseIf_above base d c
    | closes keyword => exact close_above base d keyword
    | unknown => rfl

theorem tokens_above (d : Draft) (ts : List Token) : (d.above base).tokens ts = (d.tokens ts).map (above base) := by
  induction ts generalizing d with
  | nil => rfl
  | cons tok ts ih =>
    rw [tokens, tokens, token_eq, token_eq, step_above]
    cases d.step tok.lexeme with
    | error f => rfl
    | ok d' => exact ih d'

theorem finish_above (d : Draft) (line : Nat) : (d.above base).finish line = (d.finish line).map (base.reverse ++ ·) := by
  rcases d with ⟨nodes, _ | ⟨level, _ | ⟨level', levels⟩⟩⟩
  · exact congrArg Except.ok List.reverse_append
  · rfl
  · rfl

end

/-! ## The rest of a template -/

/-- The tree of a template whose first part the draft has taken: the rest begins at the given byte and line. -/
def resume (d : Draft) (offset line : Nat) (s : Text) : Except Error (List Node) :=
  let scan := Token.scanFrom offset line s
  match d.tokens scan.tokens, scan.failure with
  | .error e, _ => .error e
  | .ok _, some e => .error e
  | .ok d, none => d.finish (line + Text.lineBreaks s)

theorem read_eq_resume (t : Text) : Tree.read t = empty.resume 0 1 t := rfl

/-- A row of lexemes in front is taken first. -/
theorem resume_join {d d' : Draft} {ls : List Lexeme} {rest : Text} (offset line : Nat) (h : Lexeme.InFront ls rest)
    (hrun : d.run ls = .ok d') :
    d.resume offset line (Lexeme.join ls ++ rest) =
      d'.resume (offset + Text.bytes (Lexeme.join ls)) (line + Text.lineBreaks (Lexeme.join ls)) rest := by
  have htokens : d.tokens (Token.place offset line ls) = .ok d' := by
    rw [tokens_eq_ok_iff, Token.map_lexeme_place]
    exact hrun
  simp only [resume, Token.scanFrom_join _ _ h, Token.Scan.after, tokens_append _ htokens, Text.lineBreaks_append,
    Nat.add_assoc]

/-- At a place where no lexeme can be cut, reading fails. -/
theorem resume_unmatched (d : Draft) (offset line : Nat) {s before : Text} {delimiter : Delimiter} (hs : s ≠ [])
    (h : Token.cut s = .unmatched before delimiter) :
    d.resume offset line s = .error (.unmatched delimiter (line + Text.lineBreaks before)) := by
  simp only [resume, Token.scanFrom_unmatched _ _ hs h, tokens]

/-- Literal text at the front is taken first. -/
theorem resume_text (d : Draft) (offset line : Nat) {s t rest : Text} (hs : s ≠ [])
    (h : Token.cut s = .token (.content t) rest) :
    d.resume offset line s = (d.add (.text t)).resume (offset + Text.bytes t) (line + Text.lineBreaks t) rest := by
  obtain ⟨rfl, hlawful, hend⟩ := (Token.cut_eq_token_iff hs).mp h
  have hrow : Lexeme.InFront [.content t] rest := ⟨hlawful, hend, trivial⟩
  have := resume_join (d := d) offset line hrow rfl
  rwa [Lexeme.join_cons, Lexeme.join_nil, List.append_nil] at this

theorem resume_later (k n offset line : Nat) (d : Draft) (s : Text) :
    d.resume (offset + k) (line + n) s = (d.resume offset line s).mapError (Error.later n) := by
  have hline : line + n + Text.lineBreaks s = line + Text.lineBreaks s + n := by omega
  simp only [resume, Token.scanFrom_later, Token.Scan.later, tokens_later, hline, finish_later]
  cases d.tokens (Token.scanFrom offset line s).tokens with
  | error e => rfl
  | ok d' => cases (Token.scanFrom offset line s).failure <;> rfl

theorem resume_above (base : List Node) (d : Draft) (offset line : Nat) (s : Text) :
    (d.above base).resume offset line s = (d.resume offset line s).map (base.reverse ++ ·) := by
  simp only [resume, tokens_above]
  cases d.tokens (Token.scanFrom offset line s).tokens with
  | error e => rfl
  | ok d' =>
    cases (Token.scanFrom offset line s).failure with
    | some e => rfl
    | none => exact finish_above base d' _

/-- Where no block is open, the rest is read as if it stood alone, with its nodes after those before. -/
theorem resume_eq_read (nodes : List Node) (k n : Nat) (s : Text) :
    Draft.resume ⟨nodes, []⟩ k (1 + n) s = ((Tree.read s).mapError (Error.later n)).map (nodes.reverse ++ ·) := by
  have habove : (⟨nodes, []⟩ : Draft) = empty.above nodes := rfl
  rw [habove, resume_above, read_eq_resume, ← resume_later k n 0 1, Nat.zero_add]

end Draft

end MailMerge
