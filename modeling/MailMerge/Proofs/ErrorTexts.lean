/-
  MailMerge.Proofs.ErrorTexts — the texts that errors carry are texts of the template.

  The errors of a rendering carry the text of an expression (`Error.expression?`), and that of a
  comparison has a further error inside it, which may be that of a comparison again
  (`Error.Involves`).

  Proved: in all expressions that are read, the texts of the parts are trimmed, and each is a
  smaller piece of the text around it (`Expr.nests_read`). So an evaluation fails with an error
  about a piece of the expression's text, and inside that of a comparison is one about a smaller
  piece (`Expr.failsOnly_eval_about`). What a rendering evaluates was read from the body of a tag
  (`Tree.exprs_of_derives`). Together: `Merger.error_texts_nest`.
-/

import MailMerge.Proofs.Calls
import MailMerge.Proofs.Preflight
import MailMerge.Proofs.Printing

namespace MailMerge

/-- The text is a piece of the other, and not all of it. -/
def Text.Within (s t : Text) : Prop := s <:+: t ∧ s.length < t.length

namespace Text

theorem Within.ne {s t : Text} (h : s.Within t) : s ≠ t := by
  rintro rfl
  exact Nat.lt_irrefl _ h.2

theorem Within.of_isInfix {r s t : Text} (hr : r <:+: s) (h : s.Within t) : r.Within t :=
  ⟨hr.trans h.1, Nat.lt_of_le_of_lt hr.length_le h.2⟩

theorem within_trim {s t : Text} (h : s.Within t) : (trim s).Within t := Within.of_isInfix (trim_isInfix s) h

end Text

open Text (Trimmed Within)

/-! ## Parts of expressions -/

/-- The text of every part is trimmed and within the text around it. -/
inductive Expr.Nests : Expr → Prop
  | call {source name : Text} {arg : Expr} :
      Trimmed source → arg.source.Within source → Nests arg → Nests (.call source name arg)
  | var {source : Text} {path : List Text} {fallback : Option Value} :
      Trimmed source → Nests (.var source path fallback)
  | compare {source : Text} {op : Op} {left right : Expr} : Trimmed source → left.source.Within source →
      right.source.Within source → Nests left → Nests right → Nests (.compare source op left right)
  | literal {source : Text} {v : Value} : Trimmed source → Nests (.literal source v)
  | unsupported {source : Text} : Trimmed source → Nests (.unsupported source)

theorem Call.within_of_split? {s name arg : Text} (h : split? s = some (name, arg)) : arg.Within s := by
  refine ⟨?_, split?_shorter h⟩
  rw [split?_eq_some h]
  exact ⟨name ++ ['('], [')'], by simp⟩

theorem Operator.within_of_split? {s : Text} {p : Split} (h : split? s = some p) :
    p.before.Within s ∧ p.after.Within s := by
  obtain ⟨hbefore, hafter⟩ := split?_shorter h
  obtain ⟨hs, -⟩ := split?_eq_some h
  refine ⟨⟨?_, hbefore⟩, ⟨?_, hafter⟩⟩
  · rw [hs, List.append_assoc]
    exact (List.prefix_append _ _).isInfix
  · rw [hs]
    exact (List.suffix_append _ _).isInfix

theorem Expr.Nests.trimmed {e : Expr} (h : e.Nests) : Trimmed e.source := by
  cases h with
  | call h | var h | compare h | literal h | unsupported h => exact h

/-- What is read nests: arguments and operands are pieces of the text that they are cut from. -/
theorem Expr.nests_read (s : Text) : (read s).Nests := by
  fun_induction read s with
  | case1 s source name arg hcall ih =>
    refine .call (Text.trimmed_trim s) ?_ ih
    rw [source_read]
    exact Text.within_trim (Call.within_of_split? hcall)
  | case2 s source _ path fallback _ => exact .var (Text.trimmed_trim s)
  | case3 s source _ _ p hop ihbefore ihafter =>
    obtain ⟨hbefore, hafter⟩ := Operator.within_of_split? hop
    refine .compare (Text.trimmed_trim s) ?_ ?_ ihbefore ihafter
    · rw [source_read]
      exact Text.within_trim hbefore
    · rw [source_read]
      exact Text.within_trim hafter
  | case4 s source _ _ _ v _ => exact .literal (Text.trimmed_trim s)
  | case5 s source _ _ _ _ => exact .unsupported (Text.trimmed_trim s)

/-! ## Errors about texts -/

namespace Error

/-- The text of an expression that the error carries. -/
def expression? : Error → Option Text
  | .unresolved s | .comparison s _ | .unknownFunction _ s | .unimplemented s | .notIterable s => some s
  | _ => none

/-- The errors that come of an expression with this text, when no function fails. -/
inductive About : Text → Error → Prop
  | whole {s : Text} {e : Error} : Trimmed s → e.expression? = some s → (∀ source cause, e ≠ .comparison source cause) →
      About s e
  | incomparable {s : Text} {left right : Kind} : Trimmed s → About s (.comparison s (.incomparable left right))
  /-- An operand of the comparison has no value. -/
  | operand {s part : Text} {e : Error} : Trimmed s → part.Within s → About part e → About s (.comparison s e)
  /-- The argument of the call has no value. -/
  | argument {s part : Text} {e : Error} : part.Within s → About part e → About s e

section
variable {s : Text} {e : Error}

theorem About.texts (h : About s e) {cause : Error} (hcause : e.Involves cause) :
    ∀ x ∈ cause.expression?, Trimmed x ∧ x <:+: s := by
  induction h with
  | @whole s e hs hcarries hplain =>
    intro x hx
    cases hcause with
    | self =>
      rw [hcarries] at hx
      cases hx
      exact ⟨hs, List.infix_rfl⟩
    | wrapped source _ => exact absurd rfl (hplain source _)
  | incomparable hs =>
    intro x hx
    cases hcause with
    | self =>
      cases hx
      exact ⟨hs, List.infix_rfl⟩
    | wrapped _ hcause =>
      cases hcause
      cases hx
  | operand hs hpart _ ih =>
    intro x hx
    cases hcause with
    | self =>
      cases hx
      exact ⟨hs, List.infix_rfl⟩
    | wrapped _ hcause =>
      obtain ⟨htrimmed, hinfix⟩ := ih hcause x hx
      exact ⟨htrimmed, hinfix.trans hpart.1⟩
  | argument hpart _ ih =>
    intro x hx
    obtain ⟨htrimmed, hinfix⟩ := ih hcause x hx
    exact ⟨htrimmed, hinfix.trans hpart.1⟩

theorem About.not_incomparable (h : About s e) (left right : Kind) : e ≠ .incomparable left right := by
  induction h with
  | whole _ hcarries _ =>
    rintro rfl
    cases hcarries
  | incomparable => exact nofun
  | operand => exact nofun
  | argument _ _ ih => exact ih

/-- Inside the error of a comparison is one about a smaller piece of its text. -/
theorem About.within (h : About s e) {source : Text} {cause : Error} (hcause : e.Involves (.comparison source cause)) :
    ∀ x ∈ cause.expression?, x.Within source := by
  induction h with
  | whole _ _ hplain =>
    cases hcause with
    | self => exact absurd rfl (hplain source cause)
    | wrapped source' _ => exact absurd rfl (hplain source' _)
  | incomparable =>
    cases hcause with
    | self => exact nofun
    | wrapped _ hcause => cases hcause
  | operand _ hpart habout ih =>
    cases hcause with
    | self => exact fun x hx => .of_isInfix (habout.texts (.self _) x hx).2 hpart
    | wrapped _ hcause => exact ih hcause
  | argument _ _ ih => exact ih hcause

end

end Error

theorem Expr.failsOnly_eval_about {f : Registry} (hf : ∀ e, ¬ f.Raises e) (s : Scope) {e : Expr} (h : e.Nests) :
    FailsOnly (Error.About e.source) (e.eval f s) := by
  induction h with
  | literal hs =>
    rw [eval]
    exact failsOnly_ok _
  | var hs =>
    rw [eval]
    split
    · exact failsOnly_ok _
    · exact failsOnly_error (.whole hs rfl (by simp))
  | @call source name arg hs hpart _ ih =>
    rw [eval]
    split
    · rename_i fn hfn
      refine (ih.mono fun e he => .argument hpart he).bind fun v e he => ?_
      exact absurd ⟨name, fn, v, hfn, he⟩ (hf e)
    · exact failsOnly_error (.whole hs rfl (by simp))
  | @compare source op left right hs hleft hright _ _ ihl ihr =>
    rw [eval]
    refine FailsOnly.mapError ?_
    have hl := ihl.mono fun _ he => Error.About.operand hs hleft he
    have hr := ihr.mono fun _ he => Error.About.operand hs hright he
    refine hl.bind fun a => hr.bind fun b => FailsOnly.bind ?_ fun _ => failsOnly_ok _
    refine (op.failsOnly_apply a b).mono ?_
    rintro _ ⟨l, r, rfl⟩
    exact .incomparable hs
  | unsupported hs =>
    rw [eval]
    exact failsOnly_error (.whole hs rfl (by simp))

/-! ## Expressions of trees -/

namespace Node

theorem exprsOfBranches_cons (b : Branch) (bs : List Branch) :
    exprsOfBranches (b :: bs) = b.test :: (exprsOfNodes b.body ++ exprsOfBranches bs) := by
  cases b
  rfl

/-- What a rendering evaluates stands in the tree. -/
theorem Evaluates.expr_mem {f : Registry} {s : Scope} {nodes : List Node} {x : Evaluation} (h : Evaluates f s nodes x) :
    x.expr ∈ exprsOfNodes nodes := by
  induction h with
  | expr | collection => exact List.mem_append_left _ List.mem_cons_self
  | test =>
    rw [exprsOfNodes, exprs, exprsOfBranches_cons]
    exact List.mem_append_left _ (List.mem_append_left _ List.mem_cons_self)
  | taken _ _ _ ih =>
    simp only [exprsOfNodes, exprs, exprsOfBranches_cons, List.mem_append, List.mem_cons]
    exact Or.inl (Or.inl (Or.inr (Or.inl ih)))
  | passed _ _ _ ih =>
    simp only [exprsOfNodes, exprs, exprsOfBranches_cons, List.mem_append, List.mem_cons, List.not_mem_nil, or_false] at ih ⊢
    exact Or.inl (ih.imp_left fun h => Or.inr (Or.inr h))
  | otherwise _ ih => exact List.mem_append_left _ ih
  | body _ _ _ _ ih => exact List.mem_append_left _ (List.mem_cons_of_mem _ ih)
  | later _ _ ih => exact List.mem_append_right _ ih

theorem failsOnly_renderNodes_about {f : Registry} (hf : ∀ e, ¬ f.Raises e) (s : Scope) {nodes : List Node}
    (h : ∀ c ∈ exprsOfNodes nodes, c.Nests) :
    FailsOnly (fun e => ∃ c ∈ exprsOfNodes nodes, Error.About c.source e) (renderNodes f s nodes) := by
  intro e he
  obtain ⟨x, hx, hfails⟩ := renderNodes_eq_error_iff.mp he
  refine ⟨x.expr, hx.expr_mem, ?_⟩
  have hnests := h x.expr hx.expr_mem
  cases hfails with
  | value hvalue => exact Expr.failsOnly_eval_about hf x.scope hnests e hvalue
  | elements _ _ _ => exact .whole hnests.trimmed rfl (by simp)

end Node

namespace Tree

/-- Each of the expressions was read from a piece of the body of one of the tags. -/
def FromTags (ls : List Lexeme) (es : List Expr) : Prop :=
  ∀ e ∈ es, ∃ l ∈ ls, l.isTag = true ∧ ∃ c, c <:+: l.body ∧ e = .read c

section
variable {ls ms : List Lexeme} {es fs : List Expr}

theorem FromTags.mono (h : FromTags ls es) (hsub : ∀ l ∈ ls, l ∈ ms) : FromTags ms es := by
  intro e he
  obtain ⟨l, hl, hread⟩ := h e he
  exact ⟨l, hsub l hl, hread⟩

theorem FromTags.append (h : FromTags ls es) (h' : FromTags ls fs) : FromTags ls (es ++ fs) :=
  List.forall_mem_append.mpr ⟨h, h'⟩

theorem FromTags.statement {inner keyword operand c : Text} (hsaid : Statement.Says inner keyword operand)
    (hc : c <:+: operand) (h : FromTags (.statement inner :: ls) es) : FromTags (.statement inner :: ls) (.read c :: es) :=
  List.forall_mem_cons.mpr
    ⟨⟨.statement inner, List.mem_cons_self, rfl, c, hc.trans hsaid.operand_isInfix_trim, rfl⟩, h⟩

/-- The expressions of a tree are those of its tags. -/
theorem exprs_of_derives {n : Nat} {T : List Node} (h : Derives n ls T) : FromTags ls (Node.exprsOfNodes T) := by
  induction h using Derives.rec
    (motive_2 := fun _ ls bs o _ => FromTags ls (Node.exprsOfBranches bs) ∧ FromTags ls (Node.exprsOfNodes o)) with
  | nil => exact fun _ he => nomatch he
  | text _ ih => exact FromTags.mono ih fun l hl => List.mem_cons_of_mem _ hl
  | @expr n inner ls T _ ih =>
    refine List.forall_mem_cons.mpr ⟨?_, FromTags.mono ih fun l hl => List.mem_cons_of_mem _ hl⟩
    exact ⟨.expression inner, List.mem_cons_self, rfl, _, List.infix_rfl, rfl⟩
  | cond hsaid _ _ _ _ ihblock iharms ih =>
    refine FromTags.append (.append (.statement hsaid List.infix_rfl (.append ?_ ?_)) ?_) ?_
    · exact FromTags.mono ihblock fun l hl => by simp [hl]
    · exact FromTags.mono iharms.1 fun l hl => by simp [hl]
    · exact FromTags.mono iharms.2 fun l hl => by simp [hl]
    · exact FromTags.mono ih fun l hl => by simp [hl]
  | loop hsaid hheader _ _ _ ihblock ih =>
    refine FromTags.append (.statement hsaid hheader.collection_isInfix ?_) ?_
    · exact FromTags.mono ihblock fun l hl => by simp [hl]
    · exact FromTags.mono ih fun l hl => by simp [hl]
  | done => exact ⟨fun _ he => (nomatch he), fun _ he => nomatch he⟩
  | otherwise _ _ _ ihblock =>
    exact ⟨fun _ he => (nomatch he), FromTags.mono ihblock fun l hl => by simp [hl]⟩
  | branch hsaid _ _ _ ihblock iharms =>
    refine ⟨.statement hsaid List.infix_rfl (.append ?_ ?_), ?_⟩
    · exact FromTags.mono ihblock fun l hl => by simp [hl]
    · exact FromTags.mono iharms.1 fun l hl => by simp [hl]
    · exact FromTags.mono iharms.2 fun l hl => by simp [hl]

end

end Tree

/-! ## Merges -/

namespace Error

/-- The error tells what is wrong in terms of the template: every text that it carries, also inside,
    is trimmed and a piece of the body of a tag, what stands inside a comparison is about a smaller
    piece of its text, and two values without an order are those of a comparison. -/
structure Told (t : Text) (e : Error) : Prop where
  placed : ∀ cause, e.Involves cause → ∀ s ∈ cause.expression?,
    Trimmed s ∧ ∃ ts, Token.readAll t = .ok ts ∧ ∃ tok ∈ ts, tok.lexeme.isTag = true ∧ s <:+: tok.lexeme.body
  wrapped : ∀ left right, e ≠ .incomparable left right
  nested : ∀ s cause, e.Involves (.comparison s cause) → ∀ s' ∈ cause.expression?, s'.Within s

/-- An error that carries no text has nothing inside it. -/
theorem told_of_silent {t : Text} {e : Error} (h : e.expression? = none) (hwrapped : ∀ left right, e ≠ .incomparable left right) :
    Told t e := by
  have hself {cause : Error} (hcause : e.Involves cause) : cause = e := by
    cases hcause with
    | self => rfl
    | wrapped => cases h
  refine ⟨fun cause hcause s hs => ?_, hwrapped, fun s cause hcause => ?_⟩
  · rw [hself hcause, h] at hs
    cases hs
  · rw [← hself hcause] at h
    cases h

theorem About.told {t : Text} {ts : List Token} (hts : Token.readAll t = .ok ts) {c : Text} {e : Error} (h : About c e)
    {tok : Token} (htok : tok ∈ ts) (htag : tok.lexeme.isTag = true) (hc : c <:+: tok.lexeme.body) : Told t e where
  placed := by
    intro cause hcause s hs
    obtain ⟨htrimmed, hinfix⟩ := h.texts hcause s hs
    exact ⟨htrimmed, ts, hts, tok, htok, htag, hinfix.trans hc⟩
  wrapped := h.not_incomparable
  nested := fun _ _ hcause => h.within hcause

/-- Comparisons stand inside one another only so deep. -/
theorem exists_innermost (e : Error) : ∃ cause, e.Involves cause ∧ ∀ s inner, cause ≠ .comparison s inner := by
  induction e with
  | comparison s e ih =>
    obtain ⟨cause, hcause, hplain⟩ := ih
    exact ⟨cause, .wrapped s hcause, hplain⟩
  | _ => exact ⟨_, .self _, by simp⟩

end Error

theorem Registry.not_raises_builtin (e : Error) : ¬ builtin.Raises e := by
  rintro ⟨name, fn, v, hfn, he⟩
  by_cases hname : name = "Escape".toList
  · rw [hname] at hfn
    cases hfn
    cases he
  · have hnone : builtin.get? name = none := if_neg hname
    rw [hnone] at hfn
    cases hfn

namespace Merger

section
variable {t : Text}

theorem failsOnly_read_told : FailsOnly (Error.Told t) (Tree.read t) := by
  intro e he
  have hsyntactic := Tree.failsOnly_read t e he
  cases e with
  | unmatched | malformed => exact Error.told_of_silent rfl (by simp)
  | _ => cases hsyntactic

/-- The tree of a template fails with errors about its tags. -/
theorem failsOnly_renderNodes_told {f : Registry} (hf : ∀ e, ¬ f.Raises e) {T : List Node} (hT : Tree.read t = .ok T)
    (s : Scope) : FailsOnly (Error.Told t) (Node.renderNodes f s T) := by
  obtain ⟨ts, hts, hder⟩ := (Tree.read_iff_derives t T).mp hT
  have htags := Tree.exprs_of_derives hder
  have hnests : ∀ c ∈ Node.exprsOfNodes T, c.Nests := by
    intro c hc
    obtain ⟨_, _, _, x, _, rfl⟩ := htags c hc
    exact Expr.nests_read x
  intro e he
  obtain ⟨c, hc, habout⟩ := Node.failsOnly_renderNodes_about hf s hnests e he
  obtain ⟨l, hl, htag, x, hx, rfl⟩ := htags c hc
  obtain ⟨tok, htok, rfl⟩ := List.mem_map.mp hl
  rw [Expr.source_read] at habout
  exact habout.told hts htok htag ((Text.trim_isInfix x).trans hx)

theorem failsOnly_merge_told {m : Merger} (hf : ∀ e, ¬ m.functions.Raises e) (d : Data) :
    FailsOnly (Error.Told t) (m.merge t d) := by
  intro e he
  rw [merge, bind_eq_error_iff] at he
  rcases he with he | ⟨T, hT, he⟩
  · exact failsOnly_read_told e he
  · have hrender : FailsOnly (Error.Told t) (m.render T d) :=
      failsOnly_render (fun _ => Error.told_of_silent rfl (by simp)) (fun _ => Error.told_of_silent rfl (by simp))
        (failsOnly_renderNodes_told hf hT)
    exact hrender e he

end

/-- When a merge fails, every text of an expression that the error carries, or an error inside it, is
    trimmed and a piece of the body of a tag of the template. Two values without an order are only
    reported inside a comparison. What stands inside a comparison carries a piece of the
    comparison's text that is not all of it, and the innermost error is no comparison. -/
theorem error_texts_nest {t : Text} {d : Data} {e : Error} (h : standard.merge t d = .error e) :
    (∀ cause, e.Involves cause → ∀ s ∈ cause.expression?, Trimmed s ∧
      ∃ ts, Token.readAll t = .ok ts ∧ ∃ tok ∈ ts, tok.lexeme.isTag = true ∧ s <:+: tok.lexeme.body) ∧
    (∀ left right, e ≠ .incomparable left right) ∧
    (∀ s cause, e.Involves (.comparison s cause) → ∀ s' ∈ cause.expression?, s' <:+: s ∧ s' ≠ s) ∧
    ∃ cause, e.Involves cause ∧ ∀ s inner, cause ≠ .comparison s inner := by
  obtain ⟨hplaced, hwrapped, hnested⟩ := failsOnly_merge_told Registry.not_raises_builtin d e h
  refine ⟨hplaced, hwrapped, fun s cause hcause s' hs' => ?_, e.exists_innermost⟩
  have hwithin := hnested s cause hcause s' hs'
  exact ⟨hwithin.1, hwithin.ne⟩

/-- A comparison in a call in a comparison. -/
theorem error_texts_nest_twice :
    let t := Lexeme.join [.content "a".toList, .expression " Escape(var:a < var:b ) == 1 ".toList]
    let outer := "Escape(var:a < var:b ) == 1".toList
    let inner := "var:a < var:b".toList
    let e := Error.comparison outer (.comparison inner (.incomparable .string .number))
    standard.merge t (.object [("a".toList, .str "x".toList), ("b".toList, .int64 3)]) = .error e ∧
    (∃ ts, Token.readAll t = .ok ts ∧ ∃ tok ∈ ts, tok.lexeme.isTag = true ∧ outer <:+: tok.lexeme.body) ∧
    inner <:+: outer ∧ inner ≠ outer := by
  intro t outer inner e
  have houter : Expr.read outer = .compare outer .eq (.read "Escape(var:a < var:b ) ".toList) (.read " 1".toList) :=
    Expr.read_of_operator (p := ⟨"Escape(var:a < var:b ) ".toList, "==".toList, .eq, " 1".toList⟩) (by decide) (by decide)
  have hcall : Expr.read "Escape(var:a < var:b ) ".toList =
      .call "Escape(var:a < var:b )".toList "Escape".toList (.read "var:a < var:b ".toList) := by
    rw [← Expr.read_trim]
    exact Expr.read_of_call (by decide) (by decide)
  have hinner : Expr.read "var:a < var:b ".toList = .compare inner .lt (.read "var:a ".toList) (.read " var:b".toList) := by
    rw [← Expr.read_trim]
    exact Expr.read_of_operator (p := ⟨"var:a ".toList, "<".toList, .lt, " var:b".toList⟩) (by decide) (by decide)
  have ha : Expr.read "var:a ".toList = .var "var:a".toList ["var:a".toList] none := by
    rw [← Expr.read_trim]
    exact Expr.read_marked (x := "a".toList) (by decide)
  have hb : Expr.read " var:b".toList = .var "var:b".toList ["var:b".toList] none := by
    rw [← Expr.read_trim]
    exact Expr.read_marked (x := "b".toList) (by decide)
  have hmerge : standard.merge t (.object [("a".toList, .str "x".toList), ("b".toList, .int64 3)]) = .error e := by
    have hrow : Lexeme.InFront [.content "a".toList, .expression " Escape(var:a < var:b ) == 1 ".toList] [] := by decide
    have hT : Tree.read t = .ok [.text "a".toList, .expr (.read outer)] := Draft.read_join hrow rfl
    rw [merge_of_read hT, houter, hcall, hinner, ha, hb]
    rfl
  obtain ⟨hplaced, -, hnested, -⟩ := error_texts_nest hmerge
  exact ⟨hmerge, (hplaced e (.self e) outer rfl).2, hnested outer _ (.self e) inner rfl⟩

end Merger

end MailMerge
