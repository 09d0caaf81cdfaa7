/-
  MailMerge.Proofs.Preflight — the check of a template finds all syntax errors of its merges.

  A merge has stages, and each has errors of its own: a reading those of the template's text
  (`Tree.failsOnly_read`), a conversion those of the data (`Data.failsOnly_toValue`), an evaluation
  those of `Error.OfEval` (`Expr.failsOnly_eval`), and a rendering these and that of a loop over what
  has no elements (`Node.failsOnly_renderNodes`). The functions that a template calls come from
  outside: their errors are taken as they are.

  A comparison wraps the error that stopped it, and a function may return an error that wraps
  others: `Error.Involves` looks at every depth. A syntax error that a function returned, bare or
  wrapped, would be found in the error of the merge, so the functions are taken to return none
  (`Registry.Unsyntactic`). Then a rendering has none at any depth (`Error.OfRender.unsyntactic`).

  Proved: a merge fails with a syntax error exactly when the check reports that error, and with
  other errors in the order of the stages (`check_is_preflight`).
-/

import MailMerge.Proofs.Conversion
import MailMerge.Proofs.Drafts
import MailMerge.Proofs.Evaluations
import MailMerge.Proofs.ExprRules

namespace MailMerge

/-! ## Reading -/

theorem Draft.failsOnly_finish (d : Draft) (line : Nat) : FailsOnly (·.isSyntactic = true) (d.finish line) := by
  unfold finish
  split
  · exact failsOnly_ok _
  · exact failsOnly_error rfl

theorem Tree.failsOnly_read (t : Text) : FailsOnly (·.isSyntactic = true) (read t) := by
  intro e he
  cases htokens : Draft.empty.tokens (Token.scan t).tokens with
  | error e' =>
    rw [Draft.read_eq_of_tokens_error htokens] at he
    cases he
    obtain ⟨_, _, _, _, _, -, -, -, rfl⟩ := Draft.tokens_eq_error_iff.mp htokens
    rfl
  | ok d =>
    rw [Draft.read_eq_of_run (Draft.tokens_eq_ok_iff.mp htokens)] at he
    cases hfailure : (Token.scan t).failure with
    | some e' =>
      rw [hfailure] at he
      cases he
      obtain ⟨_, _, rfl⟩ := Token.unmatched_of_failure hfailure
      rfl
    | none =>
      rw [hfailure] at he
      exact d.failsOnly_finish _ e he

theorem Tree.check_eq_error_iff {t : Text} {e : Error} : check t = .error e ↔ read t = .error e := map_eq_error_iff

/-! ## Conversion -/

/-- The error says why data has no value. -/
def Error.OfData (e : Error) : Prop := ∃ fault, e = .unconvertible fault

theorem MapDraft.failsOnly_keyText (v : Value) : FailsOnly Error.OfData (keyText v) := by
  unfold keyText
  split
  · exact failsOnly_ok _
  · exact failsOnly_ok _
  · exact failsOnly_ok _
  · exact failsOnly_ok _
  · exact failsOnly_error ⟨_, rfl⟩

theorem MapDraft.failsOnly_key (draft : MapDraft) (v : Value) : FailsOnly Error.OfData (draft.key v) :=
  (failsOnly_keyText v).map _

theorem MapDraft.failsOnly_value (draft : MapDraft) (v : Value) : FailsOnly Error.OfData (draft.value v) := by
  unfold value
  split
  · exact failsOnly_ok _
  · exact failsOnly_error ⟨_, rfl⟩

namespace Data

mutual

theorem failsOnly_toValue : (d : Data) → FailsOnly Error.OfData d.toValue
  | .unit | .bool _ | .int8 _ | .int16 _ | .int32 _ | .int64 _ | .nat8 _ | .nat16 _ | .nat32 _ | .nat64 _ | .single _
  | .double _ | .char _ | .str _ | .bytes _ | .absent | .variant _ => by
    rw [toValue]
    exact failsOnly_ok _
  | .wide .. | .refused _ => by
    rw [toValue]
    exact failsOnly_error ⟨_, rfl⟩
  | .present d | .wrapped d => by
    rw [toValue]
    exact failsOnly_toValue d
  | .variantWrapped _ d => by
    rw [toValue]
    exact (failsOnly_toValue d).map _
  | .list items | .variantList _ items => by
    rw [toValue]
    exact (failsOnly_itemValues items).map _
  | .record fields | .variantRecord _ fields => by
    rw [toValue]
    exact (failsOnly_fieldValues fields .empty).map _
  | .map parts => by
    rw [toValue]
    exact (failsOnly_tell parts .empty).map _

theorem failsOnly_itemValues : (items : List Data) → FailsOnly Error.OfData (itemValues items)
  | [] => by
    rw [itemValues]
    exact failsOnly_ok _
  | d :: items => by
    rw [itemValues]
    exact (failsOnly_toValue d).bind fun _ => (failsOnly_itemValues items).bind fun _ => failsOnly_ok _

theorem failsOnly_fieldValues : (fields : List (Text × Data)) → (done : Keyed.Table Value) →
    FailsOnly Error.OfData (fieldValues done fields)
  | [], _ => by
    rw [fieldValues]
    exact failsOnly_ok _
  | (_, d) :: fields, _ => by
    rw [fieldValues]
    exact (failsOnly_toValue d).bind fun _ => failsOnly_fieldValues fields _

theorem failsOnly_tell : (parts : List MapPart) → (draft : MapDraft) → FailsOnly Error.OfData (tell draft parts)
  | [], _ => by
    rw [tell]
    exact failsOnly_ok _
  | .key d :: parts, draft => by
    rw [tell]
    exact (failsOnly_toValue d).bind fun v => (draft.failsOnly_key v).bind fun draft' => failsOnly_tell parts draft'
  | .value d :: parts, draft => by
    rw [tell]
    exact (failsOnly_toValue d).bind fun v => (draft.failsOnly_value v).bind fun draft' => failsOnly_tell parts draft'

end

end Data

/-! ## Evaluation and rendering -/

/-- A function of the registry returns the error. -/
def Registry.Raises (f : Registry) (e : Error) : Prop := ∃ name fn v, f.get? name = some fn ∧ fn v = .error e

/-- The errors that an evaluation can fail with. -/
inductive Error.OfEval (f : Registry) : Error → Prop
  | unresolved (source : Text) : OfEval f (.unresolved source)
  | unknownFunction (name source : Text) : OfEval f (.unknownFunction name source)
  | unimplemented (source : Text) : OfEval f (.unimplemented source)
  | raised {e : Error} : f.Raises e → OfEval f e
  | operand {e : Error} (source : Text) : OfEval f e → OfEval f (.comparison source e)
  | incomparable (source : Text) (left right : Kind) : OfEval f (.comparison source (.incomparable left right))

theorem Value.failsOnly_order (a b : Value) : FailsOnly (fun e => ∃ l r, e = .incomparable l r) (a.order b) := by
  unfold order
  split
  · exact failsOnly_ok _
  · exact failsOnly_error ⟨_, _, rfl⟩

theorem Op.failsOnly_apply (op : Op) (a b : Value) : FailsOnly (fun e => ∃ l r, e = .incomparable l r) (op.apply a b) := by
  unfold apply
  split
  · exact failsOnly_ok _
  · exact failsOnly_ok _
  · exact (a.failsOnly_order b).map _

theorem Expr.failsOnly_eval (f : Registry) (s : Scope) (e : Expr) : FailsOnly (Error.OfEval f) (e.eval f s) := by
  induction e with
  | literal source v =>
    rw [eval]
    exact failsOnly_ok v
  | var source path fallback =>
    rw [eval]
    split
    · exact failsOnly_ok _
    · exact failsOnly_error (.unresolved source)
  | call source name arg ih =>
    rw [eval]
    split
    · rename_i fn hfn
      exact ih.bind fun v e he => .raised ⟨name, fn, v, hfn, he⟩
    · exact failsOnly_error (.unknownFunction name source)
  | compare source op left right ihl ihr =>
    rw [eval]
    refine FailsOnly.mapError ?_
    have hleft := ihl.mono fun _ he => Error.OfEval.operand source he
    have hright := ihr.mono fun _ he => Error.OfEval.operand source he
    refine hleft.bind fun a => hright.bind fun b => FailsOnly.bind ?_ fun _ => failsOnly_ok _
    refine (op.failsOnly_apply a b).mono ?_
    rintro _ ⟨l, r, rfl⟩
    exact .incomparable source l r
  | unsupported source =>
    rw [eval]
    exact failsOnly_error (.unimplemented source)

/-- The errors that a rendering can fail with. -/
inductive Error.OfRender (f : Registry) : Error → Prop
  | eval {e : Error} : OfEval f e → OfRender f e
  | notIterable (source : Text) : OfRender f (.notIterable source)

theorem Node.failsOnly_renderNodes (f : Registry) (s : Scope) (nodes : List Node) :
    FailsOnly (Error.OfRender f) (renderNodes f s nodes) := by
  intro e he
  obtain ⟨x, -, hfails⟩ := renderNodes_eq_error_iff.mp he
  cases hfails with
  | value h => exact .eval (x.expr.failsOnly_eval f x.scope e h)
  | elements _ _ _ => exact .notIterable x.expr.source

/-! ## Causes -/

/-- The error is the cause, or wraps an error that involves it. -/
inductive Error.Involves : Error → Error → Prop
  | self (e : Error) : Involves e e
  | wrapped {e cause : Error} (source : Text) : Involves e cause → Involves (.comparison source e) cause

/-- The error is no syntax error, nor is any error that it wraps, at any depth. -/
def Error.Unsyntactic (e : Error) : Prop := ∀ cause, e.Involves cause → cause.isSyntactic = false

/-- No function of the registry returns a syntax error, neither bare nor wrapped in another error. -/
def Registry.Unsyntactic (f : Registry) : Prop := ∀ e, f.Raises e → e.Unsyntactic

namespace Error

section
variable {f : Registry} {e : Error}

theorem Unsyntactic.outside (h : e.Unsyntactic) : e.isSyntactic = false := h e (.self e)

/-- An error that wraps nothing involves only itself. -/
theorem unsyntactic_of_plain (h : e.isSyntactic = false) (hplain : ∀ source cause, e ≠ .comparison source cause) :
    e.Unsyntactic := by
  intro cause hcause
  cases hcause with
  | self => exact h
  | wrapped source _ => exact absurd rfl (hplain source _)

/-- A comparison wraps nothing but its own cause and what that one wraps. -/
theorem Unsyntactic.comparison (h : e.Unsyntactic) (source : Text) : (Error.comparison source e).Unsyntactic := by
  intro cause hcause
  cases hcause with
  | self => rfl
  | wrapped _ hcause => exact h cause hcause

theorem OfEval.unsyntactic (hf : f.Unsyntactic) (h : OfEval f e) : e.Unsyntactic := by
  induction h with
  | unresolved | unknownFunction | unimplemented => exact unsyntactic_of_plain rfl fun _ _ => nofun
  | raised h => exact hf _ h
  | operand source _ ih => exact ih.comparison source
  | incomparable source l r =>
    have hcause : (Error.incomparable l r).Unsyntactic := unsyntactic_of_plain rfl fun _ _ => nofun
    exact hcause.comparison source

theorem OfRender.unsyntactic (hf : f.Unsyntactic) (h : OfRender f e) : e.Unsyntactic := by
  cases h with
  | eval h => exact h.unsyntactic hf
  | notIterable source => exact unsyntactic_of_plain rfl fun _ _ => nofun

/-- Outermost is a syntax error only if a function returns one bare: a comparison is none. -/
theorem OfRender.isSyntactic_eq_false (hf : ∀ e, f.Raises e → e.isSyntactic = false) (h : OfRender f e) :
    e.isSyntactic = false := by
  cases h with
  | notIterable => rfl
  | eval h =>
    cases h with
    | raised h => exact hf e h
    | unresolved | unknownFunction | unimplemented | operand | incomparable => rfl

end

end Error

/-! ## Merges -/

namespace Merger

section
variable {m : Merger} {T : List Node} {t : Text} {d : Data}

theorem failsOnly_rootNames (v : Value) : FailsOnly (fun e => ∃ kind, e = .badVariables kind) (rootNames v) := by
  unfold rootNames
  split
  · exact failsOnly_ok _
  · exact failsOnly_ok _
  · exact failsOnly_error ⟨_, rfl⟩

/-- The stages of a render: the data is converted, its value looked at, and the nodes rendered. -/
theorem failsOnly_render {P : Error → Prop} (hdata : ∀ fault, P (.unconvertible fault))
    (hvalue : ∀ kind, P (.badVariables kind))
    (hnodes : ∀ s, FailsOnly P (Node.renderNodes m.functions s T)) : FailsOnly P (m.render T d) := by
  unfold render
  refine FailsOnly.bind (d.failsOnly_toValue.mono ?_) fun v => FailsOnly.bind ((failsOnly_rootNames v).mono ?_) fun root => ?_
  · rintro _ ⟨fault, rfl⟩
    exact hdata fault
  · rintro _ ⟨kind, rfl⟩
    exact hvalue kind
  · exact hnodes _

theorem unsyntactic_of_render_error (hf : m.functions.Unsyntactic) : FailsOnly Error.Unsyntactic (m.render T d) :=
  failsOnly_render (fun _ => Error.unsyntactic_of_plain rfl fun _ _ => nofun)
    (fun _ => Error.unsyntactic_of_plain rfl fun _ _ => nofun)
    fun s => (Node.failsOnly_renderNodes m.functions s T).mono fun _ h => h.unsyntactic hf

/-- For the outermost error it is enough that no function returns a syntax error bare: those of a
    merge are those of the check. -/
theorem merge_eq_syntax_error_iff (hf : ∀ e, m.functions.Raises e → e.isSyntactic = false) (e : Error) :
    m.merge t d = .error e ∧ e.isSyntactic = true ↔ Tree.check t = .error e := by
  rw [Tree.check_eq_error_iff]
  cases hT : Tree.read t with
  | error e' =>
    rw [merge_of_read_error hT, Except.error.injEq, Except.error.injEq]
    refine ⟨And.left, fun he => ⟨he, ?_⟩⟩
    rw [← he]
    exact Tree.failsOnly_read t e' hT
  | ok T =>
    have hrender : FailsOnly (fun e => e.isSyntactic = false) (m.render T d) :=
      failsOnly_render (fun _ => rfl) (fun _ => rfl) fun s =>
        (Node.failsOnly_renderNodes m.functions s T).mono fun _ h => h.isSyntactic_eq_false hf
    rw [merge_of_read hT]
    refine ⟨fun ⟨he, hsyntactic⟩ => ?_, nofun⟩
    rw [hrender e he] at hsyntactic
    cases hsyntactic

end

/-- With functions that return no syntax errors, bare or wrapped, the syntax errors of a merge are
    those that the check of the template reports, whatever the data. A template that passes the
    check is merged as far as it goes: its data is converted, has to be a map or null even when the
    template uses no variable, and then the tree is rendered. What this fails with is no syntax
    error, nor is any cause in it, at any depth of comparisons. -/
theorem check_is_preflight {m : Merger} (hf : m.functions.Unsyntactic) (t : Text) (d : Data) :
    (∀ e, m.merge t d = .error e ∧ e.isSyntactic = true ↔ Tree.check t = .error e) ∧
    (Tree.check t = .ok () →
      (∃ T, Tree.read t = .ok T ∧
        m.merge t d = match d.toValue with
          | .error e => .error e
          | .ok (.map fields) => Node.renderNodes m.functions (.ofRoot (marked fields)) T
          | .ok .null => Node.renderNodes m.functions (.ofRoot .empty) T
          | .ok v => .error (.badVariables v.kind)) ∧
      ∀ e, m.merge t d = .error e → ∀ cause, e.Involves cause → cause.isSyntactic = false) := by
  refine ⟨merge_eq_syntax_error_iff fun e he => (hf e he).outside, fun hok => ?_⟩
  obtain ⟨T, hT, -⟩ := map_eq_ok_iff.mp hok
  rw [merge_of_read hT]
  exact ⟨⟨T, hT, render_eq⟩, unsyntactic_of_render_error hf⟩

/-- A merger with a function that always fails, called inside a comparison, and one error from each
    stage. -/
theorem check_is_preflight_fail :
    let m : Merger := ⟨⟨.ofList [("Fail".toList, fun v => .error (.unimplemented v.display))]⟩⟩
    let t := Lexeme.join [.expression "Fail(var:x)<1".toList]
    let x : Data := .object [("x".toList, .str "a".toList)]
    let e : Error := .comparison "Fail(var:x)<1".toList (.unimplemented "a".toList)
    m.functions.Unsyntactic ∧
    m.merge t.dropLast (.refused "no".toList) = .error (.unmatched .exprOpen 1) ∧
    m.merge "a".toList (.refused "no".toList) = .error (.unconvertible (.refused "no".toList)) ∧
    m.merge "a".toList (.int64 3) = .error (.badVariables .number) ∧
    m.merge t x = .error e ∧ ∀ cause, e.Involves cause → cause.isSyntactic = false := by
  intro m t x e
  have hf : m.functions.Unsyntactic := by
    rintro _ ⟨name, fn, v, hfn, he⟩
    by_cases hname : name = "Fail".toList
    · rw [hname] at hfn
      cases hfn
      cases he
      exact Error.unsyntactic_of_plain rfl fun _ _ => nofun
    · have hnone : m.functions.get? name = none := if_neg hname
      rw [hnone] at hfn
      cases hfn
  have hunmatched : Tree.check t.dropLast = .error (.unmatched .exprOpen 1) := by
    have hcut : Token.cut t.dropLast = .unmatched [] .exprOpen := by decide
    have hscan : Token.scan t.dropLast = ⟨[], some (.unmatched .exprOpen 1)⟩ :=
      Token.scanFrom_unmatched 0 1 (by decide) hcut
    have hrun : Draft.empty.run ((Token.scan t.dropLast).tokens.map Token.lexeme) = .ok .empty := by
      rw [hscan]
      rfl
    rw [Tree.check, Draft.read_eq_of_run hrun, hscan]
    rfl
  have htext : Tree.check "a".toList = .ok () := by
    have hrow : Lexeme.InFront [.content "a".toList] [] := by decide
    exact congrArg (Except.map fun _ => ()) (Draft.read_join hrow rfl)
  have hcompare : Expr.read "Fail(var:x)<1".toList =
      .compare "Fail(var:x)<1".toList .lt (.read "Fail(var:x)".toList) (.read "1".toList) :=
    Expr.read_of_operator (p := ⟨"Fail(var:x)".toList, "<".toList, .lt, "1".toList⟩) (by decide) (by decide)
  have hcall : Expr.read "Fail(var:x)".toList = .call "Fail(var:x)".toList "Fail".toList (.read "var:x".toList) :=
    Expr.read_of_call (by decide) (by decide)
  have hvar : Expr.read "var:x".toList = .var "var:x".toList ["var:x".toList] none :=
    Expr.read_marked (x := "x".toList) (by decide)
  have hread : Tree.read t = .ok [.expr (.read "Fail(var:x)<1".toList)] := by
    have hrow : Lexeme.InFront [.expression "Fail(var:x)<1".toList] [] := by decide
    exact Draft.read_join hrow rfl
  obtain ⟨⟨T, hT, hmerge⟩, hcauses⟩ := (check_is_preflight hf t x).2 (congrArg (Except.map fun _ => ()) hread)
  rw [hread, hcompare, hcall, hvar] at hT
  cases hT
  refine ⟨hf, ?_, ?_, ?_, hmerge, hcauses e hmerge⟩
  · exact (((check_is_preflight hf _ (.refused "no".toList)).1 _).mpr hunmatched).1
  · obtain ⟨⟨T, -, hmerge⟩, -⟩ := (check_is_preflight hf _ (.refused "no".toList)).2 htext
    exact hmerge
  · obtain ⟨⟨T, -, hmerge⟩, -⟩ := (check_is_preflight hf _ (.int64 3)).2 htext
    exact hmerge

end Merger

end MailMerge
