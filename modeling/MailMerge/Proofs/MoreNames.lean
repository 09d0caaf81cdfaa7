/-
  MailMerge.Proofs.MoreNames — names that are added do not change what was rendered.

  A scope extends another when every name with a value in this one has the same value in it. A
  reference with a fallback can tell the two apart: a name that is added hides the fallback. Without
  fallbacks an expression that has a value has a value for each of its names, so it has the same
  value in a scope that extends the first (`Expr.eval_of_extends`). A render comes to some of the
  expressions of a tree only; those have values when it succeeds, so that conditionals take the same
  branches and loops run over the same elements (`Node.renderNodes_of_extends`). The other expressions
  may have values in the one scope and none in the other.

  Proved: a template without fallbacks that is merged is merged to the same text when the caller has
  more variables (`Merger.merge_more_variables`).
-/

import MailMerge.Proofs.Mentions

namespace MailMerge

/-! ## Scopes -/

/-- Every name with a value in the second scope has the same value in the first. -/
def Scope.Extends (s' s : Scope) : Prop := ∀ name v, s.get? name = some v → s'.get? name = some v

section
variable {s s' : Scope}

theorem Scope.Extends.bind (h : s'.Extends s) (item : Text) (u : Value) : (s'.bind item u).Extends (s.bind item u) := by
  intro name v hv
  rw [get?_bind] at hv ⊢
  by_cases hname : name = item
  · rwa [if_pos hname] at hv ⊢
  · rw [if_neg hname] at hv ⊢
    exact h name v hv

theorem Scope.Extends.lookup? (h : s'.Extends s) {path : List Text} {v : Value} (hv : s.lookup? path = some v) :
    s'.lookup? path = some v := by
  cases path with
  | nil => cases hv
  | cons head keys =>
    obtain ⟨u, hu, hfollow⟩ := Option.bind_eq_some_iff.mp hv
    exact Option.bind_eq_some_iff.mpr ⟨u, h head u hu, hfollow⟩

/-! ## Expressions -/

/-- No reference in the expression has a fallback. -/
def Expr.NoFallback : Expr → Prop
  | .call _ _ arg => arg.NoFallback
  | .var _ _ fallback => fallback = none
  | .compare _ _ left right => left.NoFallback ∧ right.NoFallback
  | .literal .. | .unsupported _ => True

theorem Expr.eval_of_extends {f : Registry} {e : Expr} {v : Value} (h : s'.Extends s) (he : e.NoFallback)
    (hv : e.eval f s = .ok v) : e.eval f s' = .ok v := by
  induction e generalizing v with
  | literal source u => exact hv
  | unsupported source => exact hv
  | var source path fallback =>
    cases he
    rw [eval, Option.or_none] at hv ⊢
    split at hv
    · rename_i u hu
      rw [h.lookup? hu]
      exact hv
    · cases hv
  | call source name arg ih =>
    rw [eval] at hv ⊢
    split at hv
    · obtain ⟨u, hu, hresult⟩ := bind_eq_ok_iff.mp hv
      exact bind_eq_ok_iff.mpr ⟨u, ih he hu, hresult⟩
    · cases hv
  | compare source op left right ihl ihr =>
    rw [eval, mapError_eq_ok_iff] at hv ⊢
    obtain ⟨a, ha, hv⟩ := bind_eq_ok_iff.mp hv
    obtain ⟨b, hb, hresult⟩ := bind_eq_ok_iff.mp hv
    exact bind_eq_ok_iff.mpr ⟨a, ihl he.1 ha, bind_eq_ok_iff.mpr ⟨b, ihr he.2 hb, hresult⟩⟩

end

/-! ## Trees -/

namespace Node

/-- No reference in the nodes has a fallback, wherever it stands. -/
def NoFallback (nodes : List Node) : Prop := ∀ e ∈ exprsOfNodes nodes, e.NoFallback

mutual

theorem render_of_extends {f : Registry} {s s' : Scope} (h : s'.Extends s) : ∀ {n : Node} {t : Text},
    (∀ e ∈ n.exprs, e.NoFallback) → n.render f s = .ok t → n.render f s' = .ok t
  | .text _, _, _, ht => ht
  | .expr e, t, he, ht => by
    rw [render, bind_eq_ok_iff] at ht ⊢
    obtain ⟨v, hv, hdisplay⟩ := ht
    exact ⟨v, Expr.eval_of_extends h (he e (List.mem_cons_self ..)) hv, hdisplay⟩
  | .cond branches otherwise, t, he, ht => by
    rw [render, bind_eq_ok_iff] at ht ⊢
    obtain ⟨taken?, hbranches, hrest⟩ := ht
    refine ⟨taken?, renderBranches_of_extends h (fun e hmem => he e (List.mem_append_left _ hmem)) hbranches, ?_⟩
    cases taken? with
    | some _ => exact hrest
    | none => exact renderNodes_of_extends h (fun e hmem => he e (List.mem_append_right _ hmem)) hrest
  | .loop item collection body, t, he, ht => by
    obtain ⟨hcollection, hbody⟩ := List.forall_mem_cons.mp he
    rw [render, bind_eq_ok_iff] at ht ⊢
    obtain ⟨v, hv, hloop⟩ := ht
    refine ⟨v, Expr.eval_of_extends h hcollection hv, ?_⟩
    cases helements : v.elements? with
    | none =>
      rw [helements] at hloop
      cases hloop
    | some elements =>
      simp only [helements, bind_eq_ok_iff, mapM_eq_ok_iff] at hloop ⊢
      obtain ⟨texts, htexts, hflatten⟩ := hloop
      -- The body is rendered for the same elements, each in scopes of which one extends the other.
      exact ⟨texts, htexts.imp fun u _ hu => renderNodes_of_extends (h.bind item u) hbody hu, hflatten⟩

theorem renderNodes_of_extends {f : Registry} {s s' : Scope} (h : s'.Extends s) : ∀ {nodes : List Node} {t : Text},
    (∀ e ∈ exprsOfNodes nodes, e.NoFallback) → renderNodes f s nodes = .ok t → renderNodes f s' nodes = .ok t
  | [], _, _, ht => ht
  | n :: nodes, t, he, ht => by
    simp only [renderNodes, bind_eq_ok_iff] at ht ⊢
    obtain ⟨a, ha, b, hb, hab⟩ := ht
    exact ⟨a, render_of_extends h (fun e hmem => he e (List.mem_append_left _ hmem)) ha, b,
      renderNodes_of_extends h (fun e hmem => he e (List.mem_append_right _ hmem)) hb, hab⟩

theorem renderBranches_of_extends {f : Registry} {s s' : Scope} (h : s'.Extends s) : ∀ {branches : List Branch}
    {taken? : Option Text}, (∀ e ∈ exprsOfBranches branches, e.NoFallback) →
    renderBranches f s branches = .ok taken? → renderBranches f s' branches = .ok taken?
  | [], _, _, ht => ht
  | ⟨test, body⟩ :: branches, taken?, he, ht => by
    obtain ⟨htest, he⟩ := List.forall_mem_cons.mp he
    rw [renderBranches, bind_eq_ok_iff] at ht ⊢
    obtain ⟨v, hv, ht⟩ := ht
    refine ⟨v, Expr.eval_of_extends h htest hv, ?_⟩
    by_cases hholds : v.holds = true
    · rw [if_pos hholds, bind_eq_ok_iff] at ht ⊢
      obtain ⟨a, ha, hsome⟩ := ht
      exact ⟨a, renderNodes_of_extends h (fun e hmem => he e (List.mem_append_left _ hmem)) ha, hsome⟩
    · rw [if_neg hholds] at ht ⊢
      exact renderBranches_of_extends h (fun e hmem => he e (List.mem_append_right _ hmem)) ht

end

end Node

/-! ## Whole templates -/

namespace Merger

/-- More variables of the caller make a root that extends the first. -/
theorem extends_marked {fields fields' : Keyed.Table Value}
    (h : ∀ n v, fields.get? n = some v → fields'.get? n = some v) :
    (Scope.ofRoot (marked fields')).Extends (.ofRoot (marked fields)) := by
  intro name v hv
  change (marked fields).get? name = some v at hv
  change (marked fields').get? name = some v
  by_cases hmark : ∃ n, name = callerMark ++ n
  · obtain ⟨n, rfl⟩ := hmark
    rw [get?_marked] at hv ⊢
    exact h n v hv
  · rw [get?_marked_of_bare (not_exists.mp hmark)] at hv
    cases hv

/-- A template in which no reference has a fallback, and which is merged, is merged to the same text
    when the caller has more variables, also when the template uses them in branches not taken and in
    loops over nothing. -/
theorem merge_more_variables {m : Merger} {t x : Text} {T : List Node} {d d' : Data}
    {fields fields' : Keyed.Table Value} (hT : Tree.read t = .ok T) (hfree : Node.NoFallback T)
    (hd : d.toValue = .ok (.map fields)) (hd' : d'.toValue = .ok (.map fields'))
    (hmore : ∀ n v, fields.get? n = some v → fields'.get? n = some v) (hx : m.merge t d = .ok x) :
    m.merge t d' = .ok x := by
  rw [merge_of_read hT, render_of_toValue hd] at hx
  rw [merge_of_read hT, render_of_toValue hd']
  exact Node.renderNodes_of_extends (extends_marked hmore) hfree hx

/-- The variable that is added is used in a branch that is not taken and in a loop over nothing. -/
theorem merge_more_variables_unused :
    let t := Lexeme.join [.statement "if var:a".toList, .expression "var:a".toList, .statement "else".toList,
      .expression "var:b".toList, .statement "endif".toList, .statement "for b in var:l".toList,
      .expression "var:b".toList, .statement "endfor".toList]
    let var (name : Text) : Expr := .var (callerMark ++ name) [callerMark ++ name] none
    let T : List Node := [.cond [⟨var "a".toList, [.expr (var "a".toList)]⟩] [.expr (var "b".toList)],
      .loop "b".toList (var "l".toList) [.expr (var "b".toList)]]
    let d : Data := .object [("a".toList, .str "x".toList), ("l".toList, .list [])]
    let fields : Keyed.Table Value := .ofList [("a".toList, .str "x".toList), ("l".toList, .list [])]
    let d' : Data := .object [("a".toList, .str "x".toList), ("b".toList, .str "y".toList), ("l".toList, .list [])]
    let fields' : Keyed.Table Value :=
      .ofList [("a".toList, .str "x".toList), ("b".toList, .str "y".toList), ("l".toList, .list [])]
    (Tree.read t = .ok T ∧ Node.NoFallback T) ∧
    (d.toValue = .ok (.map fields) ∧ d'.toValue = .ok (.map fields') ∧
      ∀ n v, fields.get? n = some v → fields'.get? n = some v) ∧
    standard.merge t d = .ok "x".toList ∧ standard.merge t d' = .ok "x".toList := by
  intro t var T d fields d' fields'
  have hvar (name : Text) (h : Text.isName name = true) : Expr.read (callerMark ++ name) = var name := Expr.read_marked h
  have hT : Tree.read t = .ok T := by
    have hrow : Lexeme.InFront [.statement "if var:a".toList, .expression "var:a".toList, .statement "else".toList,
      .expression "var:b".toList, .statement "endif".toList, .statement "for b in var:l".toList,
      .expression "var:b".toList, .statement "endfor".toList] [] := by decide
    rw [Draft.read_join hrow rfl]
    show Except.ok [Node.cond [⟨.read (callerMark ++ "a".toList), [.expr (.read (callerMark ++ "a".toList))]⟩]
        [.expr (.read (callerMark ++ "b".toList))],
      .loop "b".toList (.read (callerMark ++ "l".toList)) [.expr (.read (callerMark ++ "b".toList))]] = _
    rw [hvar _ (by decide), hvar _ (by decide), hvar _ (by decide)]
  have hfree : Node.NoFallback T := by
    intro e he
    simp only [T, Node.exprsOfNodes, Node.exprs, Node.exprsOfBranches, List.append_nil, List.cons_append, List.nil_append,
      List.mem_cons, List.not_mem_nil, or_false] at he
    rcases he with rfl | rfl | rfl | rfl | rfl <;> rfl
  have hmore : ∀ n v, fields.get? n = some v → fields'.get? n = some v := by
    intro n v hv
    have hinsert : fields' = fields.insert "b".toList (.str "y".toList) := rfl
    rw [hinsert, Keyed.Table.get?_insert, if_neg, hv]
    rintro rfl
    cases hv
  have hx : standard.merge t d = .ok "x".toList := by
    rw [merge_of_read hT]
    rfl
  exact ⟨⟨hT, hfree⟩, ⟨rfl, rfl, hmore⟩, hx, merge_more_variables hT hfree rfl rfl hmore hx⟩

end Merger

end MailMerge
