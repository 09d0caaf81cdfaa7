/-
  MailMerge.Proofs.Evaluations — what a render evaluates, in which scopes, and why it fails.

  A render does not come to every expression of its tree: it stops at the first error, takes
  one branch of a conditional, and runs the body of a loop once for each element.
  `Node.Evaluates` follows it; an evaluation comes with the loops around it, the scope and the
  use of the value.

  Proved: a render fails with an error exactly when one of its evaluations fails with that
  error (`renderNodes_eq_error_iff`). So no evaluation that could make the render fail is
  left out, and none is counted that the render does not come to.
-/

import MailMerge.Proofs.Rendering

namespace MailMerge

/-- What the value of an expression is for. -/
inductive Use
  | printed
  | tested
  | iterated
  deriving DecidableEq, Repr

/-- One evaluation in a render. -/
structure Evaluation where
  /-- The names that the loops around the expression bind, with the elements that the loops
      are at; the innermost loop first. -/
  loops : List (Text × Value)
  scope : Scope
  use : Use
  expr : Expr

namespace Evaluation

/-- The evaluation with one loop more around it. -/
def inLoop (x : Evaluation) (item : Text) (v : Value) : Evaluation := { x with loops := x.loops ++ [(item, v)] }

/-- The expression has no value, or one that a loop cannot run over. -/
inductive Fails (f : Registry) (x : Evaluation) : Error → Prop
  | value {e : Error} : x.expr.eval f x.scope = .error e → Fails f x e
  | elements {v : Value} : x.use = .iterated → x.expr.eval f x.scope = .ok v → v.elements? = none →
      Fails f x (.notIterable x.expr.source)

theorem fails_inLoop_iff {f : Registry} {x : Evaluation} {e : Error} {item : Text} {v : Value} :
    (x.inLoop item v).Fails f e ↔ x.Fails f e := by
  constructor
  · intro h
    cases h with
    | value h => exact .value h
    | elements huse h helements => exact .elements huse h helements
  · intro h
    cases h with
    | value h => exact .value h
    | elements huse h helements => exact .elements huse h helements

end Evaluation

namespace Node

/-- The evaluations in a render of the nodes in the scope. -/
inductive Evaluates (f : Registry) : Scope → List Node → Evaluation → Prop
  | expr {s : Scope} {e : Expr} {nodes : List Node} : Evaluates f s (.expr e :: nodes) ⟨[], s, .printed, e⟩
  | test {s : Scope} {b : Branch} {bs : List Branch} {o nodes : List Node} :
      Evaluates f s (.cond (b :: bs) o :: nodes) ⟨[], s, .tested, b.test⟩
  | taken {s : Scope} {b : Branch} {bs : List Branch} {o nodes : List Node} {v : Value} {x : Evaluation} :
      b.test.eval f s = .ok v → v.holds = true → Evaluates f s b.body x → Evaluates f s (.cond (b :: bs) o :: nodes) x
  /-- A branch whose test does not hold: the conditional goes on without it. -/
  | passed {s : Scope} {b : Branch} {bs : List Branch} {o nodes : List Node} {v : Value} {x : Evaluation} :
      b.test.eval f s = .ok v → v.holds = false → Evaluates f s [.cond bs o] x →
        Evaluates f s (.cond (b :: bs) o :: nodes) x
  | otherwise {s : Scope} {o nodes : List Node} {x : Evaluation} :
      Evaluates f s o x → Evaluates f s (.cond [] o :: nodes) x
  | collection {s : Scope} {item : Text} {c : Expr} {body nodes : List Node} :
      Evaluates f s (.loop item c body :: nodes) ⟨[], s, .iterated, c⟩
  /-- The body of a loop at one of the elements, when it was rendered for all before. -/
  | body {s : Scope} {item : Text} {c : Expr} {body nodes : List Node} {v u : Value} {before after : List Value}
      {x : Evaluation} : c.eval f s = .ok v → v.elements? = some (before ++ u :: after) →
        (∀ w ∈ before, ∃ t, renderNodes f (s.bind item w) body = .ok t) → Evaluates f (s.bind item u) body x →
          Evaluates f s (.loop item c body :: nodes) (x.inLoop item u)
  | later {s : Scope} {n : Node} {nodes : List Node} {t : Text} {x : Evaluation} :
      n.render f s = .ok t → Evaluates f s nodes x → Evaluates f s (n :: nodes) x

/-! ## Why a render fails -/

mutual

theorem exists_fails_of_render {f : Registry} {s : Scope} {e : Error} : {n : Node} → (nodes : List Node) →
    n.render f s = .error e → ∃ x, Evaluates f s (n :: nodes) x ∧ x.Fails f e
  | .text _, _, h => by
    rw [render] at h
    cases h
  | .expr c, _, h => by
    rw [render, bind_eq_error_iff] at h
    obtain h | ⟨v, -, h⟩ := h
    · exact ⟨_, .expr, .value h⟩
    · cases h
  | .cond bs o, nodes, h => exists_fails_of_cond nodes (fun ho => exists_fails_of_renderNodes ho) h
  | .loop item c body, nodes, h => by
    cases hc : c.eval f s with
    | error e' =>
      rw [render, hc] at h
      cases h
      exact ⟨_, .collection, .value hc⟩
    | ok v =>
      cases helements : v.elements? with
      | none =>
        rw [render_loop_of_no_elements hc helements] at h
        cases h
        exact ⟨_, .collection, .elements rfl hc helements⟩
      | some elements =>
        rw [render_loop_of_elements hc helements, map_eq_error_iff, mapM_eq_error_iff] at h
        obtain ⟨before, u, after, rfl, hbefore, hu⟩ := h
        obtain ⟨x, hx, hfails⟩ := exists_fails_of_renderNodes hu
        exact ⟨x.inLoop item u, .body hc helements hbefore hx, Evaluation.fails_inLoop_iff.mpr hfails⟩

theorem exists_fails_of_cond {f : Registry} {s : Scope} {e : Error} : {bs : List Branch} → {o : List Node} →
    (nodes : List Node) → (renderNodes f s o = .error e → ∃ x, Evaluates f s o x ∧ x.Fails f e) →
    (Node.cond bs o).render f s = .error e → ∃ x, Evaluates f s (.cond bs o :: nodes) x ∧ x.Fails f e
  | [], _, _, ho, h => by
    obtain ⟨x, hx, hfails⟩ := ho h
    exact ⟨x, .otherwise hx, hfails⟩
  | ⟨test, body⟩ :: bs, o, _, ho, h => by
    cases htest : test.eval f s with
    | error e' =>
      rw [render_cond_of_test_error htest] at h
      cases h
      exact ⟨_, .test, .value htest⟩
    | ok v =>
      cases hv : v.holds with
      | true =>
        rw [render_cond_of_holds htest hv] at h
        obtain ⟨x, hx, hfails⟩ := exists_fails_of_renderNodes h
        exact ⟨x, .taken htest hv hx, hfails⟩
      | false =>
        rw [render_cond_of_not_holds htest hv] at h
        obtain ⟨x, hx, hfails⟩ := exists_fails_of_cond [] ho h
        exact ⟨x, .passed htest hv hx, hfails⟩

theorem exists_fails_of_renderNodes {f : Registry} {s : Scope} {e : Error} : {nodes : List Node} →
    renderNodes f s nodes = .error e → ∃ x, Evaluates f s nodes x ∧ x.Fails f e
  | [], h => by
    rw [renderNodes] at h
    cases h
  | n :: nodes, h => by
    cases hn : n.render f s with
    | error e' =>
      rw [renderNodes_of_error hn] at h
      cases h
      exact exists_fails_of_render nodes hn
    | ok t =>
      rw [renderNodes_of_ok hn, map_eq_error_iff] at h
      obtain ⟨x, hx, hfails⟩ := exists_fails_of_renderNodes h
      exact ⟨x, .later hn hx, hfails⟩

end

theorem renderNodes_of_fails {f : Registry} {s : Scope} {nodes : List Node} {x : Evaluation} {e : Error}
    (h : Evaluates f s nodes x) (hfails : x.Fails f e) : renderNodes f s nodes = .error e := by
  induction h with
  | expr =>
    refine renderNodes_of_error ?_
    cases hfails with
    | value hvalue => rw [render, hvalue]; rfl
    | elements huse => cases huse
  | test =>
    refine renderNodes_of_error ?_
    cases hfails with
    | value hvalue => exact render_cond_of_test_error hvalue
    | elements huse => cases huse
  | taken htest hv _ ih =>
    refine renderNodes_of_error ?_
    rw [render_cond_of_holds htest hv]
    exact ih hfails
  | passed htest hv _ ih =>
    refine renderNodes_of_error ?_
    rw [render_cond_of_not_holds htest hv, ← renderNodes_singleton]
    exact ih hfails
  | otherwise _ ih => exact renderNodes_of_error (ih hfails)
  | collection =>
    refine renderNodes_of_error ?_
    cases hfails with
    | value hvalue => rw [render, hvalue]; rfl
    | elements _ hvalue helements => exact render_loop_of_no_elements hvalue helements
  | body hc helements hbefore _ ih =>
    refine renderNodes_of_error ?_
    rw [render_loop_of_elements hc helements, map_eq_error_iff, mapM_eq_error_iff]
    exact ⟨_, _, _, rfl, hbefore, ih (Evaluation.fails_inLoop_iff.mp hfails)⟩
  | later hn _ ih =>
    rw [renderNodes_of_ok hn, map_eq_error_iff]
    exact ih hfails

/-- A render fails with an error exactly when one of its evaluations does. -/
theorem renderNodes_eq_error_iff {f : Registry} {s : Scope} {nodes : List Node} {e : Error} :
    renderNodes f s nodes = .error e ↔ ∃ x, Evaluates f s nodes x ∧ x.Fails f e :=
  ⟨exists_fails_of_renderNodes, fun ⟨_, hx, hfails⟩ => renderNodes_of_fails hx hfails⟩

end Node

end MailMerge
