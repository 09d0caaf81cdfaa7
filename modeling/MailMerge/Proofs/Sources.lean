/-
  MailMerge.Proofs.Sources — an expression and the text that it keeps.

  Expressions are read once, when the template is, and every part of one keeps the text that it
  was read from. Parts are what `Expr.Part` joins: the argument of a call and the two sides of a
  comparison; an expression occurs in another when parts lead down to it.

  Proved: whatever occurs in an expression that was read was itself read from a text
  (`Expr.exists_read_of_occurs`), which reads the same as the text that it keeps
  (`Expr.read_source_read`), and the texts of parts are smaller and smaller pieces
  (`Expr.Nests.within_of_below`). So it makes no difference whether an expression of a tree is
  evaluated as it stands or read again from its text (`Merger.evaluate_stored`).
-/

import Mathlib.Logic.Relation
import MailMerge.Proofs.ErrorTexts

namespace MailMerge

open Text (Trimmed Within)

theorem Text.Within.trans {r s t : Text} (h : r.Within s) (h' : s.Within t) : r.Within t := .of_isInfix h.1 h'

namespace Expr

/-- The expression is the argument of a call, or one side of a comparison. -/
inductive Part : Expr → Expr → Prop
  | argument {source name : Text} {arg : Expr} : Part arg (.call source name arg)
  | left {source : Text} {op : Op} {left right : Expr} : Part left (.compare source op left right)
  | right {source : Text} {op : Op} {left right : Expr} : Part right (.compare source op left right)

/-- The expression is the other one or stands in it, at any depth. -/
def Occurs : Expr → Expr → Prop := Relation.ReflTransGen Part

/-- The expression stands in the other one, at any depth. -/
def Below : Expr → Expr → Prop := Relation.TransGen Part

/-! ## What occurs in an expression -/

theorem read_source_read (s : Text) : read (read s).source = read s := by rw [source_read, read_trim]

theorem exists_read_of_part {s : Text} {e : Expr} (h : Part e (read s)) : ∃ c, e = read c := by
  rw [read] at h
  split at h
  · cases h
    exact ⟨_, rfl⟩
  · split at h
    · cases h
    · split at h
      · cases h
        · exact ⟨_, rfl⟩
        · exact ⟨_, rfl⟩
      · split at h <;> cases h

/-- What occurs in an expression that was read was read from a text of its own. -/
theorem exists_read_of_occurs {s : Text} {e : Expr} (h : Occurs e (read s)) : ∃ c, e = read c := by
  induction h using Relation.ReflTransGen.head_induction_on with
  | refl => exact ⟨s, rfl⟩
  | head hpart _ ih =>
    obtain ⟨c, rfl⟩ := ih
    exact exists_read_of_part hpart

theorem Nests.of_part {e e' : Expr} (h : e.Nests) (hpart : Part e' e) : e'.Nests ∧ e'.source.Within e.source := by
  cases hpart with
  | argument =>
    cases h with
    | call _ hwithin harg => exact ⟨harg, hwithin⟩
  | left =>
    cases h with
    | compare _ hwithin _ hleft _ => exact ⟨hleft, hwithin⟩
  | right =>
    cases h with
    | compare _ _ hwithin _ hright => exact ⟨hright, hwithin⟩

/-- The text of what stands in an expression is a piece of the expression's text, and not all of it. -/
theorem Nests.within_of_below {e e' : Expr} (h : e.Nests) (hbelow : Below e' e) : e'.source.Within e.source := by
  have hboth : e'.Nests ∧ e'.source.Within e.source := by
    induction hbelow using Relation.TransGen.head_induction_on with
    | single hpart => exact h.of_part hpart
    | head hpart _ ih =>
      obtain ⟨hnests, hwithin⟩ := ih.1.of_part hpart
      exact ⟨hnests, hwithin.trans ih.2⟩
  exact hboth.2

end Expr

/-! ## Evaluating what is stored -/

namespace Merger

/-- Everything that occurs in an expression that was read is what its own text reads as; that text is
    trimmed, and the texts of what stands in it are smaller pieces of it. So an expression anywhere in
    the tree of a template has the value, or fails with the error, that its text has. -/
theorem evaluate_stored (m : Merger) (scope : Scope) :
    (∀ s e, Expr.Occurs e (.read s) → Expr.read e.source = e ∧ Trimmed e.source ∧
      ∀ e', Expr.Below e' e → e'.source.Within e.source) ∧
    ∀ t T, Tree.read t = .ok T → ∀ c ∈ Node.exprsOfNodes T, ∀ e, Expr.Occurs e c →
      e.eval m.functions scope = m.evaluate e.source scope := by
  refine ⟨fun s e he => ?_, fun t T hT c hc e he => ?_⟩
  · obtain ⟨x, rfl⟩ := Expr.exists_read_of_occurs he
    have hnests := Expr.nests_read x
    exact ⟨Expr.read_source_read x, hnests.trimmed, fun e' hbelow => hnests.within_of_below hbelow⟩
  · obtain ⟨ts, -, hder⟩ := (Tree.read_iff_derives t T).mp hT
    obtain ⟨_, _, _, x, _, rfl⟩ := Tree.exprs_of_derives hder c hc
    obtain ⟨y, rfl⟩ := Expr.exists_read_of_occurs he
    rw [evaluate, Expr.read_source_read]

/-- An operand in the argument of a call, with blanks around it where it was read. -/
theorem evaluate_stored_operand :
    let t := Lexeme.join [.expression " Escape( var:a < 1 ) ".toList]
    let whole := "Escape( var:a < 1 )".toList
    let argument := " var:a < 1 ".toList
    let operand := "var:a ".toList
    let scope : Scope := .ofRoot (.ofList [("var:a".toList, .int 0)])
    Tree.read t = .ok [.expr (.read whole)] ∧ Expr.Occurs (.read operand) (.read whole) ∧
      Expr.Below (.read operand) (.read argument) ∧
      (Expr.read operand).source.Within (Expr.read argument).source ∧ Expr.read "var:a".toList = .read operand ∧
      (Expr.read argument).eval standard.functions scope = standard.evaluate "var:a < 1".toList scope := by
  intro t whole argument operand scope
  have hcall : Expr.read whole = .call whole "Escape".toList (.read argument) := Expr.read_of_call (by decide) (by decide)
  have hcompare : Expr.read argument =
      .compare "var:a < 1".toList .lt (.read operand) (.read " 1".toList) := by
    rw [← Expr.read_trim]
    exact Expr.read_of_operator (p := ⟨operand, "<".toList, .lt, " 1".toList⟩) (by decide) (by decide)
  have hargument : Expr.Part (.read argument) (.read whole) := by
    rw [hcall]
    exact .argument
  have hoperand : Expr.Part (.read operand) (.read argument) := by
    rw [hcompare]
    exact .left
  have hrow : Lexeme.InFront [.expression " Escape( var:a < 1 ) ".toList] [] := by decide
  have hT : Tree.read t = .ok [.expr (.read whole)] := Draft.read_join hrow rfl
  have hoccurs : Expr.Occurs (.read argument) (.read whole) := .single hargument
  have hdeep : Expr.Occurs (.read operand) (.read whole) := .head hoperand hoccurs
  obtain ⟨hread, htree⟩ := evaluate_stored standard scope
  have hself := (hread whole (.read operand) hdeep).1
  have heval := htree t _ hT (.read whole) (by simp [Node.exprsOfNodes, Node.exprs]) _ hoccurs
  rw [Expr.source_read] at hself heval
  exact ⟨hT, hdeep, .single hoperand, (hread whole _ hoccurs).2.2 _ (.single hoperand), hself, heval⟩

end Merger

end MailMerge
