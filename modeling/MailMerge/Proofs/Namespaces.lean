/-
  MailMerge.Proofs.Namespaces — the caller's variables and the loops' variables never meet.

  At the root stand the caller's variables, all under the mark; over them a loop binds its
  variable, which is a name. The mark has a colon and no name has one, so a loop never hides a
  variable of the caller, and a bare name only ever means the variable of a loop.

  Proved: the scope of an evaluation is the root with the loops around the expression over it
  (`Evaluates.scope_eq`), these loops are loops of the tree (`Evaluates.item_mem`), and what the
  loops of a template bind are names (`Tree.names_of_read`). So at every evaluation
  in the render of a template, however deep in loops, both sorts of names have the values that
  they should have (`namespaces_apart`). It is the reader that makes it so: a tree made in another
  way may bind a name under the mark.
-/

import MailMerge.Proofs.BlockGrammar
import MailMerge.Proofs.Evaluations
import MailMerge.Proofs.ExprRules

namespace MailMerge

/-! ## The names that loops bind -/

namespace Node

mutual

/-- The names that the loops in the node bind. -/
def items : Node → List Text
  | .text _ | .expr _ => []
  | .cond branches otherwise => itemsOfBranches branches ++ itemsOfNodes otherwise
  | .loop item _ body => item :: itemsOfNodes body

def itemsOfNodes : List Node → List Text
  | [] => []
  | n :: nodes => n.items ++ itemsOfNodes nodes

def itemsOfBranches : List Branch → List Text
  | [] => []
  | ⟨_, body⟩ :: branches => itemsOfNodes body ++ itemsOfBranches branches

end

theorem itemsOfBranches_cons (b : Branch) (bs : List Branch) :
    itemsOfBranches (b :: bs) = itemsOfNodes b.body ++ itemsOfBranches bs := by
  obtain ⟨_, _⟩ := b
  rfl

section
variable {f : Registry} {s : Scope} {nodes : List Node} {x : Evaluation}

/-- The scope of an evaluation: over the first scope stand the loops around the expression. -/
theorem Evaluates.scope_eq (h : Evaluates f s nodes x) : x.scope = ⟨s.root, x.loops ++ s.bindings⟩ := by
  induction h with
  | expr | test | collection => rfl
  | taken _ _ _ ih | passed _ _ _ ih | otherwise _ ih | later _ _ ih => exact ih
  | @body s item c body nodes v u before after x _ _ _ _ ih =>
    show x.scope = ⟨s.root, x.loops ++ [(item, u)] ++ s.bindings⟩
    rw [ih, List.append_assoc]
    rfl

/-- The loops around an expression are loops of the tree. -/
theorem Evaluates.item_mem (h : Evaluates f s nodes x) : ∀ l ∈ x.loops, l.1 ∈ itemsOfNodes nodes := by
  induction h with
  | expr | test | collection => exact fun _ hl => nomatch hl
  | taken _ _ _ ih =>
    intro l hl
    simp only [itemsOfNodes, items, itemsOfBranches_cons, List.mem_append]
    exact Or.inl (Or.inl (Or.inl (ih l hl)))
  | passed _ _ _ ih =>
    intro l hl
    have hcond := ih l hl
    simp only [itemsOfNodes, items, itemsOfBranches_cons, List.mem_append, List.not_mem_nil, or_false] at hcond ⊢
    exact Or.inl (hcond.imp_left Or.inr)
  | otherwise _ ih => exact fun l hl => List.mem_append_left _ (ih l hl)
  | body _ _ _ _ ih =>
    intro l hl
    rcases List.mem_append.mp hl with hl | hl
    · exact List.mem_append_left _ (List.mem_cons_of_mem _ (ih l hl))
    · rw [List.mem_singleton.mp hl]
      exact List.mem_append_left _ List.mem_cons_self
  | later _ _ ih => exact fun l hl => List.mem_append_right _ (ih l hl)

end

end Node

namespace Tree

/-- All of the texts are names. -/
def Names (xs : List Text) : Prop := ∀ x ∈ xs, Text.isName x = true

theorem names_append_iff {xs ys : List Text} : Names (xs ++ ys) ↔ Names xs ∧ Names ys := List.forall_mem_append

theorem names_of_derives {n : Nat} {ls : List Lexeme} {T : List Node} (h : Derives n ls T) :
    Names (Node.itemsOfNodes T) := by
  induction h using Derives.rec
    (motive_2 := fun _ _ bs o _ => Names (Node.itemsOfBranches bs) ∧ Names (Node.itemsOfNodes o)) with
  | nil => exact fun _ hx => nomatch hx
  | text _ ih => exact ih
  | expr _ ih => exact ih
  | cond _ _ _ _ _ ihblock iharms ih =>
    simp only [Node.itemsOfNodes, Node.items, Node.itemsOfBranches_cons, names_append_iff]
    exact ⟨⟨⟨ihblock, iharms.1⟩, iharms.2⟩, ih⟩
  | loop _ hheader _ _ _ ihblock ih =>
    simp only [Node.itemsOfNodes, Node.items, names_append_iff]
    exact ⟨List.forall_mem_cons.mpr ⟨hheader.1, ihblock⟩, ih⟩
  | done => exact ⟨fun _ hx => (nomatch hx), fun _ hx => nomatch hx⟩
  | otherwise _ _ _ ihblock => exact ⟨fun _ hx => (nomatch hx), ihblock⟩
  | branch _ _ _ _ ihblock iharms =>
    rw [Node.itemsOfBranches_cons, names_append_iff]
    exact ⟨⟨ihblock, iharms.1⟩, iharms.2⟩

/-- What the loops of a template bind are names. -/
theorem names_of_read {t : Text} {T : List Node} (h : read t = .ok T) : Names (Node.itemsOfNodes T) := by
  obtain ⟨_, -, -, hder⟩ := exists_derives_of_read h
  exact names_of_derives hder

end Tree

/-! ## Names and the mark -/

theorem ne_marked_of_isName {x : Text} (h : Text.isName x = true) (n : Text) : x ≠ callerMark ++ n := by
  rintro rfl
  have hcolon : ':' ∈ callerMark ++ n := List.mem_append_left _ (by decide)
  exact absurd (Text.isNameChar_of_mem_name h ':' hcolon) (by decide)

namespace Scope

section
variable {fields : Keyed.Table Value} {loops : List (Text × Value)}

/-- Bindings of names leave the marked names alone. -/
theorem get?_marked (h : ∀ l ∈ loops, Text.isName l.1 = true) (n : Text) :
    Scope.get? ⟨Merger.marked fields, loops⟩ (callerMark ++ n) = fields.get? n := by
  have hloops : Keyed.get? (callerMark ++ n) loops = none := Keyed.get?_eq_none fun l hl => ne_marked_of_isName (h l hl) n
  rw [get?, hloops, Merger.get?_marked]
  rfl

/-- Marked names at the root leave the bare names alone. -/
theorem get?_bare {n : Text} (h : Text.isName n = true) :
    Scope.get? ⟨Merger.marked fields, loops⟩ n = Keyed.get? n loops := by
  rw [get?, Merger.get?_marked_of_bare (ne_marked_of_isName h), Option.or_none]

end

end Scope

/-! ## Renders of templates -/

namespace Merger

/-- The evaluations in a render of the tree with the caller's data. -/
def Evaluates (m : Merger) (T : List Node) (d : Data) (x : Evaluation) : Prop :=
  ∃ v root, d.toValue = .ok v ∧ rootNames v = .ok root ∧ Node.Evaluates m.functions (.ofRoot root) T x

/-- Whenever an expression of a template is evaluated, the marked names are the variables of the
    caller, whatever loops stand around it. A bare name is the variable of the innermost loop that
    binds it, and without such a loop it has no value, nor has any path that begins with it. -/
theorem namespaces_apart {m : Merger} {t : Text} {T : List Node} {d : Data} {fields : Keyed.Table Value}
    {x : Evaluation} (hT : Tree.read t = .ok T) (hd : d.toValue = .ok (.map fields)) (hx : m.Evaluates T d x) :
    (∀ n, x.scope.get? (callerMark ++ n) = fields.get? n) ∧
    (∀ n, Text.isName n = true → x.scope.get? n = Keyed.get? n x.loops) ∧
    ∀ n, Text.isName n = true → (∀ v, (n, v) ∉ x.loops) → ∀ keys, x.scope.lookup? (n :: keys) = none := by
  obtain ⟨v, root, hv, hroot, hx⟩ := hx
  rw [hd] at hv
  cases hv
  cases hroot
  have hscope : x.scope = ⟨marked fields, x.loops⟩ := by
    rw [hx.scope_eq]
    exact congrArg (Scope.mk _) (List.append_nil x.loops)
  have hnames : ∀ l ∈ x.loops, Text.isName l.1 = true := fun l hl => Tree.names_of_read hT l.1 (hx.item_mem l hl)
  rw [hscope]
  refine ⟨Scope.get?_marked hnames, fun n hn => Scope.get?_bare hn, fun n hn hfree keys => ?_⟩
  have hnone : Keyed.get? n x.loops = none := Keyed.get?_eq_none fun l hl heq => hfree l.2 (heq ▸ hl)
  rw [Scope.lookup?, Scope.get?_bare hn, hnone]
  rfl

/-- Two loops that bind one name, over lists that the caller has under the same name. -/
theorem namespaces_apart_nested :
    let t := Lexeme.join [.statement "for n in var:n".toList, .statement "for n in n".toList, .expression "n".toList,
      .statement "endfor".toList, .statement "endfor".toList]
    let var (path : Text) : Expr := .var path [path] none
    let T : List Node := [.loop "n".toList (var "var:n".toList) [.loop "n".toList (var "n".toList) [.expr (var "n".toList)]]]
    let d : Data := .object [("n".toList, .list [.list [.str "a".toList], .list [.str "b".toList, .str "c".toList]])]
    let last : Value := .list [.str "b".toList, .str "c".toList]
    let all : Value := .list [.list [.str "a".toList], last]
    let x : Evaluation := ⟨[("n".toList, .str "c".toList), ("n".toList, last)],
      ⟨.ofList [("var:n".toList, all)], [("n".toList, .str "c".toList), ("n".toList, last)]⟩, .printed, var "n".toList⟩
    Tree.read t = .ok T ∧ d.toValue = .ok (.map (.ofList [("n".toList, all)])) ∧ standard.Evaluates T d x ∧
      x.scope.get? "var:n".toList = some all ∧ x.scope.get? "n".toList = some (.str "c".toList) ∧
      x.scope.lookup? ["m".toList] = none := by
  intro t var T d last all x
  have hmarked : Expr.read "var:n".toList = var "var:n".toList := Expr.read_marked (x := "n".toList) (by decide)
  have hname : Expr.read "n".toList = var "n".toList := Expr.read_name (by decide) (by decide)
  have hT : Tree.read t = .ok T := by
    have hrow : Lexeme.InFront [.statement "for n in var:n".toList, .statement "for n in n".toList,
      .expression "n".toList, .statement "endfor".toList, .statement "endfor".toList] [] := by decide
    rw [Draft.read_join hrow rfl]
    show Except.ok [Node.loop "n".toList (.read "var:n".toList) [.loop "n".toList (.read "n".toList)
      [.expr (.read "n".toList)]]] = _
    rw [hmarked, hname]
  have hd : d.toValue = .ok (.map (.ofList [("n".toList, all)])) := rfl
  have hx : standard.Evaluates T d x := by
    refine ⟨_, _, hd, rfl, ?_⟩
    have houter : ∀ w ∈ [Value.list [.str "a".toList]], ∃ text,
        Node.renderNodes Registry.builtin (Scope.bind ⟨.ofList [("var:n".toList, all)], []⟩ "n".toList w)
          [.loop "n".toList (var "n".toList) [.expr (var "n".toList)]] = .ok text := by
      intro w hw
      rw [List.mem_singleton.mp hw]
      exact ⟨"a".toList, rfl⟩
    have hinner : ∀ w ∈ [Value.str "b".toList], ∃ text,
        Node.renderNodes Registry.builtin (Scope.bind ⟨.ofList [("var:n".toList, all)], [("n".toList, last)]⟩ "n".toList w)
          [.expr (var "n".toList)] = .ok text := by
      intro w hw
      rw [List.mem_singleton.mp hw]
      exact ⟨"b".toList, rfl⟩
    have hall : all.elements? = some ([.list [.str "a".toList]] ++ last :: []) := rfl
    have hlast : last.elements? = some ([.str "b".toList] ++ .str "c".toList :: []) := rfl
    exact .body rfl hall houter (.body rfl hlast hinner .expr)
  obtain ⟨hvariables, hnames, hnone⟩ := namespaces_apart hT hd hx
  refine ⟨hT, hd, hx, hvariables "n".toList, hnames "n".toList (by decide), hnone "m".toList (by decide) ?_ []⟩
  intro v hv
  simp only [x, List.mem_cons, Prod.mk.injEq, List.not_mem_nil, or_false] at hv
  rcases hv with ⟨h, -⟩ | ⟨h, -⟩ <;> exact absurd h (by decide)

/-- A tree that is not read may bind a name under the mark, and so hide a variable of the caller. -/
example : Node.renderNodes .builtin (.ofRoot (.ofList [("var:a".toList, .int 2)]))
    [.loop "var:a".toList (.literal [] (.list [.int 1])) [.expr (.var [] ["var:a".toList] none)]] = .ok "1".toList := rfl

end Merger

end MailMerge
