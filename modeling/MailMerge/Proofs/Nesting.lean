/-
  MailMerge.Proofs.Nesting — a flat conditional renders as nested conditionals do.

  A conditional keeps its branches in a row. It could as well have one branch and, after its
  `else`, a conditional with the branches that are left. `Node.nestNodes` puts a whole tree into
  that form: in the bodies of branches and loops, and after every `else`.

  Proved: in the nested form no conditional has a second branch (`nested_nestNodes`), and it
  renders to the same text or fails with the same error (`render_chain` for one conditional,
  `nested_form_renders_same` for trees). So no test after the one that holds, or that fails, matters.
-/

import MailMerge.Proofs.Rendering

namespace MailMerge.Node

/-- The conditional with its first branch alone, and after its `else` that of the other branches. -/
def chain : List Branch → List Node → Node
  | [], otherwise => .cond [] otherwise
  | [b], otherwise => .cond [b] otherwise
  | b :: b' :: bs, otherwise => .cond [b] [chain (b' :: bs) otherwise]

mutual

/-- The node in nested form, on every level. -/
def nest : Node → Node
  | .text s => .text s
  | .expr e => .expr e
  | .cond branches otherwise => chain (nestBranches branches) (nestNodes otherwise)
  | .loop item collection body => .loop item collection (nestNodes body)

def nestNodes : List Node → List Node
  | [] => []
  | n :: nodes => n.nest :: nestNodes nodes

def nestBranches : List Branch → List Branch
  | [] => []
  | ⟨test, body⟩ :: branches => ⟨test, nestNodes body⟩ :: nestBranches branches

end

mutual

/-- No conditional in the node has more than one branch. -/
def Nested : Node → Prop
  | .text _ | .expr _ => True
  | .cond branches otherwise => branches.length ≤ 1 ∧ NestedBranches branches ∧ NestedNodes otherwise
  | .loop _ _ body => NestedNodes body

def NestedNodes : List Node → Prop
  | [] => True
  | n :: nodes => n.Nested ∧ NestedNodes nodes

def NestedBranches : List Branch → Prop
  | [] => True
  | ⟨_, body⟩ :: branches => NestedNodes body ∧ NestedBranches branches

end

/-! ## The form -/

theorem nested_chain {branches : List Branch} {otherwise : List Node} (hbranches : NestedBranches branches)
    (hotherwise : NestedNodes otherwise) : (chain branches otherwise).Nested := by
  induction branches with
  | nil => exact ⟨Nat.zero_le 1, trivial, hotherwise⟩
  | cons b bs ih =>
    obtain ⟨test, body⟩ := b
    obtain ⟨hb, hbs⟩ := hbranches
    cases bs with
    | nil => exact ⟨Nat.le_refl 1, ⟨hb, trivial⟩, hotherwise⟩
    | cons b' bs => exact ⟨Nat.le_refl 1, ⟨hb, trivial⟩, ih hbs, trivial⟩

mutual

theorem nested_nest : (n : Node) → n.nest.Nested
  | .text _ | .expr _ => trivial
  | .cond branches otherwise => nested_chain (nestedBranches_nestBranches branches) (nested_nestNodes otherwise)
  | .loop _ _ body => nested_nestNodes body

theorem nested_nestNodes : (nodes : List Node) → NestedNodes (nestNodes nodes)
  | [] => trivial
  | n :: nodes => ⟨nested_nest n, nested_nestNodes nodes⟩

theorem nestedBranches_nestBranches : (branches : List Branch) → NestedBranches (nestBranches branches)
  | [] => trivial
  | ⟨_, body⟩ :: branches => ⟨nested_nestNodes body, nestedBranches_nestBranches branches⟩

end

/-! ## Rendering -/

/-- One conditional renders as its chain does. -/
theorem render_chain {f : Registry} {s : Scope} (branches : List Branch) (otherwise : List Node) :
    (chain branches otherwise).render f s = (Node.cond branches otherwise).render f s := by
  induction branches with
  | nil => rfl
  | cons b bs ih =>
    cases bs with
    | nil => rfl
    | cons b' bs =>
      rw [chain, render_cond_cons, render_cond_cons b (b' :: bs), render_cond_nil, renderNodes_singleton, ih]

mutual

theorem render_nest {f : Registry} {s : Scope} : (n : Node) → n.nest.render f s = n.render f s
  | .text _ | .expr _ => rfl
  | .cond branches otherwise => by
    rw [nest, render_chain, render, render, renderBranches_nestBranches branches, renderNodes_nestNodes otherwise]
  | .loop item collection body => by
    have hbody (v : Value) : renderNodes f (s.bind item v) (nestNodes body) = renderNodes f (s.bind item v) body :=
      renderNodes_nestNodes body
    simp only [nest, render, hbody]

theorem renderNodes_nestNodes {f : Registry} {s : Scope} :
    (nodes : List Node) → renderNodes f s (nestNodes nodes) = renderNodes f s nodes
  | [] => rfl
  | n :: nodes => by rw [nestNodes, renderNodes, renderNodes, render_nest n, renderNodes_nestNodes nodes]

theorem renderBranches_nestBranches {f : Registry} {s : Scope} :
    (branches : List Branch) → renderBranches f s (nestBranches branches) = renderBranches f s branches
  | [] => rfl
  | ⟨test, body⟩ :: branches => by
    rw [nestBranches, renderBranches, renderBranches, renderNodes_nestNodes body, renderBranches_nestBranches branches]

end

/-- A tree in nested form, in which every conditional has one branch, renders to the text that the
    flat tree renders to, or fails with the same error, in every scope and with every registry. -/
theorem nested_form_renders_same (nodes : List Node) :
    NestedNodes (nestNodes nodes) ∧
      ∀ (s : Scope) (f : Registry), renderNodes f s (nestNodes nodes) = renderNodes f s nodes :=
  ⟨nested_nestNodes nodes, fun _ _ => renderNodes_nestNodes nodes⟩

end MailMerge.Node
