/-
  MailMerge.Proofs.Leaves — what a rendering consists of.

  Only texts and printed expressions give text. They are the leaves of a tree (`Node.leaves`);
  conditionals and loops say which of them are rendered, in which scopes and how often.

  Proved: what holds of the text of every leaf, whatever its scope, and is kept when texts are put
  one after another, holds of every rendering (`Node.renderNodes_of_leaves`). The leaves of a
  template are its tokens without the statements, in the same order (`Tree.leaves_of_read`).
-/

import MailMerge.Proofs.BlockGrammar
import MailMerge.Proofs.Pieces

namespace MailMerge

namespace Node

mutual

/-- The texts and printed expressions that stand anywhere in the node. -/
def leaves : Node → List Node
  | .text s => [.text s]
  | .expr e => [.expr e]
  | .cond branches otherwise => leavesOfBranches branches ++ leavesOfNodes otherwise
  | .loop _ _ body => leavesOfNodes body

def leavesOfNodes : List Node → List Node
  | [] => []
  | n :: nodes => n.leaves ++ leavesOfNodes nodes

def leavesOfBranches : List Branch → List Node
  | [] => []
  | ⟨_, body⟩ :: branches => leavesOfNodes body ++ leavesOfBranches branches

end

/-! ## Renderings -/

/-- A property of texts that holds of a row of texts when it holds of each of them. -/
structure Additive (P : Text → Prop) : Prop where
  nil : P []
  append {a b : Text} : P a → P b → P (a ++ b)

theorem Additive.flatten {P : Text → Prop} (hP : Additive P) {ts : List Text} (h : ∀ t ∈ ts, P t) : P ts.flatten := by
  induction ts with
  | nil => exact hP.nil
  | cons t ts ih =>
    obtain ⟨ht, hts⟩ := List.forall_mem_cons.mp h
    exact hP.append ht (ih hts)

/-- The property holds of the text of each of these nodes, in whatever scope it is rendered. -/
def Give (f : Registry) (P : Text → Prop) (leaves : List Node) : Prop :=
  ∀ n ∈ leaves, ∀ s t, n.render f s = .ok t → P t

theorem give_append_iff {f : Registry} {P : Text → Prop} {ns ms : List Node} :
    Give f P (ns ++ ms) ↔ Give f P ns ∧ Give f P ms := List.forall_mem_append

mutual

theorem render_of_leaves {f : Registry} {P : Text → Prop} (hP : Additive P) {s : Scope} {t : Text} :
    {n : Node} → Give f P n.leaves → n.render f s = .ok t → P t
  | .text s', h, ht => h (.text s') List.mem_cons_self s t ht
  | .expr e, h, ht => h (.expr e) List.mem_cons_self s t ht
  | .cond branches otherwise, h, ht => by
    obtain ⟨hbranches, hotherwise⟩ := give_append_iff.mp h
    rw [render, bind_eq_ok_iff] at ht
    obtain ⟨taken, htaken, ht⟩ := ht
    cases taken with
    | some t' =>
      cases ht
      exact renderBranches_of_leaves hP hbranches htaken
    | none => exact renderNodes_of_leaves hP hotherwise ht
  | .loop item collection body, h, ht => by
    rw [render, bind_eq_ok_iff] at ht
    obtain ⟨v, -, ht⟩ := ht
    cases helements : v.elements? with
    | none =>
      rw [helements] at ht
      cases ht
    | some elements =>
      rw [helements] at ht
      obtain ⟨ts, hts, ht⟩ := bind_eq_ok_iff.mp ht
      cases ht
      refine hP.flatten fun t ht => ?_
      obtain ⟨u, -, hu⟩ := exists_of_mem_mapM hts ht
      exact renderNodes_of_leaves hP h hu

theorem renderNodes_of_leaves {f : Registry} {P : Text → Prop} (hP : Additive P) {s : Scope} {t : Text} :
    {nodes : List Node} → Give f P (leavesOfNodes nodes) → renderNodes f s nodes = .ok t → P t
  | [], _, ht => by
    cases ht
    exact hP.nil
  | n :: nodes, h, ht => by
    obtain ⟨hn, hnodes⟩ := give_append_iff.mp h
    rw [renderNodes, bind_eq_ok_iff] at ht
    obtain ⟨a, ha, ht⟩ := ht
    obtain ⟨b, hb, ht⟩ := bind_eq_ok_iff.mp ht
    cases ht
    exact hP.append (render_of_leaves hP hn ha) (renderNodes_of_leaves hP hnodes hb)

theorem renderBranches_of_leaves {f : Registry} {P : Text → Prop} (hP : Additive P) {s : Scope} {t : Text} :
    {branches : List Branch} → Give f P (leavesOfBranches branches) → renderBranches f s branches = .ok (some t) → P t
  | [], _, ht => nomatch ht
  | ⟨test, body⟩ :: branches, h, ht => by
    obtain ⟨hbody, hbranches⟩ := give_append_iff.mp h
    rw [renderBranches, bind_eq_ok_iff] at ht
    obtain ⟨v, -, ht⟩ := ht
    split at ht
    · obtain ⟨t', ht', ht⟩ := bind_eq_ok_iff.mp ht
      cases ht
      exact renderNodes_of_leaves hP hbody ht'
    · exact renderBranches_of_leaves hP hbranches ht

end

end Node

/-! ## Templates -/

/-- The tokens that are no statements, as nodes. -/
def Lexeme.leaves (ls : List Lexeme) : List Node := (ls.filter (!·.isStatement)).map Lexeme.node

namespace Tree

open Lexeme (leaves)

theorem leaves_of_derives {n : Nat} {ls : List Lexeme} {T : List Node} (h : Derives n ls T) :
    Node.leavesOfNodes T = leaves ls := by
  have happend (ls ms : List Lexeme) : leaves (ls ++ ms) = leaves ls ++ leaves ms := by simp [leaves]
  have hstatement (inner : Text) (ls : List Lexeme) : leaves (.statement inner :: ls) = leaves ls := rfl
  induction h using Derives.rec
    (motive_2 := fun _ ls bs o _ => Node.leavesOfBranches bs ++ Node.leavesOfNodes o = leaves ls) with
  | nil => rfl
  | text _ ih => exact congrArg (_ :: ·) ih
  | expr _ ih => exact congrArg (_ :: ·) ih
  | cond _ _ _ _ _ ihblock iharms ih =>
    rw [hstatement, happend, happend, ← ihblock, ← iharms, ← ih]
    simp [Node.leavesOfNodes, Node.leaves, Node.leavesOfBranches]
  | loop _ _ _ _ _ ihblock ih =>
    rw [hstatement, happend, hstatement, ← ihblock, ← ih]
    simp [Node.leavesOfNodes, Node.leaves]
  | done => rfl
  | otherwise _ _ _ ihblock =>
    rw [hstatement, happend, hstatement, ← ihblock]
    simp [Node.leavesOfBranches, leaves]
  | branch _ _ _ _ ihblock iharms =>
    rw [hstatement, happend, ← ihblock, ← iharms]
    simp [Node.leavesOfBranches]

/-- The leaves of a template are its tokens without the statements, in their order. -/
theorem leaves_of_read {t : Text} {T : List Node} {ts : List Token} (h : read t = .ok T)
    (hts : Token.readAll t = .ok ts) : Node.leavesOfNodes T = leaves (ts.map Token.lexeme) := by
  obtain ⟨ts', hts', hder⟩ := (read_iff_derives t T).mp h
  rw [hts] at hts'
  cases hts'
  exact leaves_of_derives hder

end Tree

end MailMerge
