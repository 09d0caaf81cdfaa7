/-
  MailMerge.Proofs.Chains — comparisons in a row.

  A chain is operands with operators between them, each operator with a space on both sides
  (`Operator.chain`). An operand is any text at whose free places no operator is spelled, and behind
  which the place is free again (`Operator.Operand`): a call, a reference and a scalar are operands,
  whatever operators stand in their quotations and parentheses (`Operator.operand_of_isTerm`).

  Proved: a chain is cut at its first operator (`Operator.split?_link`), and so it is read as a
  comparison of its first operand with the chain that follows, down to the last operand
  (`Expr.read_chain`).
-/

import MailMerge.Proofs.Operators

namespace MailMerge

namespace Operator

open MailMerge.Expr (isSilent)

/-! ## Operands -/

/-- The text has no operator outside quotations and parentheses, and leaves none of these open. -/
structure Operand (x : Text) : Prop where
  quiet : ∀ a b, x = a ++ b → Place.start.after a = .start → ∀ spelling ∈ spellings, ¬ spelling.1 <+: b
  closed : Place.start.after x = .start

theorem operand_iff {x : Text} : Operand x ↔ split? x = none ∧ Place.start.after x = .start := by
  rw [split?_eq_none_iff]
  constructor
  · intro h
    exact ⟨h.quiet, h.closed⟩
  · intro h
    obtain ⟨hquiet, hclosed⟩ := h
    exact ⟨hquiet, hclosed⟩

instance (x : Text) : Decidable (Operand x) := decidable_of_iff _ operand_iff.symm

theorem operand_padded {a s b : Text} (ha : Text.Blanks a) (hs : Operand s) (hb : Text.Blanks b) :
    Operand (a ++ (s ++ b)) := by
  have pass {x : Text} (hx : Text.Blanks x) : Place.start.after x = .start :=
    Place.after_of_passes (Expr.silent_of_blanks hx) 0
  obtain ⟨hquiet, hclosed⟩ := operand_iff.mp hs
  refine operand_iff.mpr ⟨?_, ?_⟩
  · rw [split?_padded s ha hb, hquiet]
    rfl
  · rw [Place.after_append, Place.after_append, pass ha, hclosed, pass hb]

theorem operand_of_silent {s : Text} (h : Expr.Silent s) : Operand s :=
  operand_iff.mpr ⟨Expr.operator_of_silent h, Place.after_of_passes h 0⟩

/-! ## Calls -/

theorem Place.after_quoted {q : Text} (hq : Quoted q) (depth : Nat) :
    after ⟨.inside, depth⟩ (q ++ ['"']) = ⟨.outside, depth⟩ := by
  induction hq with
  | nil => rfl
  | @plain c s hquote hslash _ ih =>
    have hnext : next ⟨.inside, depth⟩ c = ⟨.inside, depth⟩ := by simp [next, Quotes.next, Quotes.covers, hquote, hslash]
    rw [List.cons_append, after_cons, hnext, ih]
  | escaped _ ih => exact ih

/-- A balanced text leaves as many parentheses open as it finds. -/
theorem Place.after_balanced {a : Text} (ha : Balanced a) (depth : Nat) :
    after ⟨.outside, depth⟩ a = ⟨.outside, depth⟩ := by
  induction ha generalizing depth with
  | nil => rfl
  | @plain c s hquote hopen hclose _ ih =>
    have hnext : next ⟨.outside, depth⟩ c = ⟨.outside, depth⟩ := by
      simp [next, Quotes.next, Quotes.covers, hquote, hopen, hclose]
    rw [after_cons, hnext, ih]
  | @quotation q s hq _ ih =>
    have hsplit : '"' :: q ++ '"' :: s = '"' :: ((q ++ ['"']) ++ s) := by simp
    rw [hsplit, after_cons, after_append]
    exact (congrArg (after · s) (after_quoted hq depth)).trans (ih depth)
  | @parentheses a s _ _ iha ihs =>
    rw [List.cons_append, after_cons, after_append]
    exact (congrArg (after · (')' :: s)) (iha (depth + 1))).trans (ihs depth)

theorem operand_of_call {s name a : Text} (h : Call.split? s = some (name, a)) : Operand s := by
  obtain ⟨rfl, hcallable, ha⟩ := Call.split?_iff_balanced.mp h
  refine operand_iff.mpr ⟨Expr.operator_of_call h, ?_⟩
  have hname : Place.start.after name = .start :=
    Place.after_of_passes (Expr.silent_of_name (Call.isCallable_iff.mp hcallable).1) 0
  have hparentheses : Balanced ('(' :: a ++ ')' :: []) := .parentheses ha .nil
  rw [List.append_assoc, Place.after_append, hname]
  exact Place.after_balanced hparentheses 0

end Operator

/-- A call, a reference or a scalar. -/
def Expr.isTerm : Expr → Bool
  | .call .. | .var .. | .literal .. => true
  | .compare .. | .unsupported _ => false

/-- What is read as a call, a reference or a scalar is an operand. -/
theorem Operator.operand_of_isTerm {x : Text} (h : (Expr.read x).isTerm = true) : Operand x := by
  obtain ⟨a, b, ha, hb, hx⟩ := Text.trim_split x
  rw [hx]
  refine operand_padded ha ?_ hb
  rw [Expr.read] at h
  split at h
  · rename_i hcall
    exact operand_of_call hcall
  · split at h
    · rename_i hreference
      exact operand_of_silent (Expr.silent_of_reference hreference)
    · split at h
      · cases h
      · split at h
        · rename_i hliteral
          exact operand_of_silent (Expr.silent_of_literal hliteral)
        · cases h

/-! ## Chains -/

namespace Operator

/-- An operator as it is spelled, and the operand after it. -/
structure Link where
  symbol : Text
  op : Op
  operand : Text
  spelled : (symbol, op) ∈ spellings

/-- The operands in a row, with the operators between them. -/
def chain (first : Text) : List Link → Text
  | [] => first
  | l :: links => first ++ ' ' :: (l.symbol ++ ' ' :: chain l.operand links)

/-- An operand is followed by the operator that stands behind it. -/
theorem split?_link {x symbol : Text} {op : Op} (hx : Operand x) (h : (symbol, op) ∈ spellings) (r : Text) :
    split? (x ++ ' ' :: (symbol ++ ' ' :: r)) = some ⟨x ++ [' '], symbol, op, ' ' :: r⟩ := by
  obtain ⟨hquiet, hclosed⟩ := operand_iff.mp hx
  have hspace : search .start (' ' :: (symbol ++ ' ' :: r)) =
      (search .start (symbol ++ ' ' :: r)).map (Split.behind [' ']) := search_blanks_append Text.blanks_space _
  have hsymbol : search .start (symbol ++ ' ' :: r) = some ⟨[], symbol, op, ' ' :: r⟩ := by
    have hat : at? (symbol ++ ' ' :: r) = some (symbol, op) := by
      rw [at?_append symbol fun c hc => by cases hc; decide]
      exact at?_of_mem h
    obtain ⟨c, s, rfl⟩ := List.exists_cons_of_ne_nil (at?_spells hat).1
    rw [List.cons_append] at hat ⊢
    rw [search_cons, if_pos rfl, hat]
    simp
  have hsearch : search .start (x ++ ' ' :: (symbol ++ ' ' :: r)) =
      (search (Place.start.after x) (' ' :: (symbol ++ ' ' :: r))).map (Split.behind x) :=
    search_append_of_none hquiet fun c hc => by cases hc; decide
  rw [hclosed, hspace, hsymbol] at hsearch
  exact hsearch

end Operator

namespace Expr

open Operator (Link Operand chain)

/-- The first operand compared with the rest of the chain. -/
def ofChain (first : Text) : List Link → Expr
  | [] => read first
  | l :: links => .compare (Text.trim (chain first (l :: links))) l.op (read first) (ofChain l.operand links)

/-- A chain of comparisons is cut at its first operator and nests to the right; and calls,
    references and scalars are operands. -/
theorem read_chain :
    (∀ first links, Operand first → (∀ l ∈ links, Operand l.operand) → read (chain first links) = ofChain first links) ∧
      ∀ x, (read x).isTerm = true → Operand x := by
  refine ⟨fun first links hfirst hlinks => ?_, fun x => Operator.operand_of_isTerm⟩
  induction links generalizing first with
  | nil => rfl
  | cons l links ih =>
    obtain ⟨hoperand, hlater⟩ := List.forall_mem_cons.mp hlinks
    have hbefore : read (first ++ [' ']) = read first := read_append_blanks first Text.blanks_space
    have hafter : read (' ' :: chain l.operand links) = ofChain l.operand links :=
      (read_blanks_append Text.blanks_space _).trans (ih _ hoperand hlater)
    rw [chain, read_of_split (Operator.split?_link hfirst l.spelled _), hbefore, hafter]
    rfl

/-- A call and a fallback with operators in their quotations, and a parenthesis that none has opened. -/
theorem read_chain_quoted :
    let first := "F(\"(<\")".toList
    let links : List Link := [⟨"<=".toList, .le, "x:\"a==b\"".toList, by decide⟩, ⟨"===".toList, .eq, "3)".toList, by decide⟩]
    (read first).isTerm = true ∧ (∀ l ∈ links, Operand l.operand) ∧
      read "F(\"(<\") <= x:\"a==b\" === 3)".toList =
        .compare "F(\"(<\") <= x:\"a==b\" === 3)".toList .le (read first)
          (.compare "x:\"a==b\" === 3)".toList .eq (read "x:\"a==b\"".toList) (read "3)".toList)) := by
  intro first links
  have hterm : (read first).isTerm = true := by
    have hcall : read first = .call first "F".toList (read "\"(<\"".toList) := read_of_call (by decide) (by decide)
    rw [hcall]
    rfl
  have hlinks : ∀ l ∈ links, Operand l.operand := by decide
  exact ⟨hterm, hlinks, read_chain.1 first links (read_chain.2 first hterm) hlinks⟩

end Expr

end MailMerge
