/-
  MailMerge.Proofs.Concatenation — two templates one after another.

  Where the first template ends and the second begins there is a seam. No delimiter stands across
  it (`Tree.Seam`) when the first template is empty or ends in a tag, or when the two characters
  at the seam are not a delimiter.

  Proved: across such a seam trees and errors compose (`read_append`). The nodes of the second
  template follow those of the first, literal text on both sides of the seam is one text
  (`Node.joined`), and an error of the second template is the same further down. Three cases:
  (1) the first template is empty or ends in a tag: its lexemes are in front of any text;
  (2) it ends in literal text and the second opens a tag, or is empty: so they are of this one;
  (3) literal text meets literal text: the first lexeme of the second template is cut with more
      text before it, and if it cannot be cut it fails with the same error (`Token.cut_text_append`).
  Therefore the texts that templates are merged to compose too (`merge_append`).
-/

import MailMerge.Proofs.BlockGrammar
import MailMerge.Proofs.ExprRules
import MailMerge.Proofs.Rendering
import MailMerge.Proofs.Resuming

namespace MailMerge

open Delimiter (Free Apart)

/-! ## Trees in a row -/

/-- The nodes in a row. Where text meets text, it is one text. -/
def Node.joined (A B : List Node) : List Node :=
  match A.getLast?, B with
  | some (.text s), .text t :: B => A.dropLast ++ .text (s ++ t) :: B
  | _, _ => A ++ B

namespace Node

theorem joined_text_text (A B : List Node) (s t : Text) :
    joined (A ++ [.text s]) (.text t :: B) = A ++ .text (s ++ t) :: B := by
  simp [joined]

theorem joined_of_left {A : List Node} (B : List Node) (h : ∀ s, A.getLast? ≠ some (.text s)) : joined A B = A ++ B := by
  unfold joined
  split
  · rename_i hlast
    exact absurd hlast (h _)
  · rfl

theorem joined_of_right (A : List Node) {B : List Node} (h : ∀ t, B.head? ≠ some (.text t)) : joined A B = A ++ B := by
  unfold joined
  split
  · exact absurd rfl (h _)
  · rfl

/-- Joined nodes render as nodes in a row. -/
theorem renderNodes_joined (f : Registry) (s : Scope) (A B : List Node) :
    renderNodes f s (joined A B) = renderNodes f s (A ++ B) := by
  unfold joined
  split
  · rename_i t u B' hlast
    obtain ⟨A', rfl⟩ := List.getLast?_eq_some_iff.mp hlast
    rw [List.dropLast_concat, List.append_assoc, renderNodes_append, renderNodes_append]
    simp only [List.singleton_append, renderNodes, render]
    cases renderNodes f s A' with
    | error e => rfl
    | ok x =>
      cases renderNodes f s B' with
      | error e => rfl
      | ok y => exact congrArg (fun z => Except.ok (x ++ z)) (List.append_assoc t u y)
  · rfl

end Node

/-! ## Literal text before more text -/

namespace Delimiter

/-- No delimiter begins in the first text and ends in the second. -/
def ApartAt (s b : Text) : Prop := ∀ x ∈ s.getLast?, ∀ y ∈ b.head?, Apart x y

theorem ApartAt.tail {c : Char} {s b : Text} (h : ApartAt (c :: s) b) : ApartAt s b := by
  cases s with
  | nil => exact fun x hx => nomatch hx
  | cons d s =>
    intro x hx
    refine h x ?_
    rwa [List.getLast?_cons_cons]

/-- No delimiter is at the front of free text before a seam without one. -/
theorem at?_append {c : Char} {s b : Text} (hfree : Free (c :: s)) (hseam : ApartAt (c :: s) b) :
    at? (c :: (s ++ b)) = none := by
  cases s with
  | cons d s =>
    have hat := (free_cons_iff.mp hfree).1
    rw [Option.eq_none_iff_forall_ne_some] at hat ⊢
    intro del hdel
    refine hat del (at?_eq_some_iff.mpr ?_)
    -- Two characters at the front are those of the free text.
    exact List.prefix_of_prefix_length_le (at?_eq_some_iff.mp hdel) (List.prefix_append (c :: d :: s) b)
      (by rw [length_text]; simp)
  | nil =>
    rw [Option.eq_none_iff_forall_ne_some]
    intro del hdel
    have heq := eq_of_at? hdel
    cases b with
    | nil => cases del <;> cases heq
    | cons y b => exact hseam c rfl y rfl del (by cases del <;> cases heq <;> rfl)

theorem firstIn?_append {s b : Text} (hfree : Free s) (hseam : ApartAt s b) :
    firstIn? (s ++ b) = (firstIn? b).map fun (before, d) => (s ++ before, d) := by
  induction s with
  | nil =>
    show firstIn? b = _
    cases firstIn? b <;> rfl
  | cons c s ih =>
    have hlater := ih (free_cons_iff.mp hfree).2 hseam.tail
    simp only [List.cons_append, firstIn?, at?_append hfree hseam, hlater, Option.map_map]
    rfl

end Delimiter

open Delimiter (ApartAt)

namespace Token

theorem opensTag_eq_false_of_at? {s : Text} (h : Delimiter.at? s = none) : opensTag s = false := by
  rw [opensTag, h]

theorem splitContent_append_seam {s b : Text} (hfree : Free s) (hseam : ApartAt s b) :
    splitContent (s ++ b) = (s ++ (splitContent b).1, (splitContent b).2) := by
  induction s with
  | nil => rfl
  | cons c s ih =>
    have hlater := ih (Delimiter.free_cons_iff.mp hfree).2 hseam.tail
    have hopen : opensTag (c :: (s ++ b)) = false := opensTag_eq_false_of_at? (Delimiter.at?_append hfree hseam)
    simp [splitContent, hopen, hlater]

/-- The seam is the same before the literal text that the second text begins with. -/
theorem apartAt_splitContent {s b : Text} (hseam : ApartAt s b) : ApartAt s (splitContent b).1 := by
  intro x hx y hy
  refine hseam x hx y ?_
  rw [← splitContent_append b, List.head?_append, Option.mem_def.mp hy]
  rfl

/-- Literal text before literal text: the lexeme is cut with more text before it, or is not cut
    because of the same delimiter. -/
theorem cut_text_append {s b : Text} (hs : s ≠ []) (hfree : Free s) (hseam : ApartAt s b)
    (hopen : opensTag b = false) :
    (∃ t rest, cut b = .token (.content t) rest ∧ cut (s ++ b) = .token (.content (s ++ t)) rest) ∨
      ∃ before d, cut b = .unmatched before d ∧ cut (s ++ b) = .unmatched (s ++ before) d := by
  have hopen' : opensTag (s ++ b) = false := by
    obtain ⟨c, s, rfl⟩ := List.exists_cons_of_ne_nil hs
    exact opensTag_eq_false_of_at? (Delimiter.at?_append hfree hseam)
  rw [cut_content hopen, cut_content hopen', splitContent_append_seam hfree hseam]
  simp only [Delimiter.firstIn?_append hfree (apartAt_splitContent hseam)]
  cases Delimiter.firstIn? (splitContent b).1 with
  | none => exact Or.inl ⟨_, _, rfl, rfl⟩
  | some found => exact Or.inr ⟨found.1, found.2, rfl, rfl⟩

end Token

/-- Lexemes before literal text are in front of any text: the last of them is a tag. -/
theorem Lexeme.InFront.before_text {ls : List Lexeme} {s rest : Text} (h : InFront (ls ++ [.content s]) rest)
    (rest' : Text) : InFront ls rest' := by
  obtain rfl | ⟨ls, l, rfl⟩ := List.eq_nil_or_concat' ls
  · trivial
  · obtain ⟨hls, hs, hend, -⟩ := inFront_append.mp h
    refine hls.change_after_tag ?_ rest'
    obtain ⟨-, -, hl, -⟩ := inFront_append.mp hls
    cases l with
    | expression inner => rfl
    | statement inner => rfl
    | content u =>
      have hrest : join [content s] ++ rest = s ++ rest := by rw [join_cons, join_nil, List.append_nil, raw]
      rw [join_nil, List.nil_append, hrest] at hl
      rcases hl with hnil | ⟨hopen, -⟩
      · exact absurd (List.append_eq_nil_iff.mp hnil).1 hs.1
      · have hclosed : Token.opensTag (s ++ rest) = false := Token.not_opensTag_content hs.1 hs.2 hend
        rw [hclosed] at hopen
        cases hopen

/-! ## What stands at the ends of a tree -/

namespace Draft

theorem run_text {ls : List Lexeme} {s : Text} {nodes : List Node}
    (h : empty.run (ls ++ [.content s]) = .ok ⟨nodes, []⟩) :
    ∃ before, nodes = .text s :: before ∧ empty.run ls = .ok ⟨before, []⟩ := by
  obtain ⟨⟨before, levels⟩, hrun, hstep⟩ := run_concat_eq_ok_iff.mp h
  cases hstep
  exact ⟨before, rfl, hrun⟩

theorem run_tag {ls : List Lexeme} {l : Lexeme} {nodes : List Node} (htag : l.isTag = true)
    (h : empty.run (ls ++ [l]) = .ok ⟨nodes, []⟩) (s : Text) : nodes.head? ≠ some (.text s) := by
  obtain ⟨⟨before, levels⟩, -, hstep⟩ := run_concat_eq_ok_iff.mp h
  cases l with
  | content s => cases htag
  | expression inner =>
    cases hstep
    exact fun h => nomatch h
  | statement inner =>
    -- Of the moves, only the one that closes a block leaves none open.
    cases statement_eq_ok_iff.mp hstep with
    | @close _ before opened _ _ => cases opened <;> exact fun h => nomatch h

end Draft

namespace Tree

/-- Before a template that is empty or opens a tag, literal text stays apart. -/
theorem head?_of_read {b : Text} {B : List Node} (h : read b = .ok B) (hstops : Lexeme.Stops b) (t : Text) :
    B.head? ≠ some (.text t) := by
  obtain ⟨ls, hls, rfl, hder⟩ := exists_derives_of_read h
  cases hder with
  | nil => exact fun h => nomatch h
  | expr _ => exact fun h => nomatch h
  | cond => exact fun h => nomatch h
  | loop => exact fun h => nomatch h
  | @text _ s ls _ _ =>
    have htag := Lexeme.opensTag_join hls
    rw [List.append_nil] at htag
    rcases hstops with hnil | hopen
    · rw [Lexeme.join_cons] at hnil
      exact absurd (List.append_eq_nil_iff.mp hnil).1 hls.1.1
    · rw [hopen] at htag
      cases htag

/-! ## The seam -/

/-- The first template is empty, or ends in a tag, or no delimiter stands across the seam. -/
def Seam (a b : Text) : Prop :=
  a = [] ∨ (∃ ts, Token.readAll a = .ok ts ∧ ∃ tok ∈ ts.getLast?, tok.lexeme.isTag = true) ∨ ApartAt a b

theorem Seam.apartAt {ls : List Lexeme} {s b : Text} (h : Seam (Lexeme.join (ls ++ [.content s])) b)
    (hls : Lexeme.InFront (ls ++ [.content s]) []) : ApartAt s b := by
  have hs : s ≠ [] := (hls.lawful (.content s) (by simp)).1
  have hjoin : Lexeme.join (ls ++ [.content s]) = Lexeme.join ls ++ s := by
    rw [Lexeme.join_append, Lexeme.join_cons, Lexeme.join_nil, List.append_nil, Lexeme.raw]
  rcases h with hnil | ⟨ts, hts, tok, htok, htag⟩ | hseam
  · rw [hjoin] at hnil
    exact absurd (List.append_eq_nil_iff.mp hnil).2 hs
  · rw [Token.readAll_join hls] at hts
    cases hts
    have hlast := congrArg (Option.map Token.lexeme) (Option.mem_def.mp htok)
    rw [← List.getLast?_map, Token.map_lexeme_place, List.getLast?_concat] at hlast
    rw [← Option.some.inj hlast] at htag
    cases htag
  · intro x hx
    refine hseam x ?_
    rw [hjoin, List.getLast?_append, Option.mem_def.mp hx]
    rfl

section
variable {a b : Text} {A : List Node}

/-- After lexemes that are in front of the second template, this one is read as it stands. -/
theorem read_append_of_inFront {ls : List Lexeme} {nodes : List Node} (hls : Lexeme.InFront ls b)
    (hrun : Draft.empty.run ls = .ok ⟨nodes, []⟩) :
    read (Lexeme.join ls ++ b) =
      ((read b).mapError (Error.later (Text.lineBreaks (Lexeme.join ls)))).map (nodes.reverse ++ ·) := by
  rw [Draft.read_eq_resume, Draft.resume_join 0 1 hls hrun, Draft.resume_eq_read]

/-- Literal text meets literal text: it is one text, and an error in it is the same one. -/
theorem read_text_append {ls : List Lexeme} {s : Text} {nodes : List Node}
    (hls : Lexeme.InFront (ls ++ [.content s]) []) (hrun : Draft.empty.run ls = .ok ⟨nodes, []⟩)
    (hseam : ApartAt s b) (hb : b ≠ []) (hopen : Token.opensTag b = false) :
    read (Lexeme.join ls ++ (s ++ b)) =
      ((read b).mapError (Error.later (Text.lineBreaks (Lexeme.join ls ++ s)))).map
        (Node.joined (nodes.reverse ++ [.text s])) := by
  have hs := hls.lawful (.content s) (by simp)
  have hne : s ++ b ≠ [] := by simp [hs.1]
  rw [Draft.read_eq_resume, Draft.resume_join 0 1 (hls.before_text _) hrun, Draft.read_eq_resume b, Text.lineBreaks_append]
  rcases Token.cut_text_append hs.1 hs.2 hseam hopen with ⟨t, rest, hcut, hcut'⟩ | ⟨before, d, hcut, hcut'⟩
  · rw [Draft.resume_text _ _ _ hne hcut', Draft.resume_text _ _ _ hb hcut, Text.lineBreaks_append, Nat.add_assoc]
    show Draft.resume ⟨.text (s ++ t) :: nodes, []⟩ _ _ rest =
      ((Draft.resume ⟨[.text t], []⟩ _ _ rest).mapError _).map _
    rw [Nat.add_assoc 1, Draft.resume_eq_read, Draft.resume_eq_read]
    cases read rest with
    | error e =>
      show Except.error _ = Except.error _
      rw [Error.later_later, Nat.add_assoc]
    | ok R =>
      show Except.ok ((Node.text (s ++ t) :: nodes).reverse ++ R) =
        Except.ok (Node.joined (nodes.reverse ++ [.text s]) (.text t :: R))
      rw [List.reverse_cons, Node.joined_text_text, List.append_assoc]
      rfl
  · rw [Draft.resume_unmatched _ _ _ hne hcut', Draft.resume_unmatched _ _ _ hb hcut, Text.lineBreaks_append]
    show Except.error _ = Except.error (Error.unmatched d _)
    congr 2
    omega

/-- Reading the two templates as one: the nodes are joined, or the error is that of the second, further down. -/
theorem read_append_eq (ha : read a = .ok A) (hseam : Seam a b) :
    read (a ++ b) = ((read b).mapError (Error.later (Text.lineBreaks a))).map (Node.joined A) := by
  obtain ⟨ts, nodes, hts, hrun, rfl⟩ := Draft.read_eq_ok_iff.mp ha
  obtain ⟨ls, hls, rfl, rfl⟩ := Token.readAll_eq_ok_iff_place.mp hts
  rw [Token.map_lexeme_place] at hrun
  -- When joining is putting in a row, lexemes in front of the second template are enough.
  have row (hfront : Lexeme.InFront ls b) (hjoined : ∀ B, read b = .ok B → Node.joined nodes.reverse B = nodes.reverse ++ B) :
      read (Lexeme.join ls ++ b) =
        ((read b).mapError (Error.later (Text.lineBreaks (Lexeme.join ls)))).map (Node.joined nodes.reverse) := by
    rw [read_append_of_inFront hfront hrun]
    cases hb : read b with
    | error e => rfl
    | ok B => exact congrArg Except.ok (hjoined B hb).symm
  obtain rfl | ⟨ls, l, rfl⟩ := List.eq_nil_or_concat' ls
  · cases hrun
    exact row trivial fun B _ => Node.joined_of_left B fun s h => nomatch h
  · by_cases htag : l.isTag = true
    · refine row (hls.change_after_tag htag b) fun B _ => Node.joined_of_left B fun s => ?_
      rw [List.getLast?_reverse]
      exact Draft.run_tag htag hrun s
    · obtain ⟨s, rfl⟩ : ∃ s, l = .content s := by
        cases l with
        | content s => exact ⟨s, rfl⟩
        | expression inner => exact absurd rfl htag
        | statement inner => exact absurd rfl htag
      have hapart := hseam.apartAt hls
      obtain ⟨before, rfl, hrun'⟩ := Draft.run_text hrun
      by_cases hstops : Lexeme.Stops b
      · refine row (Lexeme.inFront_append.mpr ⟨hls.before_text _, ?_⟩) fun B hB => ?_
        · refine ⟨hls.lawful _ (by simp), ?_, trivial⟩
          rcases hstops with rfl | hopen
          · exact Or.inl rfl
          · refine Or.inr ⟨hopen, fun hlast => ?_⟩
            -- A brace and a brace, or a brace and a percent sign, would stand across the seam.
            obtain ⟨x, t, rfl, rfl | rfl⟩ := Token.opensTag_iff.mp hopen
            · exact hapart '{' hlast '{' rfl .exprOpen rfl
            · exact hapart '{' hlast '{' rfl .exprOpen rfl
        · exact Node.joined_of_right _ (head?_of_read hB hstops)
      · obtain ⟨hb, hopen⟩ := not_or.mp hstops
        have hjoin : Lexeme.join (ls ++ [.content s]) = Lexeme.join ls ++ s := by
          rw [Lexeme.join_append, Lexeme.join_cons, Lexeme.join_nil, List.append_nil, Lexeme.raw]
        rw [hjoin, List.append_assoc, List.reverse_cons]
        exact read_text_append hls hrun' hapart hb (by simpa using hopen)

end

/-- The texts that templates are merged to follow one another. -/
theorem merge_append {a b x y : Text} {m : Merger} {d : Data} (hseam : Seam a b) (hx : m.merge a d = .ok x)
    (hy : m.merge b d = .ok y) : m.merge (a ++ b) d = .ok (x ++ y) := by
  obtain ⟨A, v, root, hA, hv, hroot, hx⟩ := Merger.merge_eq_ok_iff.mp hx
  obtain ⟨B, v', root', hB, hv', hroot', hy⟩ := Merger.merge_eq_ok_iff.mp hy
  rw [hv] at hv'
  cases hv'
  rw [hroot] at hroot'
  cases hroot'
  refine Merger.merge_eq_ok_iff.mpr ⟨Node.joined A B, v, root, ?_, hv, hroot, ?_⟩
  · rw [read_append_eq hA hseam, hB]
    rfl
  · rw [Node.renderNodes_joined, Node.renderNodes_append, hx, hy]
    rfl

/-- Templates compose. After a template that can be read, with no delimiter across the seam, the
    nodes of a second one are joined to its nodes, the texts follow one another, and an error of
    the second is the same, on a line that counts from the beginning of the first. -/
theorem read_append {a b : Text} {A : List Node} (ha : read a = .ok A) (hseam : Seam a b) :
    (∀ B, read b = .ok B → read (a ++ b) = .ok (Node.joined A B)) ∧
    (∀ (m : Merger) (d : Data) (x y : Text), m.merge a d = .ok x → m.merge b d = .ok y →
      m.merge (a ++ b) d = .ok (x ++ y)) ∧
    ∀ e, read b = .error e → read (a ++ b) = .error (e.later (Text.lineBreaks a)) := by
  refine ⟨fun B hB => ?_, fun m d x y hx hy => merge_append hseam hx hy, fun e he => ?_⟩
  · rw [read_append_eq ha hseam, hB]
    rfl
  · rw [read_append_eq ha hseam, he]
    rfl

/-- Text meets text after a brace, and a lone delimiter stands on the third line of both together. -/
theorem read_append_after_brace :
    let a := Lexeme.join [.expression "var:n".toList, .content "\nx\x7b".toList]
    let b := Lexeme.join [.content "y".toList, .expression " var:n ".toList]
    let b' := "y\n\x7d\x7d".toList
    let var : Node := .expr (.var "var:n".toList ["var:n".toList] none)
    let A : List Node := [var, .text "\nx\x7b".toList]
    let d : Data := .object [("n".toList, .str "Ann".toList)]
    (read a = .ok A ∧ Seam a b ∧ Seam a b') ∧
    (read b = .ok [.text "y".toList, var] ∧ read (a ++ b) = .ok (Node.joined A [.text "y".toList, var]) ∧
      Node.joined A [.text "y".toList, var] = [var, .text "\nx\x7by".toList, var]) ∧
    (Merger.standard.merge a d = .ok "Ann\nx\x7b".toList ∧ Merger.standard.merge b d = .ok "yAnn".toList ∧
      Merger.standard.merge (a ++ b) d = .ok ("Ann\nx\x7b".toList ++ "yAnn".toList)) ∧
    (read b' = .error (.unmatched .exprClose 2) ∧ read (a ++ b') = .error (.unmatched .exprClose 3)) := by
  intro a b b' var A d
  have hname : Expr.read "var:n".toList = .var "var:n".toList ["var:n".toList] none :=
    Expr.read_marked (x := "n".toList) (by decide)
  have ha : read a = .ok A := by
    have hrow : Lexeme.InFront [.expression "var:n".toList, .content "\nx\x7b".toList] [] := by decide
    rw [Draft.read_join hrow rfl]
    show Except.ok [Node.expr (.read "var:n".toList), _] = _
    rw [hname]
  have hb : read b = .ok [.text "y".toList, var] := by
    have hrow : Lexeme.InFront [.content "y".toList, .expression " var:n ".toList] [] := by decide
    rw [Draft.read_join hrow rfl]
    show Except.ok [_, Node.expr (.read "var:n".toList)] = _
    rw [hname]
  have hb' : read b' = .error (.unmatched .exprClose 2) := by
    have hcut : Token.cut b' = .unmatched "y\n".toList .exprClose := by decide
    rw [Draft.read_eq_resume, Draft.resume_unmatched _ _ _ (by decide) hcut]
    rfl
  have hx : Merger.standard.merge a d = .ok "Ann\nx\x7b".toList := by
    rw [Merger.merge_of_read ha]
    rfl
  have hy : Merger.standard.merge b d = .ok "yAnn".toList := by
    rw [Merger.merge_of_read hb]
    rfl
  have apart {y : Char} (hy : y = 'y') : Apart '\x7b' y := by
    subst hy
    intro delimiter
    cases delimiter <;> decide
  have hseam : Seam a b := Or.inr (Or.inr fun x hx y hy => by cases hx; cases hy; exact apart rfl)
  have hseam' : Seam a b' := Or.inr (Or.inr fun x hx y hy => by cases hx; cases hy; exact apart rfl)
  exact ⟨⟨ha, hseam, hseam'⟩, ⟨hb, (read_append ha hseam).1 _ hb, rfl⟩,
    ⟨hx, hy, (read_append ha hseam).2.1 _ d _ _ hx hy⟩, hb', (read_append ha hseam').2.2 _ hb'⟩

end Tree

end MailMerge
