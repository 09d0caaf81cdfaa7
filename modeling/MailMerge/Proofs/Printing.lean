/-
  MailMerge.Proofs.Printing — writing a tree as a template again.

  Every tag is written with a space on each side of what it says, and a conditional without last
  nodes is written without `else`. Proved: a tree that was read from a template is read again
  from its written form (`read_print`). The lexemes of the written form are those of the
  template with tags in the place of tags (`Tree.Rewrites`), so literal text ends where it
  ended before.
-/

import MailMerge.Proofs.BlockGrammar

namespace MailMerge

/-- The text of a tag, with a space on each side. -/
def Text.spaced (s : Text) : Text := ' ' :: (s ++ [' '])

namespace Node

/-- A statement tag as it is written. -/
def printTag (s : Text) : Text := Delimiter.stmtOpen.text ++ Text.spaced s ++ Delimiter.stmtClose.text

mutual

/-- A node as it is written in a template. -/
def print : Node → Text
  | .text s => s
  | .expr e => Delimiter.exprOpen.text ++ Text.spaced e.source ++ Delimiter.exprClose.text
  | .cond branches otherwise =>
    printBranches "if".toList branches ++
      ((if otherwise.isEmpty then [] else printTag "else".toList ++ printNodes otherwise) ++ printTag "endif".toList)
  | .loop item collection body =>
    printTag ("for ".toList ++ (item ++ (" in ".toList ++ collection.source))) ++
      (printNodes body ++ printTag "endfor".toList)

/-- Nodes in a row. -/
def printNodes : List Node → Text
  | [] => []
  | n :: nodes => n.print ++ printNodes nodes

/-- Branches in a row, of which the first has the given keyword. -/
def printBranches (keyword : Text) : List Branch → Text
  | [] => []
  | ⟨test, body⟩ :: branches =>
    printTag (keyword ++ ' ' :: test.source) ++ (printNodes body ++ printBranches "elseif".toList branches)

end

/-- What is written after the branches of a conditional. -/
def printElse (otherwise : List Node) : Text :=
  (if otherwise.isEmpty then [] else printTag "else".toList ++ printNodes otherwise) ++ printTag "endif".toList

end Node

theorem Node.printNodes_cond (branches : List Branch) (otherwise T : List Node) :
    printNodes (.cond branches otherwise :: T) =
      printBranches "if".toList branches ++ (printElse otherwise ++ printNodes T) := by
  rw [printNodes, print, printElse, List.append_assoc]

/-! ## Texts between spaces -/

namespace Text

theorem trim_spaced {s : Text} (h : Trimmed s) : trim (spaced s) = s := trim_of_padded blanks_space h blanks_space

end Text

theorem Delimiter.free_spaced {s : Text} (h : Free s) : Free (Text.spaced s) := by
  have hend : Free (s ++ ' ' :: []) := (free_append_blank (by decide)).mpr ⟨h, free_nil⟩
  exact (free_append_blank (s := []) (by decide)).mpr ⟨free_nil, hend⟩

theorem Expr.source_read (s : Text) : (Expr.read s).source = Text.trim s := by
  unfold Expr.read
  simp only
  split
  · rfl
  split
  · rfl
  split
  · rfl
  split
  · rfl
  · rfl

theorem Expr.source_read_of_trimmed {s : Text} (h : Text.Trimmed s) : (Expr.read s).source = s := by
  rw [source_read, Text.trim_of_trimmed h]

namespace Statement

section
variable {inner keyword operand : Text} (h : Says inner keyword operand)
include h

theorem Says.keyword_isInfix : keyword <:+: inner := by
  obtain ⟨-, tail, htail, -, -⟩ := h
  have hkeyword : keyword <:+: Text.trim inner := by
    rw [htail]
    exact (List.prefix_append keyword tail).isInfix
  exact hkeyword.trans (Text.trim_isInfix inner)

theorem Says.operand_isInfix_trim : operand <:+: Text.trim inner := by
  obtain ⟨-, tail, htail, -, rfl⟩ := h
  have htail' : tail <:+: Text.trim inner := by
    rw [htail]
    exact (List.suffix_append keyword tail).isInfix
  exact (Text.trim_isInfix tail).trans htail'

theorem Says.operand_isInfix : operand <:+: inner := h.operand_isInfix_trim.trans (Text.trim_isInfix inner)

end

theorem Header.collection_isInfix {header item collection : Text} (h : Header header item collection) :
    collection <:+: header := by
  obtain ⟨-, -, -, gap, gap', -, -, -, -, rfl⟩ := h
  exact ⟨item ++ (gap ++ ("in".toList ++ gap')), [], by simp⟩

/-- A keyword between spaces says itself. -/
theorem says_spaced {k : Text} (hword : ∀ c ∈ k, Text.isBlank c = false) : Says (Text.spaced k) k [] := by
  refine ⟨hword, [], ?_, fun c hc => absurd hc (Option.not_mem_none c), rfl⟩
  rw [Text.trim_spaced (Text.trimmed_word hword), List.append_nil]

/-- A keyword, a space and an operand. -/
theorem says_of_trim {inner k s : Text} (hword : ∀ c ∈ k, Text.isBlank c = false) (ht : Text.Trimmed s)
    (h : Text.trim inner = k ++ ' ' :: s) : Says inner k s := by
  refine ⟨hword, ' ' :: s, h, ?_, (Text.trim_blanks_append Text.blanks_space ht).symm⟩
  intro c hc
  cases hc
  decide

theorem says_spaced_operand {k s : Text} (hk : k ≠ []) (hword : ∀ c ∈ k, Text.isBlank c = false) (hs : s ≠ [])
    (ht : Text.Trimmed s) : Says (Text.spaced (k ++ ' ' :: s)) k s :=
  says_of_trim hword ht (Text.trim_spaced (Text.trimmed_word_append hk hword hs ht))

end Statement

namespace Tree

open Delimiter (Free)
open Lexeme (InFront)
open Statement (Says Header)

/-! ## Tags in the place of tags -/

/-- The second row is the first with other tags, and now and then one tag in the place of two. -/
inductive Rewrites : List Lexeme → List Lexeme → Prop
  | nil : Rewrites [] []
  | text {s : Text} {ls ms : List Lexeme} : Rewrites ls ms → Rewrites (.content s :: ls) (.content s :: ms)
  | tag {l m : Lexeme} {ls ms : List Lexeme} :
      l.isTag = true → m.isTag = true → m.Lawful → Rewrites ls ms → Rewrites (l :: ls) (m :: ms)
  | two {l l' m : Lexeme} {ls ms : List Lexeme} :
      l.isTag = true → m.isTag = true → m.Lawful → Rewrites ls ms → Rewrites (l :: l' :: ls) (m :: ms)

namespace Rewrites

variable {ls ms : List Lexeme}

theorem append {ls' ms' : List Lexeme} (h : Rewrites ls ms) (h' : Rewrites ls' ms') : Rewrites (ls ++ ls') (ms ++ ms') := by
  induction h with
  | nil => exact h'
  | text _ ih => exact .text ih
  | tag hl hm hlawful _ ih => exact .tag hl hm hlawful ih
  | two hl hm hlawful _ ih => exact .two hl hm hlawful ih

/-- Both rows are empty, or both begin with a tag, or neither does. -/
theorem head? (h : Rewrites ls ms) : ms.head?.map Lexeme.isTag = ls.head?.map Lexeme.isTag := by
  cases h with
  | nil => rfl
  | text _ => rfl
  | tag hl hm _ _ => simp [hl, hm]
  | two hl hm _ _ => simp [hl, hm]

theorem inFront (h : Rewrites ls ms) (hls : InFront ls []) : InFront ms [] := by
  induction h with
  | nil => trivial
  | @text s ls ms h ih =>
    obtain ⟨hs, hend, hls⟩ := hls
    have hms := ih hls
    refine ⟨hs, ?_, hms⟩
    have hhead := h.head?
    -- What comes after the text is nothing in both rows, or a tag in both.
    cases ls with
    | nil =>
      cases ms with
      | nil => exact Or.inl rfl
      | cons m ms => cases hhead
    | cons l ls =>
      cases ms with
      | nil => cases hhead
      | cons m ms =>
        have htag : m.isTag = l.isTag := Option.some.inj hhead
        rcases hend with hnil | ⟨hopen, hlast⟩
        · rw [List.append_nil, Lexeme.join_cons] at hnil
          exact absurd (List.append_eq_nil_iff.mp hnil).1 (Lexeme.raw_ne_nil hls.1)
        · rw [Lexeme.opensTag_join hls] at hopen
          refine Or.inr ⟨?_, hlast⟩
          rw [Lexeme.opensTag_join hms, htag, hopen]
  | tag _ hm hlawful _ ih => exact ⟨hlawful, Lexeme.endsBefore_of_isTag hm _, ih hls.2.2⟩
  | two _ hm hlawful _ ih => exact ⟨hlawful, Lexeme.endsBefore_of_isTag hm _, ih hls.2.2.2.2⟩

end Rewrites

/-! ## Written tags -/

section
variable {inner keyword operand : Text} (hlawful : (Lexeme.statement inner).Lawful)
include hlawful

theorem keyword_tag (hsaid : Says inner keyword []) :
    Says (Text.spaced keyword) keyword [] ∧ (Lexeme.statement (Text.spaced keyword)).Lawful :=
  ⟨Statement.says_spaced hsaid.1, Delimiter.free_spaced (hlawful.of_isInfix hsaid.keyword_isInfix)⟩

theorem operand_tag (hk : keyword ≠ []) (hsaid : Says inner keyword operand) (ho : operand ≠ []) :
    Says (Text.spaced (keyword ++ ' ' :: operand)) keyword operand ∧
      (Lexeme.statement (Text.spaced (keyword ++ ' ' :: operand))).Lawful := by
  refine ⟨Statement.says_spaced_operand hk hsaid.1 ho hsaid.trimmed, Delimiter.free_spaced ?_⟩
  refine (Delimiter.free_append_blank (by decide)).mpr ⟨?_, ?_⟩
  · exact hlawful.of_isInfix hsaid.keyword_isInfix
  · exact hlawful.of_isInfix hsaid.operand_isInfix

/-- The tag of a loop, with one space between its words. -/
theorem loop_tag {header item collection : Text} (hsaid : Says inner "for".toList header)
    (hheader : Header header item collection) :
    ∃ header', Header header' item collection ∧
      Says (Text.spaced ("for ".toList ++ (item ++ (" in ".toList ++ collection)))) "for".toList header' ∧
      (Lexeme.statement (Text.spaced ("for ".toList ++ (item ++ (" in ".toList ++ collection))))).Lawful := by
  have hfree : Free header := hlawful.of_isInfix hsaid.operand_isInfix
  have hkeyword : Free "for".toList := hlawful.of_isInfix hsaid.keyword_isInfix
  have hcollection : Free collection := hfree.of_isInfix hheader.collection_isInfix
  obtain ⟨hname, hne, hcoll, gap, gap', -, -, -, -, rfl⟩ := hheader
  have hitem : Free item := hfree.of_isInfix (List.prefix_append _ _).isInfix
  have hin : Text.Trimmed ("in".toList ++ ' ' :: collection) :=
    Text.trimmed_word_append (by decide) (Text.isBlank_of_mem_name (by decide)) hne hcoll
  have htrimmed : Text.Trimmed (item ++ ' ' :: ("in".toList ++ ' ' :: collection)) :=
    Text.trimmed_word_append (Text.name_ne_nil hname) (Text.isBlank_of_mem_name hname) (List.cons_ne_nil _ _) hin
  refine ⟨item ++ ' ' :: ("in".toList ++ ' ' :: collection), ?_, ?_, ?_⟩
  · exact ⟨hname, hne, hcoll, [' '], [' '], List.cons_ne_nil _ _, Text.blanks_space, List.cons_ne_nil _ _,
      Text.blanks_space, rfl⟩
  · refine Statement.says_spaced_operand (by decide) (Text.isBlank_of_mem_name (by decide)) ?_ htrimmed
    simp
  · refine Delimiter.free_spaced (?_ : Free ("for".toList ++ ' ' :: (item ++ ' ' :: ("in".toList ++ ' ' :: collection))))
    have hword : Free "in".toList := Delimiter.firstIn?_eq_none_iff.mp rfl
    rw [Delimiter.free_append_blank (by decide), Delimiter.free_append_blank (by decide),
      Delimiter.free_append_blank (by decide)]
    exact ⟨hkeyword, hitem, hword, hcollection⟩

end

theorem expression_tag {inner : Text} (hlawful : (Lexeme.expression inner).Lawful) :
    (Lexeme.expression (Text.spaced (Text.trim inner))).Lawful := by
  refine ⟨Delimiter.free_spaced (hlawful.1.of_isInfix (Text.trim_isInfix inner)), ?_⟩
  rw [Text.spaced, ← List.cons_append, List.getLast?_concat]
  decide

theorem raw_spaced (s : Text) : (Lexeme.statement (Text.spaced s)).raw = Node.printTag s := rfl

/-! ## Reading what was written -/

/-- Lawful lexemes can be replaced by others that are written as the text, and of which `P` holds. -/
def Rewritten (ls : List Lexeme) (s : Text) (P : List Lexeme → Prop) : Prop :=
  (∀ l ∈ ls, l.Lawful) → ∃ ms, Lexeme.join ms = s ∧ P ms ∧ Rewrites ls ms

/-- What the grammar derives from a row, it also derives from its written form. -/
theorem rewritten_of_derives {n : Nat} {ls : List Lexeme} {T : List Node} (h : Derives n ls T) :
    Rewritten ls (Node.printNodes T) (Derives n · T) := by
  induction h using Derives.rec
    (motive_2 := fun n ls bs o _ =>
      Rewritten ls (Node.printBranches "elseif".toList bs ++ Node.printElse o) (Arms n · bs o)) with
  | nil => exact fun _ => ⟨[], rfl, .nil, .nil⟩
  | @text n s ls T _ ih =>
    intro hlawful
    obtain ⟨ms, htext, hder, hrow⟩ := ih fun l hl => hlawful l (List.mem_cons_of_mem _ hl)
    refine ⟨.content s :: ms, ?_, .text hder, .text hrow⟩
    rw [Lexeme.join_cons, htext]
    rfl
  | @expr n inner ls T _ ih =>
    intro hlawful
    obtain ⟨ms, htext, hder, hrow⟩ := ih fun l hl => hlawful l (List.mem_cons_of_mem _ hl)
    have hl := expression_tag (hlawful _ (List.mem_cons_self ..))
    refine ⟨.expression (Text.spaced (Text.trim inner)) :: ms, ?_, ?_, .tag rfl rfl hl hrow⟩
    · rw [Lexeme.join_cons, htext, Node.printNodes, Node.print, Expr.source_read, Text.trim_trim]
      rfl
    · have : Derives n (.expression (Text.spaced (Text.trim inner)) :: ms) _ := .expr hder
      rwa [Text.trim_spaced (Text.trimmed_trim inner)] at this
  | @cond n inner c block arms ls body o T bs hsaid hc _ _ _ ihblock iharms ih =>
    intro hlawful
    simp only [List.forall_mem_cons, List.forall_mem_append] at hlawful
    obtain ⟨hinner, hblock, harms, hls⟩ := hlawful
    obtain ⟨mblock, htext, hder, hrow⟩ := ihblock hblock
    obtain ⟨marms, htext', hder', hrow'⟩ := iharms harms
    obtain ⟨ms, htext'', hder'', hrow''⟩ := ih hls
    obtain ⟨htag, hl⟩ := operand_tag hinner (by decide) hsaid hc
    refine ⟨_, ?_, .cond htag hc hder hder' hder'', .tag rfl rfl hl (hrow.append (hrow'.append hrow''))⟩
    rw [Node.printNodes_cond, Node.printBranches, Expr.source_read_of_trimmed hsaid.trimmed]
    simp only [Lexeme.join_cons, Lexeme.join_append, raw_spaced, htext, htext', htext'', List.append_assoc]
  | @loop n inner header item collection last block ls body T hsaid hheader _ hlast _ ihblock ih =>
    intro hlawful
    simp only [List.forall_mem_cons, List.forall_mem_append] at hlawful
    obtain ⟨hinner, hblock, hend, hls⟩ := hlawful
    obtain ⟨mblock, htext, hder, hrow⟩ := ihblock hblock
    obtain ⟨ms, htext', hder', hrow'⟩ := ih hls
    obtain ⟨header', hheader', htag, hl⟩ := loop_tag hinner hsaid hheader
    obtain ⟨htag', hl'⟩ := keyword_tag hend hlast
    refine ⟨_, ?_, .loop htag hheader' hder htag' hder', .tag rfl rfl hl (hrow.append (.tag rfl rfl hl' hrow'))⟩
    rw [Node.printNodes, Node.print, Expr.source_read_of_trimmed hheader.2.2.1]
    simp only [Lexeme.join_cons, Lexeme.join_append, raw_spaced, htext, htext', List.append_assoc]
  | @done n last hlast =>
    intro hlawful
    obtain ⟨htag, hl⟩ := keyword_tag (hlawful _ (List.mem_cons_self ..)) hlast
    exact ⟨_, rfl, .done htag, .tag rfl rfl hl .nil⟩
  | @otherwise n inner last block body hsaid hblock hlast ihblock =>
    intro hlawful
    simp only [List.forall_mem_cons, List.forall_mem_append] at hlawful
    obtain ⟨hinner, hlawful, hend, -⟩ := hlawful
    obtain ⟨htag, hl⟩ := keyword_tag hinner hsaid
    obtain ⟨htag', hl'⟩ := keyword_tag hend hlast
    cases body with
    | nil =>
      -- Nothing is between the two tags, and only the second is written.
      cases hblock
      exact ⟨_, rfl, .done htag', .two rfl rfl hl' .nil⟩
    | cons node body =>
      obtain ⟨mblock, htext, hder, hrow⟩ := ihblock hlawful
      refine ⟨_, ?_, .otherwise htag hder htag', .tag rfl rfl hl (hrow.append (.tag rfl rfl hl' .nil))⟩
      simp only [Lexeme.join_cons, Lexeme.join_append, Lexeme.join_nil, raw_spaced, htext, Node.printBranches,
        Node.printElse, List.isEmpty_cons, Bool.false_eq_true, if_false, List.append_nil, List.nil_append, List.append_assoc]
  | @branch n inner c block arms body o bs hsaid hc _ _ ihblock iharms =>
    intro hlawful
    simp only [List.forall_mem_cons, List.forall_mem_append] at hlawful
    obtain ⟨hinner, hblock, harms⟩ := hlawful
    obtain ⟨mblock, htext, hder, hrow⟩ := ihblock hblock
    obtain ⟨marms, htext', hder', hrow'⟩ := iharms harms
    obtain ⟨htag, hl⟩ := operand_tag hinner (by decide) hsaid hc
    refine ⟨_, ?_, .branch htag hc hder hder', .tag rfl rfl hl (hrow.append hrow')⟩
    rw [Node.printBranches, Expr.source_read_of_trimmed hsaid.trimmed]
    simp only [Lexeme.join_cons, Lexeme.join_append, raw_spaced, htext, htext', List.append_assoc]

/-- A tree that was read from a template is read again from its written form. -/
theorem read_print {t : Text} {T : List Node} (h : read t = .ok T) : read (Node.printNodes T) = .ok T := by
  obtain ⟨ls, hls, -, hder⟩ := exists_derives_of_read h
  obtain ⟨ms, htext, hder', hrow⟩ := rewritten_of_derives hder hls.lawful
  rw [← htext]
  exact (read_join_eq_ok_iff (hrow.inFront hls)).mpr hder'

/-- An empty `else` is not written again, and a brace at the end of the template stays literal text. -/
theorem read_print_without_else :
    let row : List Lexeme := [.statement "if a".toList, .content "x".toList, .statement " else".toList,
      .statement "endif ".toList, .expression "b  ".toList, .content "\x7b".toList]
    let tree : List Node := [.cond [⟨.read "a".toList, [.text "x".toList]⟩] [], .expr (.read "b".toList), .text "\x7b".toList]
    read (Lexeme.join row) = .ok tree ∧
      Node.printNodes tree = "\x7b% if a %\x7dx\x7b% endif %\x7d\x7b\x7b b \x7d\x7d\x7b".toList ∧
        read (Node.printNodes tree) = .ok tree := by
  intro row tree
  have hrow : InFront row [] := by decide
  have h : read (Lexeme.join row) = .ok tree := by
    refine Draft.read_eq_ok_iff.mpr ⟨_, tree.reverse, Token.readAll_join hrow, ?_, rfl⟩
    rw [Token.map_lexeme_place]
    rfl
  refine ⟨h, ?_, read_print h⟩
  simp only [tree, Node.printNodes, Node.print, Node.printBranches, Expr.source_read]
  rfl

end Tree

end MailMerge
