/-
  MailMerge.Proofs.FirstFault — what is wrong with a template is reported at the first possible place.

  A statement offends (`Tree.Offending`) when reading fails at it whatever comes after it, while
  the text before it can still be completed: end tags for the open blocks are enough.

  Proved: a fault other than a missing end is that of an offending statement, on its line; an
  unmatched delimiter is reported exactly when no statement before it offends; and a missing end
  when nothing else is wrong and a block is left open (`read_error_iff_first_fault`).
-/

import MailMerge.Proofs.Drafts

namespace MailMerge

/-- The tag that closes a block. -/
def Block.endTag (b : Block) : Lexeme := .statement ("end".toList ++ b.keyword)

/-- End tags one after another, as they stand in a template. -/
def Block.ends (blocks : List Block) : Text := Lexeme.join (blocks.map endTag)

/-- The open blocks after one more lexeme, innermost first, where every statement fits. -/
def Block.openAfter (blocks : List Block) : Lexeme → List Block
  | .content _ | .expression _ => blocks
  | .statement inner =>
    let keyword := Text.word (Text.trim inner)
    if keyword = "if".toList then .cond :: blocks
    else if keyword = "for".toList then .loop :: blocks
    else if "end".toList <+: keyword then blocks.tail
    else blocks

/-- The fault is worded as a missing end. -/
def Fault.ToldAsMissing (f : Fault) : Prop := "missing 'end".toList <+: f.message.toList

namespace Tree

/-- The token is a statement at which reading fails with this fault. Nothing after it matters,
    and the text before it could be completed. -/
structure Offending (t : Text) (tok : Token) (f : Fault) (before after : Text) : Prop where
  yielded : tok ∈ (Token.scan t).tokens
  statement : ∃ inner, tok.lexeme = .statement inner
  place : t = before ++ (tok.lexeme.raw ++ after) ∧ tok.offset = Text.bytes before
  wording : ¬ f.ToldAsMissing
  fails : ∀ rest, read (before ++ (tok.lexeme.raw ++ rest)) = .error (.malformed f (1 + Text.lineBreaks before))
  completable : ∃ blocks T, read (before ++ Block.ends blocks) = .ok T

/-- Some statement offends. -/
def Offended (t : Text) : Prop := ∃ tok f before after, Offending t tok f before after

end Tree

/-! ## Wording -/

theorem begins_append {p : Text} {a b : String} (h : p <+: a.toList) : p <+: (a ++ b).toList := by
  rw [String.toList_append]
  exact h.trans (List.prefix_append _ _)

namespace Fault

/-- How the other messages begin. -/
def openings : List Text := [['b'], ['\''], ['u'], ['e'], ['m', 'a'], ['i']]

/-- The fault is found at a statement, and not at the end of the template. -/
def OfStatement (f : Fault) : Prop := ∀ b, f ≠ .missingEnd b

theorem message_opening {f : Fault} (h : f.OfStatement) : ∃ p ∈ openings, p <+: f.message.toList := by
  unfold message
  cases f with
  | tooDeep => exact ⟨['b'], by decide, begins_append (begins_append (by decide))⟩
  | noCondition => exact ⟨['\''], by decide, begins_append (begins_append (begins_append (by decide)))⟩
  | noOpenIf => exact ⟨['\''], by decide, begins_append (begins_append (begins_append (by decide)))⟩
  | textAfterElse => exact ⟨['u'], by decide, begins_append (by decide)⟩
  | afterElse => exact ⟨['\''], by decide, by decide⟩
  | noOpenBlock => exact ⟨['\''], by decide, begins_append (begins_append (begins_append (by decide)))⟩
  | wrongEnd => exact ⟨['e'], by decide, begins_append (begins_append (begins_append (by decide)))⟩
  | malformedFor => exact ⟨['m', 'a'], by decide, begins_append (begins_append (by decide))⟩
  | badLoopName => exact ⟨['i'], by decide, begins_append (by decide)⟩
  | unknownStatement => exact ⟨['u'], by decide, begins_append (by decide)⟩
  | missingEnd b => exact absurd rfl (h b)

theorem openings_apart :
    ∀ p ∈ openings, ¬ p <+: "missing 'end".toList ∧ ¬ "missing 'end".toList <+: p := by decide

/-- Only a missing end is worded as one. -/
theorem toldAsMissing_iff {f : Fault} : f.ToldAsMissing ↔ ∃ b, f = .missingEnd b := by
  constructor
  · intro h
    by_cases hf : ∃ b, f = .missingEnd b
    · exact hf
    · obtain ⟨p, hp, hpre⟩ := message_opening (not_exists.mp hf)
      rcases List.prefix_or_prefix_of_prefix hpre h with h' | h'
      · exact absurd h' (openings_apart p hp).1
      · exact absurd h' (openings_apart p hp).2
  · intro ⟨b, hb⟩
    subst hb
    cases b
    · show "missing 'end".toList <+: "missing 'endif'".toList
      decide
    · show "missing 'end".toList <+: "missing 'endfor'".toList
      decide

end Fault

namespace Draft

/-! ## Faults of statements -/

theorem failsOnly_condition (keyword c : Text) : FailsOnly Fault.OfStatement (condition keyword c) := by
  unfold condition
  split
  · exact failsOnly_error fun _ => nofun
  · exact failsOnly_ok _

theorem failsOnly_open? (d : Draft) {opened : Except Fault Opened} (h : FailsOnly Fault.OfStatement opened) :
    FailsOnly Fault.OfStatement (d.open? opened) := by
  unfold open?
  split
  · exact failsOnly_error fun _ => nofun
  · exact h.map d.enter

theorem failsOnly_loopHeader (body header : Text) : FailsOnly Fault.OfStatement (Statement.loopHeader body header) := by
  unfold Statement.loopHeader
  simp only
  split
  · exact failsOnly_error fun _ => nofun
  · exact failsOnly_error fun _ => nofun
  · split
    · exact failsOnly_ok _
    · exact failsOnly_error fun _ => nofun

theorem failsOnly_otherwise (d : Draft) (rest : Text) : FailsOnly Fault.OfStatement (d.otherwise rest) := by
  unfold otherwise
  split
  · split
    · exact failsOnly_ok _
    · exact failsOnly_error fun _ => nofun
  · split
    · exact failsOnly_error fun _ => nofun
    · exact failsOnly_error fun _ => nofun
  · exact failsOnly_error fun _ => nofun

theorem failsOnly_otherwiseIf (d : Draft) (c : Text) : FailsOnly Fault.OfStatement (d.otherwiseIf c) := by
  have hcondition := failsOnly_condition "elseif".toList c
  unfold otherwiseIf
  split
  · exact hcondition.map _
  · exact hcondition.bind fun _ => failsOnly_error fun _ => nofun
  · exact failsOnly_error fun _ => nofun

theorem failsOnly_close (d : Draft) (keyword : Text) : FailsOnly Fault.OfStatement (d.close keyword) := by
  unfold close
  split
  · exact failsOnly_error fun _ => nofun
  · split
    · exact failsOnly_ok _
    · exact failsOnly_error fun _ => nofun

theorem failsOnly_statement (d : Draft) (body : Text) : FailsOnly Fault.OfStatement (d.statement body) := by
  unfold statement
  split
  · exact d.failsOnly_open? ((failsOnly_condition _ _).map _)
  · exact d.failsOnly_open? ((failsOnly_loopHeader _ _).map _)
  · exact d.failsOnly_otherwise _
  · exact d.failsOnly_otherwiseIf _
  · exact d.failsOnly_close _
  · exact failsOnly_error fun _ => nofun

theorem step_eq_error {d : Draft} {l : Lexeme} {f : Fault} (h : d.step l = .error f) :
    (∃ inner, l = .statement inner) ∧ ¬ f.ToldAsMissing := by
  cases l with
  | content s => cases h
  | expression inner => cases h
  | statement inner =>
    refine ⟨⟨inner, rfl⟩, fun hf => ?_⟩
    obtain ⟨b, rfl⟩ := Fault.toldAsMissing_iff.mp hf
    exact d.failsOnly_statement _ _ h b rfl

/-! ## Open blocks -/

/-- The sorts of the open blocks, innermost first. -/
def blocks (d : Draft) : List Block := d.levels.map fun level => level.opened.block

theorem blocks_step {d d' : Draft} {l : Lexeme} (h : d.step l = .ok d') : d'.blocks = Block.openAfter d.blocks l := by
  cases l with
  | content s =>
    cases h
    rfl
  | expression inner =>
    cases h
    rfl
  | statement inner =>
    -- Each move says a keyword of its own, and the other tests fail on it.
    have keyword {k o : Text} (hsaid : Statement.Says inner k o) : Text.word (Text.trim inner) = k :=
      (Statement.says_iff.mp hsaid).1
    cases statement_eq_ok_iff.mp h with
    | openCond hsaid => simp [Block.openAfter, keyword hsaid, blocks, enter, Opened.block]
    | openLoop hsaid => simp [Block.openAfter, keyword hsaid, blocks, enter, Opened.block]
    | otherwise hsaid => simp [Block.openAfter, keyword hsaid, blocks, Opened.block]
    | otherwiseIf hsaid => simp [Block.openAfter, keyword hsaid, blocks, Opened.block]
    | close hsaid => simp [Block.openAfter, keyword hsaid, blocks]

/-- The open blocks can be told from the lexemes. -/
theorem blocks_run {d : Draft} {ls : List Lexeme} (h : empty.run ls = .ok d) : d.blocks = ls.foldl Block.openAfter [] := by
  have hnone : empty.blocks = List.foldl Block.openAfter [] [] := rfl
  refine run_preserves (P := fun ls d => d.blocks = ls.foldl Block.openAfter []) ?_ hnone h
  intro ls d l d' hd hs
  rw [blocks_step hs, hd, List.foldl_append, List.foldl_cons, List.foldl_nil]

/-- What is wrong with a template whose statements all fit. -/
theorem read_eq_error_iff_of_run {t : Text} {d : Draft} {e : Error}
    (hrun : empty.run ((Token.scan t).tokens.map Token.lexeme) = .ok d) :
    Tree.read t = .error e ↔ (Token.scan t).failure = some e ∨
      (Token.scan t).failure = none ∧ ∃ block outer, d.blocks = block :: outer ∧
        e = .malformed (.missingEnd block) (1 + Text.lineBreaks t) := by
  rw [read_eq_of_run hrun]
  cases (Token.scan t).failure with
  | some e' => simp
  | none =>
    obtain ⟨nodes, _ | ⟨level, levels⟩⟩ := d
    · simp [finish, blocks]
    · simp [finish, blocks, eq_comm]

theorem step_endTag (nodes before : List Node) (opened : Opened) (levels : List Level) :
    Draft.step ⟨nodes, ⟨opened, before⟩ :: levels⟩ opened.block.endTag =
      .ok ⟨opened.node nodes.reverse :: before, levels⟩ := by
  refine statement_eq_ok_iff.mpr (.close (Statement.says_iff.mpr ?_))
  cases opened.block
  · exact ⟨rfl, rfl⟩
  · exact ⟨rfl, rfl⟩

/-- The end tags of its open blocks complete every draft. -/
theorem run_endTags (nodes : List Node) (levels : List Level) :
    ∃ nodes', Draft.run ⟨nodes, levels⟩ ((blocks ⟨nodes, levels⟩).map Block.endTag) = .ok ⟨nodes', []⟩ := by
  induction levels generalizing nodes with
  | nil => exact ⟨nodes, rfl⟩
  | cons level levels ih =>
    obtain ⟨opened, before⟩ := level
    obtain ⟨nodes', hrun⟩ := ih (opened.node nodes.reverse :: before)
    refine ⟨nodes', ?_⟩
    show Draft.run _ (opened.block.endTag :: _) = _
    rw [run_cons (step_endTag nodes before opened levels)]
    exact hrun

end Draft

namespace Tree

open Lexeme (InFront)

/-! ## The text around a statement -/

theorem inFront_endTags (blocks : List Block) : InFront (blocks.map Block.endTag) [] := by
  induction blocks with
  | nil => trivial
  | cons b blocks ih =>
    refine ⟨?_, trivial, ih⟩
    cases b
    · exact Delimiter.firstIn?_eq_none_iff.mp rfl
    · exact Delimiter.firstIn?_eq_none_iff.mp rfl

theorem stops_ends (blocks : List Block) : Lexeme.Stops (Block.ends blocks) := by
  cases blocks with
  | nil => exact Lexeme.stops_nil
  | cons b blocks => exact Lexeme.stops_raw_append _ rfl

section
variable {ls : List Lexeme} {l : Lexeme} {after : Text} {d : Draft} {f : Fault}
variable (hls : InFront (ls ++ [l]) after) (hrun : Draft.empty.run ls = .ok d)
include hls hrun

/-- What a draft has taken can be completed, without the lexeme that comes next. -/
theorem completable_of_run : ∃ blocks T, read (Lexeme.join ls ++ Block.ends blocks) = .ok T := by
  obtain ⟨nodes, levels⟩ := d
  obtain ⟨nodes', hend⟩ := Draft.run_endTags nodes levels
  generalize Draft.blocks ⟨nodes, levels⟩ = blocks at hend
  have hrow : InFront (ls ++ blocks.map Block.endTag) [] := by
    refine Lexeme.inFront_append.mpr ⟨hls.init ?_, inFront_endTags blocks⟩
    rw [List.append_nil]
    exact stops_ends blocks
  refine ⟨blocks, nodes'.reverse, ?_⟩
  rw [Block.ends, ← Lexeme.join_append]
  refine Draft.read_eq_ok_iff.mpr ⟨_, nodes', Token.readAll_join hrow, ?_, rfl⟩
  rw [Token.map_lexeme_place, Draft.run_append hrun, hend]

/-- A tag that a draft does not take is reported, whatever comes after it. -/
theorem fails_of_step (htag : l.isTag = true) (hstep : d.step l = .error f) (rest : Text) :
    read (Lexeme.join ls ++ (l.raw ++ rest)) = .error (.malformed f (1 + Text.lineBreaks (Lexeme.join ls))) := by
  have hscan := Token.scanFrom_join 0 1 (hls.change_after_tag htag rest)
  rw [Lexeme.join_append, List.append_assoc, Lexeme.join_cons, Lexeme.join_nil, List.append_nil] at hscan
  refine Draft.read_eq_of_tokens_error (Draft.tokens_eq_error_iff.mpr ?_)
  rw [Token.scan, hscan, Token.place_append]
  refine ⟨Token.place 0 1 ls, ⟨l, _, _⟩, _, d, f, List.append_assoc _ _ _, ?_, hstep, rfl⟩
  rw [Token.map_lexeme_place, hrun]

end

/-! ## Offending statements -/

theorem Offending.read_eq {t before after : Text} {tok : Token} {f : Fault} (h : Offending t tok f before after) :
    read t = .error (.malformed f (1 + Text.lineBreaks before)) := by
  rw [h.place.1]
  exact h.fails after

/-- The token at which a draft is stuck offends. -/
theorem offending_of_step {t : Text} {before after : List Token} {tok : Token} {d : Draft} {f : Fault}
    (hts : (Token.scan t).tokens = before ++ tok :: after) (hrun : Draft.empty.run (before.map Token.lexeme) = .ok d)
    (hstep : d.step tok.lexeme = .error f) :
    ∃ after', Offending t tok f (Lexeme.join (before.map Token.lexeme)) after' := by
  obtain ⟨ls, rest, failure, ht, hls, hscan, -⟩ := Token.exists_scan_eq t
  have hplace : Token.place 0 1 ls = before ++ tok :: after := by rw [← hts, hscan]
  obtain ⟨hls', hoffset, -⟩ := Token.place_split hplace
  obtain ⟨⟨inner, htok⟩, hwording⟩ := Draft.step_eq_error hstep
  have htag : tok.lexeme.isTag = true := by rw [htok]; rfl
  have hrow : InFront (before.map Token.lexeme ++ [tok.lexeme]) (Lexeme.join (after.map Token.lexeme) ++ rest) := by
    rw [hls', List.append_cons, Lexeme.inFront_append] at hls
    exact hls.1
  have htext : t = Lexeme.join (before.map Token.lexeme) ++
      (tok.lexeme.raw ++ (Lexeme.join (after.map Token.lexeme) ++ rest)) := by
    rw [ht, hls', Lexeme.join_append, Lexeme.join_cons]
    simp only [List.append_assoc]
  refine ⟨Lexeme.join (after.map Token.lexeme) ++ rest, ?_⟩
  exact {
    yielded := by simp [hts]
    statement := ⟨inner, htok⟩
    place := ⟨htext, by rw [hoffset, Nat.zero_add]⟩
    wording := hwording
    fails := fails_of_step hrow hrun htag hstep
    completable := completable_of_run hrow hrun }

/-- Either some statement offends, or all tokens are taken. -/
theorem offended_or_exists_run (t : Text) :
    Offended t ∨ ∃ d, Draft.empty.run ((Token.scan t).tokens.map Token.lexeme) = .ok d := by
  cases htokens : Draft.empty.tokens (Token.scan t).tokens with
  | ok d => exact Or.inr ⟨d, Draft.tokens_eq_ok_iff.mp htokens⟩
  | error e =>
    obtain ⟨before, tok, after, d, f, hts, hrun, hstep, -⟩ := Draft.tokens_eq_error_iff.mp htokens
    obtain ⟨after', hoff⟩ := offending_of_step hts hrun hstep
    exact Or.inl ⟨tok, f, _, after', hoff⟩

/-! ## The three ways to fail -/

section
variable {t : Text} {line : Nat}

/-- Where something else is wrong, no statement offends. -/
theorem not_offended_of_read {e : Error} (h : read t = .error e)
    (he : ∀ f line, e = .malformed f line → f.ToldAsMissing) : ¬ Offended t := by
  intro ⟨tok, f, before, after, hoff⟩
  rw [hoff.read_eq] at h
  exact hoff.wording (he f _ (Except.error.inj h).symm)

theorem read_eq_malformed_iff {f : Fault} :
    read t = .error (.malformed f line) ∧ ¬ f.ToldAsMissing ↔
      ∃ tok before after, Offending t tok f before after ∧ line = 1 + Text.lineBreaks before := by
  constructor
  · intro ⟨hread, hf⟩
    rcases offended_or_exists_run t with ⟨tok, f', before, after, hoff⟩ | ⟨d, hrun⟩
    · rw [hoff.read_eq] at hread
      cases hread
      exact ⟨tok, before, after, hoff, rfl⟩
    · rcases (Draft.read_eq_error_iff_of_run hrun).mp hread with hfail | ⟨-, block, outer, -, he⟩
      · obtain ⟨delimiter, line', he⟩ := Token.unmatched_of_failure hfail
        cases he
      · cases he
        exact absurd (Fault.toldAsMissing_iff.mpr ⟨block, rfl⟩) hf
  · intro ⟨tok, before, after, hoff, hline⟩
    rw [hline]
    exact ⟨hoff.read_eq, hoff.wording⟩

theorem read_eq_unmatched_iff {delimiter : Delimiter} :
    read t = .error (.unmatched delimiter line) ↔
      Token.readAll t = .error (.unmatched delimiter line) ∧ ¬ Offended t := by
  rw [Token.readAll_eq_error_iff]
  constructor
  · intro hread
    have hnot : ¬ Offended t := not_offended_of_read hread fun f line he => by cases he
    obtain ⟨d, hrun⟩ := (offended_or_exists_run t).resolve_left hnot
    rcases (Draft.read_eq_error_iff_of_run hrun).mp hread with hfail | ⟨-, block, outer, -, he⟩
    · exact ⟨hfail, hnot⟩
    · cases he
  · intro ⟨hfail, hnot⟩
    obtain ⟨d, hrun⟩ := (offended_or_exists_run t).resolve_left hnot
    exact (Draft.read_eq_error_iff_of_run hrun).mpr (Or.inl hfail)

theorem read_eq_missing_iff {block : Block} :
    read t = .error (.malformed (.missingEnd block) line) ↔
      ∃ ts outer, Token.readAll t = .ok ts ∧ ¬ Offended t ∧
        (ts.map Token.lexeme).foldl Block.openAfter [] = block :: outer ∧ line = 1 + Text.lineBreaks t := by
  constructor
  · intro hread
    have hnot : ¬ Offended t := by
      refine not_offended_of_read hread fun f line he => ?_
      cases he
      exact Fault.toldAsMissing_iff.mpr ⟨block, rfl⟩
    obtain ⟨d, hrun⟩ := (offended_or_exists_run t).resolve_left hnot
    rcases (Draft.read_eq_error_iff_of_run hrun).mp hread with hfail | ⟨hfail, block', outer, hblocks, he⟩
    · obtain ⟨delimiter, line', he⟩ := Token.unmatched_of_failure hfail
      cases he
    · cases he
      rw [Draft.blocks_run hrun] at hblocks
      exact ⟨_, outer, Token.readAll_eq_ok_iff.mpr (by rw [← hfail]), hnot, hblocks, rfl⟩
  · intro ⟨ts, outer, hall, hnot, hopen, hline⟩
    obtain ⟨d, hrun⟩ := (offended_or_exists_run t).resolve_left hnot
    have hscan := Token.readAll_eq_ok_iff.mp hall
    have hblocks := Draft.blocks_run hrun
    rw [hscan, hopen] at hblocks
    rw [hline]
    exact (Draft.read_eq_error_iff_of_run hrun).mpr (Or.inr ⟨by rw [hscan], block, outer, hblocks, rfl⟩)

end

/-- What is wrong is reported at the first possible place: at a statement that offends; when there
    is none, at the unmatched delimiter; and a missing end at the end of the template. -/
theorem read_error_iff_first_fault (t : Text) :
    (∀ f line, read t = .error (.malformed f line) ∧ ¬ f.ToldAsMissing ↔
      ∃ tok before after, Offending t tok f before after ∧ line = 1 + Text.lineBreaks before) ∧
    (∀ delimiter line, read t = .error (.unmatched delimiter line) ↔
      Token.readAll t = .error (.unmatched delimiter line) ∧ ¬ Offended t) ∧
    ∀ block line, read t = .error (.malformed (.missingEnd block) line) ↔
      ∃ ts outer, Token.readAll t = .ok ts ∧ ¬ Offended t ∧
        (ts.map Token.lexeme).foldl Block.openAfter [] = block :: outer ∧ line = 1 + Text.lineBreaks t :=
  ⟨fun _ _ => read_eq_malformed_iff, fun _ _ => read_eq_unmatched_iff, fun _ _ => read_eq_missing_iff⟩

end Tree

end MailMerge
