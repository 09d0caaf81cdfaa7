/-
  MailMerge.Proofs.BlockGrammar — the grammar of blocks, and what reading makes of it.

  `Derives n ls T`: the lexemes `ls` are a block whose nodes are `T`, and no more than `n`
  blocks are open at once inside it. `Arms` derives what comes after the first body of a
  conditional: all of its branches and its `else` are at one depth.

  Proved:
  - `run_of_derives`: a draft takes the lexemes of a block and gains its nodes.
  - `Accounts.run`: whatever a draft has taken is accounted for by derivations, one for each
    part between the statements that are still open.
  - `read_iff_derives`: a template can be read exactly when its lexemes are a block, and the
    tree is the one derived.
-/

import MailMerge.Proofs.Drafts

namespace MailMerge.Tree

open Statement (Says Header)

mutual

/-- The nodes of a block, of which no part has more than the given number of blocks open. -/
inductive Derives : Nat → List Lexeme → List Node → Prop
  | nil {n : Nat} : Derives n [] []
  | text {n : Nat} {s : Text} {ls : List Lexeme} {T : List Node} :
      Derives n ls T → Derives n (.content s :: ls) (.text s :: T)
  | expr {n : Nat} {inner : Text} {ls : List Lexeme} {T : List Node} :
      Derives n ls T → Derives n (.expression inner :: ls) (.expr (.read (Text.trim inner)) :: T)
  | cond {n : Nat} {inner c : Text} {block arms ls : List Lexeme} {body o T : List Node} {bs : List Branch} :
      Says inner "if".toList c → c ≠ [] → Derives n block body → Arms n arms bs o → Derives (n + 1) ls T →
        Derives (n + 1) (.statement inner :: (block ++ (arms ++ ls))) (.cond (⟨.read c, body⟩ :: bs) o :: T)
  | loop {n : Nat} {inner header item collection last : Text} {block ls : List Lexeme} {body T : List Node} :
      Says inner "for".toList header → Header header item collection → Derives n block body →
        Says last "endfor".toList [] → Derives (n + 1) ls T →
        Derives (n + 1) (.statement inner :: (block ++ .statement last :: ls))
          (.loop item (.read collection) body :: T)

/-- The later branches of a conditional, the nodes of its `else` if it has one, and its end. -/
inductive Arms : Nat → List Lexeme → List Branch → List Node → Prop
  | done {n : Nat} {last : Text} : Says last "endif".toList [] → Arms n [.statement last] [] []
  | otherwise {n : Nat} {inner last : Text} {block : List Lexeme} {body : List Node} :
      Says inner "else".toList [] → Derives n block body → Says last "endif".toList [] →
        Arms n (.statement inner :: (block ++ [.statement last])) [] body
  | branch {n : Nat} {inner c : Text} {block arms : List Lexeme} {body o : List Node} {bs : List Branch} :
      Says inner "elseif".toList c → c ≠ [] → Derives n block body → Arms n arms bs o →
        Arms n (.statement inner :: (block ++ arms)) (⟨.read c, body⟩ :: bs) o

end

theorem Derives.append {n : Nat} {ls ms : List Lexeme} {T U : List Node} (h : Derives n ls T) (hm : Derives n ms U) :
    Derives n (ls ++ ms) (T ++ U) := by
  induction h using Derives.rec (motive_2 := fun _ _ _ _ _ => True) with
  | nil => exact hm
  | text _ ih => exact .text (ih hm)
  | expr _ ih => exact .expr (ih hm)
  | cond hsaid hc hblock harms _ _ _ ih =>
    have := Derives.cond hsaid hc hblock harms (ih hm)
    simpa only [List.cons_append, List.append_assoc] using this
  | loop hsaid hheader hblock hlast _ _ ih =>
    have := Derives.loop hsaid hheader hblock hlast (ih hm)
    simpa only [List.cons_append, List.append_assoc] using this
  | done => trivial
  | otherwise => trivial
  | branch => trivial

/-! ## Blocks can be read -/

/-- A draft inside a branch of a conditional takes the lexemes, and they complete the conditional
    with these later branches and these last nodes. -/
def Finishes (n : Nat) (ls : List Lexeme) (bs : List Branch) (o : List Node) : Prop :=
  ∀ (nodes : List Node) (done : List Branch) (test : Expr) (before : List Node) (levels : List Level),
    levels.length + 1 + n ≤ maxNesting →
      Draft.run ⟨nodes, ⟨.branch done test, before⟩ :: levels⟩ ls =
        .ok ⟨.cond ((⟨test, nodes.reverse⟩ :: done).reverse ++ bs) o :: before, levels⟩

/-- A draft in which there is room for the block takes its lexemes and gains its nodes. -/
theorem run_of_derives {n : Nat} {ls : List Lexeme} {T nodes : List Node} {levels : List Level} (h : Derives n ls T)
    (hroom : levels.length + n ≤ maxNesting) : Draft.run ⟨nodes, levels⟩ ls = .ok ⟨T.reverse ++ nodes, levels⟩ := by
  induction h using Derives.rec (motive_2 := fun n ls bs o _ => Finishes n ls bs o) generalizing nodes levels with
  | nil => rfl
  | @text n s ls T _ ih =>
    rw [Draft.run_cons rfl]
    show Draft.run ⟨.text s :: nodes, levels⟩ ls = _
    rw [ih hroom]
    simp
  | @expr n inner ls T _ ih =>
    rw [Draft.run_cons rfl]
    show Draft.run ⟨.expr (.read (Text.trim inner)) :: nodes, levels⟩ ls = _
    rw [ih hroom]
    simp
  | @cond n inner c block arms ls body o T bs hsaid hc _ _ _ ihblock iharms ih =>
    have hlen : levels.length < maxNesting := by omega
    rw [Draft.run_statement (.openCond hsaid hc hlen)]
    show Draft.run ⟨[], ⟨.branch [] (.read c), nodes⟩ :: levels⟩ _ = _
    rw [Draft.run_append (ihblock (by rw [List.length_cons]; omega)), Draft.run_append (iharms _ _ _ _ _ (by omega)), ih hroom]
    simp
  | @loop n inner header item collection last block ls body T hsaid hheader _ hlast _ ihblock ih =>
    have hlen : levels.length < maxNesting := by omega
    rw [Draft.run_statement (.openLoop hsaid hheader hlen)]
    show Draft.run ⟨[], ⟨.loop item (.read collection), nodes⟩ :: levels⟩ _ = _
    rw [Draft.run_append (ihblock (by rw [List.length_cons]; omega)), Draft.run_statement (.close hlast), ih hroom]
    simp [Opened.node]
  | done hlast =>
    intro nodes done test before levels _
    rw [Draft.run_statement (.close hlast)]
    simp [Opened.node, Draft.run]
  | otherwise hsaid _ hlast ihblock =>
    intro nodes done test before levels hroom
    rw [Draft.run_statement (.otherwise hsaid)]
    rw [Draft.run_append (ihblock (by rw [List.length_cons]; omega)), Draft.run_statement (.close hlast)]
    simp [Opened.node, Draft.run]
  | branch hsaid hc _ _ ihblock iharms =>
    intro nodes done test before levels hroom
    rw [Draft.run_statement (.otherwiseIf hsaid hc)]
    rw [Draft.run_append (ihblock (by rw [List.length_cons]; omega)), iharms _ _ _ _ _ hroom]
    simp

/-! ## What can be read is a block -/

/-- What an open block awaits: its first lexemes, followed by a last body and an end, are the block. -/
def Awaits (n : Nat) (header : List Lexeme) : Opened → Prop
  | .branch done test =>
    ∀ block body arms bs o, Derives n block body → Arms n arms bs o →
      Derives (n + 1) (header ++ (block ++ arms)) [.cond (done.reverse ++ ⟨test, body⟩ :: bs) o]
  | .otherwise done =>
    ∀ block body last, Derives n block body → Says last "endif".toList [] →
      Derives (n + 1) (header ++ (block ++ [.statement last])) [.cond done.reverse body]
  | .loop item collection =>
    ∀ block body last, Derives n block body → Says last "endfor".toList [] →
      Derives (n + 1) (header ++ (block ++ [.statement last])) [.loop item collection body]

section
variable {n : Nat} {header block : List Lexeme} {body : List Node} {done : List Branch} {test : Expr} {inner c : Text}

theorem awaits_cond (hsaid : Says inner "if".toList c) (hc : c ≠ []) :
    Awaits n [.statement inner] (.branch [] (.read c)) := by
  intro block body arms bs o hblock harms
  have := Derives.cond hsaid hc hblock harms .nil
  rwa [List.append_nil] at this

theorem awaits_loop {item collection : Text} (hsaid : Says inner "for".toList c) (hheader : Header c item collection) :
    Awaits n [.statement inner] (.loop item (.read collection)) := by
  intro block body last hblock hlast
  exact Derives.loop hsaid hheader hblock hlast .nil

theorem Awaits.branch (h : Awaits n header (.branch done test)) (hblock : Derives n block body)
    (hsaid : Says inner "elseif".toList c) (hc : c ≠ []) :
    Awaits n (header ++ (block ++ [.statement inner])) (.branch (⟨test, body⟩ :: done) (.read c)) := by
  intro block' body' arms bs o hblock' harms
  have := h _ _ _ _ _ hblock (.branch hsaid hc hblock' harms)
  simpa using this

theorem Awaits.otherwise (h : Awaits n header (.branch done test)) (hblock : Derives n block body)
    (hsaid : Says inner "else".toList []) :
    Awaits n (header ++ (block ++ [.statement inner])) (.otherwise (⟨test, body⟩ :: done)) := by
  intro block' body' last hblock' hlast
  have := h _ _ _ _ _ hblock (.otherwise hsaid hblock' hlast)
  simpa using this

theorem Awaits.close {opened : Opened} {last : Text} (h : Awaits n header opened) (hblock : Derives n block body)
    (hsaid : Says last ("end".toList ++ opened.block.keyword) []) :
    Derives (n + 1) (header ++ (block ++ [.statement last])) [opened.node body] := by
  cases opened with
  | branch done test =>
    have := h _ _ _ _ _ hblock (.done hsaid)
    simpa [Opened.node] using this
  | otherwise done => exact h _ _ _ hblock hsaid
  | loop item collection => exact h _ _ _ hblock hsaid

end

/-- The lexemes that a draft has taken: for each open block the first lexemes of it, and before
    and after these the blocks that are the nodes of the draft. -/
inductive Accounts : List Lexeme → Draft → Prop
  | outermost {ls : List Lexeme} {nodes : List Node} : Derives maxNesting ls nodes.reverse → Accounts ls ⟨nodes, []⟩
  | inside {n : Nat} {ls header block : List Lexeme} {nodes before : List Node} {opened : Opened} {levels : List Level} :
      Accounts ls ⟨before, levels⟩ → levels.length + (n + 1) = maxNesting → Awaits n header opened →
        Derives n block nodes.reverse → Accounts (ls ++ (header ++ block)) ⟨nodes, ⟨opened, before⟩ :: levels⟩

namespace Accounts

variable {ls : List Lexeme} {d d' : Draft}

theorem exists_room (h : Accounts ls d) : ∃ n, d.levels.length + n = maxNesting := by
  cases h with
  | outermost => exact ⟨maxNesting, Nat.zero_add _⟩
  | @inside n _ _ _ _ _ _ _ _ hroom =>
    refine ⟨n, ?_⟩
    rw [List.length_cons]
    omega

/-- More of the innermost block. -/
theorem grow {n : Nat} {more : List Lexeme} {T : List Node} (h : Accounts ls d) (hroom : d.levels.length + n = maxNesting)
    (hmore : Derives n more T) : Accounts (ls ++ more) ⟨T.reverse ++ d.nodes, d.levels⟩ := by
  cases h with
  | outermost hder =>
    obtain rfl : n = maxNesting := by rwa [List.length_nil, Nat.zero_add] at hroom
    exact .outermost (by simpa using hder.append hmore)
  | @inside m _ _ _ _ _ _ _ hacc hroom' haw hder =>
    rw [List.length_cons] at hroom
    obtain rfl : n = m := by omega
    have := Accounts.inside hacc hroom' haw (by simpa using hder.append hmore : Derives n _ (T.reverse ++ _).reverse)
    simpa only [List.append_assoc] using this

/-- A new block. -/
theorem enter {inner : Text} {opened : Opened} (h : Accounts ls d) (hlen : d.levels.length < maxNesting)
    (haw : ∀ n, Awaits n [.statement inner] opened) : Accounts (ls ++ [.statement inner]) (d.enter opened) := by
  obtain ⟨n, hroom⟩ : ∃ n, d.levels.length + (n + 1) = maxNesting := ⟨maxNesting - d.levels.length - 1, by omega⟩
  exact .inside h hroom (haw n) .nil

/-- The next part of the innermost block. -/
theorem advance {inner : Text} {nodes before : List Node} {opened next : Opened} {levels : List Level}
    (h : Accounts ls ⟨nodes, ⟨opened, before⟩ :: levels⟩)
    (haw : ∀ n header block, Awaits n header opened → Derives n block nodes.reverse →
      Awaits n (header ++ (block ++ [.statement inner])) next) :
    Accounts (ls ++ [.statement inner]) ⟨[], ⟨next, before⟩ :: levels⟩ := by
  cases h with
  | inside hacc hroom haw' hder =>
    have : Accounts _ ⟨[], _⟩ := Accounts.inside hacc hroom (haw _ _ _ haw' hder) .nil
    simpa only [List.append_assoc, List.append_nil] using this

theorem moves {inner : Text} (h : Accounts ls d) (hm : Draft.Moves inner d d') :
    Accounts (ls ++ [.statement inner]) d' := by
  cases hm with
  | openCond hsaid hc hlen => exact h.enter hlen fun _ => awaits_cond hsaid hc
  | openLoop hsaid hheader hlen => exact h.enter hlen fun _ => awaits_loop hsaid hheader
  | otherwise hsaid => exact h.advance fun _ _ _ haw hder => haw.otherwise hder hsaid
  | otherwiseIf hsaid hc => exact h.advance fun _ _ _ haw hder => haw.branch hder hsaid hc
  | close hsaid =>
    cases h with
    | inside hacc hroom haw hder =>
      have := hacc.grow hroom (haw.close hder hsaid)
      rw [List.append_assoc, List.append_assoc]
      exact this

theorem step {l : Lexeme} (h : Accounts ls d) (hs : d.step l = .ok d') : Accounts (ls ++ [l]) d' := by
  obtain ⟨n, hroom⟩ := h.exists_room
  cases l with
  | content s =>
    cases hs
    exact h.grow hroom (.text .nil)
  | expression inner =>
    cases hs
    exact h.grow hroom (.expr .nil)
  | statement inner => exact h.moves (Draft.statement_eq_ok_iff.mp hs)

theorem run {ms : List Lexeme} (h : Accounts ls d) (hrun : d.run ms = .ok d') : Accounts (ls ++ ms) d' :=
  Draft.run_preserves (fun _ _ _ _ h hs => h.step hs) h hrun

end Accounts

/-- A draft that leaves no block open has taken exactly a block. -/
theorem run_empty_iff {ls : List Lexeme} {nodes : List Node} :
    Draft.empty.run ls = .ok ⟨nodes, []⟩ ↔ Derives maxNesting ls nodes.reverse := by
  constructor
  · intro h
    have hempty : Accounts [] Draft.empty := .outermost .nil
    cases hempty.run h with
    | outermost hder => exact hder
  · intro h
    have : Draft.run ⟨[], []⟩ ls = _ := run_of_derives h (Nat.le_of_eq (Nat.zero_add _))
    rwa [List.reverse_reverse, List.append_nil] at this

/-- A row of lexemes is read as the nodes that the grammar derives from it. -/
theorem read_join_eq_ok_iff {ls : List Lexeme} {T : List Node} (h : Lexeme.InFront ls []) :
    read (Lexeme.join ls) = .ok T ↔ Derives maxNesting ls T := by
  rw [Draft.read_eq_ok_iff, Token.readAll_join h]
  constructor
  · intro ⟨ts, nodes, hts, hrun, hT⟩
    rw [← Except.ok.inj hts, Token.map_lexeme_place] at hrun
    rw [hT]
    exact run_empty_iff.mp hrun
  · intro hder
    refine ⟨_, T.reverse, rfl, ?_, T.reverse_reverse.symm⟩
    rw [Token.map_lexeme_place]
    refine run_empty_iff.mpr ?_
    rwa [T.reverse_reverse]

/-- What can be read is a row of lexemes that the grammar derives. -/
theorem exists_derives_of_read {t : Text} {T : List Node} (h : read t = .ok T) :
    ∃ ls, Lexeme.InFront ls [] ∧ t = Lexeme.join ls ∧ Derives maxNesting ls T := by
  obtain ⟨ts, nodes, hts, -, -⟩ := Draft.read_eq_ok_iff.mp h
  obtain ⟨ls, hls, ht, -⟩ := Token.readAll_eq_ok_iff_place.mp hts
  rw [ht] at h
  exact ⟨ls, hls, ht, (read_join_eq_ok_iff hls).mp h⟩

/-- Reading a template gives the tree that the grammar derives from its tokens, and no other. -/
theorem read_iff_derives (t : Text) (T : List Node) :
    read t = .ok T ↔ ∃ ts, Token.readAll t = .ok ts ∧ Derives maxNesting (ts.map Token.lexeme) T := by
  constructor
  · intro h
    obtain ⟨ls, hls, ht, hder⟩ := exists_derives_of_read h
    rw [ht, Token.readAll_join hls]
    refine ⟨_, rfl, ?_⟩
    rwa [Token.map_lexeme_place]
  · intro ⟨ts, hts, hder⟩
    obtain ⟨ls, hls, ht, hplace⟩ := Token.readAll_eq_ok_iff_place.mp hts
    rw [hplace, Token.map_lexeme_place] at hder
    rw [ht]
    exact (read_join_eq_ok_iff hls).mpr hder

end MailMerge.Tree
