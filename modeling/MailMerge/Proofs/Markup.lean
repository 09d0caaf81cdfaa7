/-
  MailMerge.Proofs.Markup — escaping keeps data out of the markup.

  Four characters begin and end the tags and quotations of markup (`Text.Entity.marks`). An escaped text
  writes them, and the ampersand, as entities.

  Proved: an escaped text has no mark (`Text.Entity.unmarked_encode`), its ampersands all begin
  entities (`Text.Entity.entity_of_ampersand`), and the entities read back give the text that was escaped.
  Whatever surrounds the calls of `Escape` in a template, its output has no mark when the texts of
  the template have none (`Merger.unmarked_of_merge`). Together: `Merger.escape_keeps_marks_out`.
-/

import MailMerge.Proofs.Calls
import MailMerge.Proofs.Leaves

namespace MailMerge

/-! ## Escaped texts -/

namespace Text.Entity

/-- The characters that begin and end tags and quotations. -/
def marks : List Char := ['<', '>', '"', '\'']

/-- What escaped characters are written as. -/
def entities : List Text := ["&amp;".toList, "&lt;".toList, "&gt;".toList, "&quot;".toList, "&#x27;".toList]

def Unmarked (s : Text) : Prop := ∀ c ∈ s, c ∉ marks

instance (s : Text) : Decidable (Unmarked s) := List.decidableBAll _ s

theorem ofChar_cases (c : Char) : ofChar c ∈ entities ∨ ofChar c = [c] ∧ c ≠ '&' ∧ c ∉ marks := by
  unfold ofChar
  split
  case h_6 =>
    right
    simp_all [marks]
  all_goals exact Or.inl (by decide)

theorem unmarked_of_mem_entities : ∀ e ∈ entities, Unmarked e := by decide

/-- An entity has one ampersand, and this is its first character. -/
theorem ampersand_of_mem_entities : ∀ e ∈ entities, e.head? = some '&' ∧ '&' ∉ e.tail := by decide

theorem unmarked_encode (s : Text) : Unmarked (encode s) := by
  intro c hc
  obtain ⟨x, -, hc⟩ := List.mem_flatMap.mp hc
  rcases ofChar_cases x with hentity | ⟨hself, -, hx⟩
  · exact unmarked_of_mem_entities _ hentity c hc
  · rw [hself] at hc
    rwa [List.mem_singleton.mp hc]

/-- An ampersand in the text of one character is the beginning of that text, which is an entity. -/
theorem ofChar_of_ampersand {c : Char} {before after : Text} (h : ofChar c = before ++ '&' :: after) :
    before = [] ∧ ofChar c ∈ entities := by
  rcases ofChar_cases c with hentity | ⟨hself, hc, -⟩
  · refine ⟨?_, hentity⟩
    obtain ⟨-, htail⟩ := ampersand_of_mem_entities _ hentity
    cases before with
    | nil => rfl
    | cons b before =>
      rw [h] at htail
      exact absurd (List.mem_append_right before List.mem_cons_self) htail
  · have hmem : '&' ∈ ofChar c := by
      rw [h]
      exact List.mem_append_right before List.mem_cons_self
    rw [hself] at hmem
    exact absurd (List.mem_singleton.mp hmem).symm hc

/-- Every ampersand of an escaped text begins one of the entities. -/
theorem entity_of_ampersand {s before after : Text} (h : encode s = before ++ '&' :: after) :
    ∃ e ∈ entities, e <+: '&' :: after := by
  induction s generalizing before with
  | nil => exact absurd h.symm (List.append_ne_nil_of_right_ne_nil before (List.cons_ne_nil _ _))
  | cons c s ih =>
    have hcons : ofChar c ++ encode s = before ++ '&' :: after := h
    rcases List.append_eq_append_iff.mp hcons with ⟨x, rfl, hrest⟩ | ⟨x, hchar, hrest⟩
    · exact ih hrest
    · cases x with
      | nil =>
        have hfront : encode s = [] ++ '&' :: after := hrest.symm
        exact ih hfront
      | cons b x =>
        obtain ⟨rfl, rfl⟩ := List.cons.inj hrest
        obtain ⟨rfl, hentity⟩ := ofChar_of_ampersand hchar
        exact ⟨_, hentity, encode s, by rw [hchar]; rfl⟩

theorem encode_injective {s t : Text} (h : encode s = encode t) : s = t := by
  rw [← decode_encode s, h, decode_encode]

end Text.Entity

open Text.Entity (Unmarked)

/-! ## Templates of escaped data -/

/-- A call of `Escape` prints no mark. -/
theorem Node.unmarked_of_escape {f : Registry} (hf : f.get? "Escape".toList = some Registry.escape) {source : Text}
    {arg : Expr} {s : Scope} {t : Text} (h : (Node.expr (.call source "Escape".toList arg)).render f s = .ok t) :
    Unmarked t := by
  rw [render, Expr.eval, hf] at h
  obtain ⟨v, hv, h⟩ := bind_eq_ok_iff.mp h
  obtain ⟨w, -, hw⟩ := bind_eq_ok_iff.mp hv
  cases hw
  cases h
  exact Text.Entity.unmarked_encode w.display

theorem Node.additive_unmarked : Additive Unmarked where
  nil := fun _ hc => nomatch hc
  append ha hb := fun c hc => (List.mem_append.mp hc).elim (ha c) (hb c)

/-- The lexeme puts no mark into the output: it is a statement, an expression that is a call of
    `Escape`, or text without marks. -/
def Lexeme.Safe : Lexeme → Prop
  | .content s => Unmarked s
  | .expression inner => ∃ a, Balanced a ∧ Text.trim inner = "Escape".toList ++ '(' :: a ++ [')']
  | .statement _ => True

namespace Merger

theorem unmarked_of_safe {f : Registry} (hf : f.get? "Escape".toList = some Registry.escape) {l : Lexeme} (hl : l.Safe)
    (htag : l.isStatement = false) {s : Scope} {t : Text} (h : l.node.render f s = .ok t) : Unmarked t := by
  cases l with
  | content text =>
    cases h
    exact hl
  | expression inner =>
    obtain ⟨a, ha, hinner⟩ := hl
    change (Node.expr (.read (Text.trim inner))).render f s = .ok t at h
    rw [hinner, Expr.read_call (by decide) ha] at h
    exact Node.unmarked_of_escape hf h
  | statement inner => cases htag

/-- Templates without marks that escape all their data are merged to texts without marks. -/
theorem unmarked_of_merge {m : Merger} (hf : m.functions.get? "Escape".toList = some Registry.escape) {t out : Text}
    {ts : List Token} (hts : Token.readAll t = .ok ts) (hsafe : ∀ tok ∈ ts, tok.lexeme.Safe) {d : Data}
    (h : m.merge t d = .ok out) : Unmarked out := by
  obtain ⟨T, v, root, hT, -, -, hout⟩ := merge_eq_ok_iff.mp h
  refine Node.renderNodes_of_leaves Node.additive_unmarked (fun n hn s x hx => ?_) hout
  rw [Tree.leaves_of_read hT hts] at hn
  obtain ⟨l, hl, rfl⟩ := List.mem_map.mp hn
  obtain ⟨hmem, htag⟩ := List.mem_filter.mp hl
  obtain ⟨tok, htok, rfl⟩ := List.mem_map.mp hmem
  exact unmarked_of_safe hf (hsafe tok htok) (by simpa using htag) hx

/-- `Escape` gives a text without marks, in which every ampersand begins an entity and which read
    back is what the value prints as; so it takes values to the same text only when they print alike.
    When all expressions of a template are calls of `Escape`, in whatever statements they stand, and
    its texts have no mark, nothing that it is merged to has one, whatever the data is. -/
theorem escape_keeps_marks_out :
    (∀ v, ∃ s, Registry.escape v = .ok (.str s) ∧ Unmarked s ∧
      (∀ before after, s = before ++ '&' :: after → ∃ e ∈ Text.Entity.entities, e <+: '&' :: after) ∧
      Text.Entity.decode s = v.display) ∧
    (∀ v w, Registry.escape v = Registry.escape w → v.display = w.display) ∧
    ∀ (m : Merger) (t : Text) (ts : List Token) (d : Data) (out : Text),
      m.functions.get? "Escape".toList = some Registry.escape → Token.readAll t = .ok ts →
      (∀ tok ∈ ts, ∀ inner, tok.lexeme = .expression inner →
        ∃ a, Balanced a ∧ Text.trim inner = "Escape".toList ++ '(' :: a ++ [')']) →
      (∀ tok ∈ ts, ∀ s, tok.lexeme = .content s → Unmarked s) →
      m.merge t d = .ok out → Unmarked out := by
  refine ⟨fun v => ⟨_, rfl, Text.Entity.unmarked_encode _, fun before after h => ?_, Text.Entity.decode_encode _⟩, ?_, ?_⟩
  · exact Text.Entity.entity_of_ampersand h
  · intro v w h
    have hencoded : Text.Entity.encode v.display = Text.Entity.encode w.display := by
      injection h with h
      injection h
    exact Text.Entity.encode_injective hencoded
  · intro m t ts d out hf hts hcalls htexts hout
    refine unmarked_of_merge hf hts (fun tok htok => ?_) hout
    cases hlexeme : tok.lexeme with
    | content s => exact htexts tok htok s hlexeme
    | expression inner => exact hcalls tok htok inner hlexeme
    | statement inner => trivial

/-- A number and its digits, and escaped data in a conditional in a loop. -/
theorem escape_keeps_marks_out_of_loop :
    let t := Lexeme.join [.content "[".toList, .statement "for x in var:l".toList, .statement "if x".toList,
      .expression " Escape(x) ".toList, .statement "endif".toList, .statement "endfor".toList, .content "]".toList]
    let d : Data := .object [("l".toList, .list [.str "<a>".toList, .str "&lt;".toList, .str []])]
    let out := "[&lt;a&gt;&amp;lt;]".toList
    (∃ s, Registry.escape (.str "\"&lt;".toList) = .ok (.str s) ∧ Text.Entity.decode s = "\"&lt;".toList) ∧
    (Registry.escape (.int 3) = Registry.escape (.str "3".toList) ∧ Value.display (.int 3) = "3".toList) ∧
    (standard.merge t d = .ok out ∧ Unmarked out) := by
  intro t d out
  let ls : List Lexeme := [.content "[".toList, .statement "for x in var:l".toList, .statement "if x".toList,
    .expression " Escape(x) ".toList, .statement "endif".toList, .statement "endfor".toList, .content "]".toList]
  have hrow : Lexeme.InFront ls [] := by decide
  have hts : Token.readAll t = .ok (Token.place 0 1 ls) := Token.readAll_join hrow
  have hmem {tok : Token} (htok : tok ∈ Token.place 0 1 ls) : tok.lexeme ∈ ls := by
    rw [← Token.map_lexeme_place 0 1 ls]
    exact List.mem_map_of_mem htok
  have hout : standard.merge t d = .ok out := by
    have hl : Expr.read "var:l".toList = .var "var:l".toList ["var:l".toList] none :=
      Expr.read_marked (x := "l".toList) (by decide)
    have hx : Expr.read "x".toList = .var "x".toList ["x".toList] none := Expr.read_name (by decide) (by decide)
    have hcall : Expr.read "Escape(x)".toList = .call "Escape(x)".toList "Escape".toList (.read "x".toList) :=
      Expr.read_of_call (by decide) (by decide)
    have hT : Tree.read t = .ok [.text "[".toList, .loop "x".toList (.read "var:l".toList)
        [.cond [⟨.read "x".toList, [.expr (.read "Escape(x)".toList)]⟩] []], .text "]".toList] :=
      Draft.read_join hrow rfl
    rw [merge_of_read hT, hcall, hx, hl]
    rfl
  obtain ⟨hescape, hinjective, htemplate⟩ := escape_keeps_marks_out
  refine ⟨?_, ⟨rfl, ?_⟩, hout, htemplate standard t _ d out rfl hts ?_ ?_ hout⟩
  · obtain ⟨s, hs, -, -, hdecode⟩ := hescape (.str "\"&lt;".toList)
    exact ⟨s, hs, hdecode⟩
  · exact hinjective (.int 3) (.str "3".toList) rfl
  · intro tok htok inner hinner
    have := hmem htok
    rw [hinner] at this
    simp only [ls, List.mem_cons, Lexeme.expression.injEq, reduceCtorEq, List.not_mem_nil, or_false, false_or] at this
    exact ⟨"x".toList, by decide, by rw [this]; decide⟩
  · intro tok htok s hs
    have := hmem htok
    rw [hs] at this
    simp only [ls, List.mem_cons, Lexeme.content.injEq, reduceCtorEq, List.not_mem_nil, or_false, false_or] at this
    rcases this with rfl | rfl <;> decide

end Merger

end MailMerge
