/-
  MailMerge.Proofs.Pieces — a template without statements is merged piece by piece.

  Each token of such a template is literal text, which is copied, or an expression, which can as
  well be evaluated on its own with the caller's variables at the root (`Merger.piece`). The template
  is read as one node for each token (`Draft.read_of_no_statement`), and these are rendered one after
  another.

  Proved: the template is merged to the texts of its pieces in a row, and fails as the first piece
  that fails (`Merger.merge_by_pieces`). So text without delimiters is merged to itself.
-/

import MailMerge.Proofs.Drafts
import MailMerge.Proofs.ExprRules
import MailMerge.Proofs.Rendering

namespace MailMerge

/-! ## Reading -/

def Lexeme.isStatement : Lexeme → Bool
  | .statement _ => true
  | _ => false

/-- The node of literal text or of an expression. -/
def Lexeme.node : Lexeme → Node
  | .content text => .text text
  | l => .expr (.read l.body)

section
variable {ls : List Lexeme} (hfree : ∀ l ∈ ls, l.isStatement = false)
include hfree

theorem Draft.run_of_no_statement (d : Draft) : d.run ls = .ok ⟨(ls.map Lexeme.node).reverse ++ d.nodes, d.levels⟩ := by
  induction ls generalizing d with
  | nil => rfl
  | cons l ls ih =>
    obtain ⟨hl, hls⟩ := List.forall_mem_cons.mp hfree
    have hstep : d.step l = .ok (d.add l.node) := by
      cases l with
      | content text => rfl
      | expression inner => rfl
      | statement inner => cases hl
    rw [run_cons hstep, ih hls, List.map_cons, List.reverse_cons, List.append_assoc]
    rfl

end

theorem Draft.read_of_no_statement {t : Text} {ts : List Token} (hts : Token.readAll t = .ok ts)
    (hfree : ∀ tok ∈ ts, tok.lexeme.isStatement = false) :
    Tree.read t = .ok ((ts.map Token.lexeme).map Lexeme.node) := by
  have hrun := Draft.empty.run_of_no_statement (List.forall_mem_map.mpr hfree)
  rw [empty, List.append_nil] at hrun
  exact read_eq_ok_iff.mpr ⟨ts, _, hts, hrun, (List.reverse_reverse _).symm⟩

/-! ## Rendering -/

theorem Node.renderNodes_map {α : Type} {f : Registry} {s : Scope} (node : α → Node) (as : List α) :
    renderNodes f s (as.map node) = List.flatten <$> as.mapM fun a => (node a).render f s := by
  induction as with
  | nil => rfl
  | cons a as ih =>
    rw [List.map_cons, renderNodes, ih, List.mapM_cons]
    cases (node a).render f s with
    | error e => rfl
    | ok t => cases as.mapM (fun a => (node a).render f s) <;> rfl

namespace Merger

/-- The text of one piece: literal text as it stands, and of an expression its value. -/
def piece (m : Merger) (root : Keyed.Table Value) : Lexeme → Except Error Text
  | .content text => .ok text
  | l => Value.display <$> m.evaluate l.body (.ofRoot root)

section
variable {m : Merger} {d : Data} {v : Value} {root : Keyed.Table Value}

theorem render_node (l : Lexeme) : l.node.render m.functions (.ofRoot root) = m.piece root l := by
  cases l with
  | content text => rfl
  | expression inner | statement inner =>
    show (do return (← m.evaluate _ (.ofRoot root)).display) = Value.display <$> m.evaluate _ (.ofRoot root)
    cases m.evaluate _ (.ofRoot root) <;> rfl

theorem merge_eq_mapM (hd : d.toValue = .ok v) (hroot : rootNames v = .ok root) {t : Text} {ts : List Token}
    (hts : Token.readAll t = .ok ts) (hfree : ∀ tok ∈ ts, tok.lexeme.isStatement = false) :
    m.merge t d = List.flatten <$> ts.mapM fun tok => m.piece root tok.lexeme := by
  have hrender : m.render ((ts.map Token.lexeme).map Lexeme.node) d =
      Node.renderNodes m.functions (.ofRoot root) ((ts.map Token.lexeme).map Lexeme.node) := by
    rw [render, hd]
    show (rootNames v >>= fun root => _) = _
    rw [hroot]
    rfl
  rw [merge_of_read (Draft.read_of_no_statement hts hfree), hrender, List.map_map, Node.renderNodes_map]
  simp only [Function.comp_apply, render_node]

/-- Text without delimiters is one token, or none when it is empty. -/
theorem merge_of_free (hd : d.toValue = .ok v) (hroot : rootNames v = .ok root) {t : Text} (ht : Delimiter.Free t) :
    m.merge t d = .ok t := by
  by_cases hnil : t = []
  · subst hnil
    have hrow : Lexeme.InFront [] [] := trivial
    have hts : Token.readAll [] = .ok [] := Token.readAll_join hrow
    rw [merge_eq_mapM hd hroot hts fun _ htok => absurd htok List.not_mem_nil]
    rfl
  · have hrow : Lexeme.InFront [.content t] [] := ⟨⟨hnil, ht⟩, Or.inl rfl, trivial⟩
    have hts : Token.readAll t = .ok [⟨.content t, 0, 1⟩] := by
      have hjoin := Token.readAll_join hrow
      rwa [Lexeme.join_cons, Lexeme.join_nil, List.append_nil] at hjoin
    rw [merge_eq_mapM hd hroot hts fun tok htok => by rw [List.mem_singleton.mp htok]; rfl]
    show Except.ok [t].flatten = Except.ok t
    rw [List.flatten_singleton]

end

/-- A template without statements is merged to what its tokens give on their own: literal text as it
    stands, and each expression the text of its value with the caller's variables at the root. If
    some expressions have no value the merge fails as the first of them does. Text without
    delimiters is merged to itself. -/
theorem merge_by_pieces {m : Merger} {d : Data} {v : Value} {root : Keyed.Table Value} (hd : d.toValue = .ok v)
    (hroot : rootNames v = .ok root) :
    (∀ (t : Text) (ts : List Token), Token.readAll t = .ok ts → (∀ tok ∈ ts, tok.lexeme.isStatement = false) →
      (∀ x, m.merge t d = .ok x ↔
        ∃ texts, List.Forall₂ (fun tok s => m.piece root tok.lexeme = .ok s) ts texts ∧ texts.flatten = x) ∧
      ∀ e, m.merge t d = .error e ↔ ∃ before tok after, ts = before ++ tok :: after ∧
        (∀ tok' ∈ before, ∃ s, m.piece root tok'.lexeme = .ok s) ∧ m.piece root tok.lexeme = .error e) ∧
    ∀ t, Delimiter.Free t → m.merge t d = .ok t := by
  refine ⟨fun t ts hts hfree => ?_, fun t ht => ?_⟩
  · rw [merge_eq_mapM hd hroot hts hfree]
    refine ⟨fun x => ?_, fun e => ?_⟩
    · simp only [map_eq_ok_iff, mapM_eq_ok_iff]
    · rw [map_eq_error_iff, mapM_eq_error_iff]
  · exact merge_of_free hd hroot ht

/-- A template of which all pieces have texts, one of which the second piece and the third have none,
    and text with a brace and a percent sign of its own. -/
theorem merge_by_pieces_unresolved :
    let row : List Lexeme := [.content "Hi ".toList, .expression " var:x ".toList]
    let row' : List Lexeme := [.expression "var:x".toList, .expression "var:y".toList, .expression "var:z".toList]
    let d : Data := .object [("x".toList, .str "Ann".toList)]
    let root : Keyed.Table Value := .ofList [("var:x".toList, .str "Ann".toList)]
    (d.toValue = .ok (.map (.ofList [("x".toList, .str "Ann".toList)])) ∧
      rootNames (.map (.ofList [("x".toList, .str "Ann".toList)])) = .ok root) ∧
    (Token.readAll (Lexeme.join row) = .ok (Token.place 0 1 row) ∧ standard.merge (Lexeme.join row) d = .ok "Hi Ann".toList) ∧
    (Token.readAll (Lexeme.join row') = .ok (Token.place 0 1 row') ∧
      standard.merge (Lexeme.join row') d = .error (.unresolved "var:y".toList)) ∧
    (Delimiter.Free "\x7b 5%".toList ∧ standard.merge "\x7b 5%".toList d = .ok "\x7b 5%".toList) := by
  intro row row' d root
  have hx : Expr.read "var:x".toList = .var "var:x".toList ["var:x".toList] none :=
    Expr.read_marked (x := "x".toList) (by decide)
  have hy : Expr.read "var:y".toList = .var "var:y".toList ["var:y".toList] none :=
    Expr.read_marked (x := "y".toList) (by decide)
  have hpiece (inner : Text) (h : Text.trim inner = "var:x".toList) :
      standard.piece root (.expression inner) = .ok "Ann".toList := by
    show Value.display <$> (Expr.read (Text.trim inner)).eval _ _ = _
    rw [h, hx]
    rfl
  have hrow : Token.readAll (Lexeme.join row) = .ok (Token.place 0 1 row) := Token.readAll_join (by decide)
  have hrow' : Token.readAll (Lexeme.join row') = .ok (Token.place 0 1 row') := Token.readAll_join (by decide)
  have hd : d.toValue = .ok (.map (.ofList [("x".toList, .str "Ann".toList)])) := rfl
  have hroot : rootNames (.map (.ofList [("x".toList, .str "Ann".toList)])) = .ok root := rfl
  obtain ⟨hpieces, hfree⟩ := merge_by_pieces (m := standard) hd hroot
  refine ⟨⟨hd, hroot⟩, ⟨hrow, ?_⟩, ⟨hrow', ?_⟩, by decide, hfree _ (by decide)⟩
  · refine ((hpieces _ _ hrow (by decide)).1 _).mpr ⟨["Hi ".toList, "Ann".toList], ?_, rfl⟩
    exact .cons rfl (.cons (hpiece _ (by decide)) .nil)
  · refine ((hpieces _ _ hrow' (by decide)).2 _).mpr ⟨[⟨.expression "var:x".toList, 0, 1⟩], _, _, rfl, ?_, ?_⟩
    · intro tok htok
      rw [List.mem_singleton.mp htok]
      exact ⟨_, hpiece _ (by decide)⟩
    · show Value.display <$> (Expr.read (Text.trim "var:y".toList)).eval _ _ = _
      have htrim : Text.trim "var:y".toList = "var:y".toList := by decide
      rw [htrim, hy]
      rfl

end Merger

end MailMerge
