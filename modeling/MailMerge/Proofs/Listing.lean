/-
  MailMerge.Proofs.Listing — a loop that prints its variable prints what it runs over.

  The names that a loop can bind are the names (`binds_iff_isName`), and a name is read in the
  body as a reference to itself unless it is one of the reserved words. So of a list the loop
  prints all elements in order, and of a map the keys in ascending order (`prints_items`). A
  reserved word can be bound, but in the body it is a scalar, which is printed once for each
  element (`prints_itself_true`).
-/

import MailMerge.Proofs.Conversion
import MailMerge.Proofs.ExprRules
import MailMerge.Proofs.Printing

namespace MailMerge

/-! ## The template -/

/-- A loop over the caller's `items`, which prints its variable. -/
def listing (x : Text) : Text :=
  "\x7b%for ".toList ++ (x ++ (" in var:items%\x7d\x7b\x7b".toList ++ (x ++ "\x7d\x7d\x7b%endfor%\x7d".toList)))

/-- The template is a loop that binds the name. -/
def Binds (x : Text) : Prop := ∃ collection body, Tree.read (listing x) = .ok [.loop x collection body]

/-- The lexemes of the template. -/
def listingLexemes (x : Text) : List Lexeme :=
  [.statement ("for".toList ++ ' ' :: (x ++ " in var:items".toList)), .expression x, .statement "endfor".toList]

theorem join_listingLexemes (x : Text) : Lexeme.join (listingLexemes x) = listing x := by
  have hjoin (a b c : Text) : Lexeme.join [.statement (a ++ (x ++ b)), .expression x, .statement c] =
      Delimiter.stmtOpen.text ++ a ++ (x ++ (b ++ Delimiter.stmtClose.text ++ Delimiter.exprOpen.text ++
        (x ++ (Delimiter.exprClose.text ++ Delimiter.stmtOpen.text ++ c ++ Delimiter.stmtClose.text)))) := by
    simp [Lexeme.raw]
  exact hjoin "for ".toList " in var:items".toList "endfor".toList

theorem inFront_listingLexemes {x : Text} (h : Text.isName x = true) : Lexeme.InFront (listingLexemes x) [] := by
  have hfree : Delimiter.Free x := Delimiter.free_of_isName h
  have hheader : Delimiter.Free (x ++ ' ' :: "in var:items".toList) :=
    (Delimiter.free_append_blank (by decide)).mpr ⟨hfree, by decide⟩
  have hstatement : Delimiter.Free ("for".toList ++ ' ' :: (x ++ " in var:items".toList)) :=
    (Delimiter.free_append_blank (by decide)).mpr ⟨by decide, hheader⟩
  have hlast : x.getLast? ≠ some '}' := by
    intro hbrace
    exact absurd (Text.isNameChar_of_mem_name h '}' (List.mem_of_getLast? hbrace)) (by decide)
  exact ⟨hstatement, trivial, ⟨hfree, hlast⟩, trivial, by decide, trivial, trivial⟩

theorem read_listing {x : Text} (h : Text.isName x = true) :
    Tree.read (listing x) = .ok [.loop x (.read "var:items".toList) [.expr (.read x)]] := by
  have hheader : Statement.Header (x ++ " in var:items".toList) x "var:items".toList :=
    ⟨h, by decide, by decide, [' '], [' '], by decide, Text.blanks_space, by decide, Text.blanks_space, rfl⟩
  have htrimmed : Text.Trimmed (x ++ " in var:items".toList) := by
    have hrest : Text.Trimmed "in var:items".toList := by decide
    exact Text.trimmed_word_append (Text.name_ne_nil h) (Text.isBlank_of_mem_name h) (by decide) hrest
  have hword := Text.isBlank_of_mem_name (s := "for".toList) (by decide)
  have hsays : Statement.Says ("for".toList ++ ' ' :: (x ++ " in var:items".toList)) "for".toList
      (x ++ " in var:items".toList) := by
    refine Statement.says_of_trim hword htrimmed (Text.trim_of_trimmed ?_)
    exact Text.trimmed_word_append (by decide) hword (by simp) htrimmed
  have hend : Statement.Says "endfor".toList "endfor".toList [] := Statement.says_iff.mpr ⟨by decide, by decide⟩
  rw [← join_listingLexemes, Tree.read_join_eq_ok_iff (inFront_listingLexemes h)]
  have hbody (n : Nat) : Tree.Derives n [.expression x] [.expr (.read x)] := by
    have hexpr : Tree.Derives n [.expression x] [.expr (.read (Text.trim x))] := .expr .nil
    rwa [Text.trim_of_trimmed (Text.trimmed_of_isName h)] at hexpr
  exact .loop hsays hheader (hbody _) hend .nil

theorem binds_iff_isName {x : Text} : Binds x ↔ Text.isName x = true := by
  constructor
  · intro h
    obtain ⟨collection, body, h⟩ := h
    obtain ⟨ls, -, -, hderives⟩ := Tree.exists_derives_of_read h
    generalize maxNesting = n at hderives
    cases hderives with
    | loop _ hheader _ _ _ => exact hheader.1
  · intro h
    exact ⟨_, _, read_listing h⟩

/-! ## Rendering -/

/-- The loop prints what it runs over: of a list the elements in their order, and of a map the
    keys in ascending order. -/
def PrintsItems (x : Text) : Prop :=
  ∀ (m : Merger) (d : Data) (vars : Keyed.Table Value), d.toValue = .ok (.map vars) →
    (∀ items, vars.get? "items".toList = some (.list items) →
      m.merge (listing x) d = .ok (items.flatMap Value.display)) ∧
    (∀ fields, vars.get? "items".toList = some (.map fields) →
      m.merge (listing x) d = .ok (fields.entries.flatMap Prod.fst) ∧ Keyed.Ascending fields.entries)

/-- What the template renders to, by what its variable is read as in the body. -/
theorem merge_listing {x : Text} (hname : Text.isName x = true) {m : Merger} {g : Value → Value}
    (hbody : ∀ s u, (Expr.read x).eval m.functions (Scope.bind s x u) = .ok (g u)) {d : Data}
    {vars : Keyed.Table Value} {v : Value} {elements : List Value} (hd : d.toValue = .ok (.map vars))
    (hv : vars.get? "items".toList = some v) (helements : v.elements? = some elements) :
    m.merge (listing x) d = .ok (elements.flatMap fun u => (g u).display) := by
  have hcollection : (Expr.read "var:items".toList).eval m.functions (.ofRoot (Merger.marked vars)) = .ok v := by
    have hitems : Expr.read "var:items".toList = .var "var:items".toList ["var:items".toList] none :=
      Expr.read_marked (x := "items".toList) (by decide)
    have hget : (Scope.ofRoot (Merger.marked vars)).get? "var:items".toList = some v :=
      (Merger.get?_marked "items".toList vars).trans hv
    rw [hitems, Expr.eval, Scope.lookup?, hget]
    rfl
  have hnodes (s : Scope) (u : Value) :
      Node.renderNodes m.functions (s.bind x u) [.expr (.read x)] = .ok (g u).display := by
    rw [Node.renderNodes_singleton, Node.render, hbody]
    rfl
  rw [Merger.merge_of_read (read_listing hname), Merger.render_of_toValue hd, Node.renderNodes_singleton,
    Node.render_loop hcollection helements (hnodes _)]

theorem eval_name {x : Text} (hname : Text.isName x = true) (hfree : x ∉ Reference.reserved) (f : Registry) (s : Scope)
    (u : Value) : (Expr.read x).eval f (s.bind x u) = .ok u := by
  rw [Expr.read_name hname hfree, Expr.eval, Scope.lookup?, Scope.get?_bind, if_pos rfl]
  rfl

/-- Every name that a loop binds, except for the reserved words, can be read in its body. -/
theorem prints_items {x : Text} (hx : Binds x) (hfree : x ∉ Reference.reserved) : PrintsItems x := by
  have hname := binds_iff_isName.mp hx
  intro m d vars hd
  refine ⟨fun items hitems => ?_, fun fields hfields => ?_⟩
  · exact merge_listing hname (eval_name hname hfree m.functions) hd hitems rfl
  · have hkeys := merge_listing hname (eval_name hname hfree m.functions) hd hfields rfl
    rw [List.flatMap_map] at hkeys
    exact ⟨hkeys, fields.ascending_entries⟩

/-- A name of one letter, with a list and with a map to run over. -/
theorem prints_items_n :
    Binds "n".toList ∧ "n".toList ∉ Reference.reserved ∧
      Merger.standard.merge (listing "n".toList)
        (.object [("items".toList, .list [.int64 1, .int64 2, .int64 3])]) = .ok "123".toList ∧
      Merger.standard.merge (listing "n".toList)
        (.object [("items".toList, .object [("b".toList, .unit), ("c".toList, .unit), ("a".toList, .unit)])]) =
          .ok "abc".toList := by
  have hbinds : Binds "n".toList := binds_iff_isName.mpr (by decide)
  have hfree : "n".toList ∉ Reference.reserved := by decide
  have hprints := prints_items hbinds hfree Merger.standard
  refine ⟨hbinds, hfree, ?_, ?_⟩
  · exact (hprints _ (.ofList [("items".toList, .list [.int 1, .int 2, .int 3])]) rfl).1 _ rfl
  · exact ((hprints _ (.ofList [("items".toList,
      .map (.ofList [("a".toList, .null), ("b".toList, .null), ("c".toList, .null)]))]) rfl).2 _ rfl).1

/-- A reserved word can be bound, but not read: it is printed itself, whatever the element is. -/
theorem prints_itself_true :
    Binds "true".toList ∧
      (Data.object [("items".toList, .list [.int64 1])]).toValue = .ok (.map (.ofList [("items".toList, .list [.int 1])])) ∧
      Merger.standard.merge (listing "true".toList) (Data.object [("items".toList, .list [.int64 1])]) =
        .ok "true".toList ∧
      ¬ PrintsItems "true".toList := by
  have hname : Text.isName "true".toList = true := by decide
  have hd : (Data.object [("items".toList, .list [.int64 1])]).toValue =
      .ok (.map (.ofList [("items".toList, .list [.int 1])])) := rfl
  have hbody (s : Scope) (u : Value) :
      (Expr.read "true".toList).eval Merger.standard.functions (s.bind "true".toList u) = .ok (.bool true) := by
    rw [Expr.read_true]
    rfl
  have hmerge : Merger.standard.merge (listing "true".toList) (Data.object [("items".toList, .list [.int64 1])]) =
      .ok "true".toList := merge_listing hname hbody hd rfl rfl
  refine ⟨binds_iff_isName.mpr hname, hd, hmerge, fun hprints => ?_⟩
  have hone := (hprints Merger.standard _ _ hd).1 _ rfl
  rw [hmerge] at hone
  exact absurd (Except.ok.inj hone) (by decide)

end MailMerge
