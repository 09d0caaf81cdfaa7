/-
  MailMerge.Proofs.Rendering — renderings taken apart, and the names at the root.

  - `renderNodes_append`: nodes in a row render to texts in a row; the first error counts.
  - `render_cond_cons`: a conditional is its first branch, or else the conditional without it.
  - `render_loop`: a loop renders to the texts of its elements in a row.
  - `get?_marked`, `get?_marked_of_bare`: at the root, the marked names are the caller's variables
    and no other name has a value.
  - `merge_of_read`, `merge_of_read_error`: merging is reading, and then rendering the tree with
    the caller's variables at the root, when the data is a map or null (`render_eq`).
-/

import MailMerge.Merger
import MailMerge.Proofs.Outcomes

namespace MailMerge

/-! ## Nodes in a row -/

namespace Node

section
variable {f : Registry} {s : Scope}

theorem renderNodes_singleton (n : Node) : renderNodes f s [n] = n.render f s := by
  rw [renderNodes, renderNodes]
  cases n.render f s with
  | error e => rfl
  | ok x => exact congrArg Except.ok (List.append_nil x)

theorem renderNodes_of_error {n : Node} {nodes : List Node} {e : Error} (h : n.render f s = .error e) :
    renderNodes f s (n :: nodes) = .error e := by
  rw [renderNodes, h]
  rfl

theorem renderNodes_of_ok {n : Node} {nodes : List Node} {t : Text} (h : n.render f s = .ok t) :
    renderNodes f s (n :: nodes) = (t ++ ·) <$> renderNodes f s nodes := by
  rw [renderNodes, h]
  cases renderNodes f s nodes <;> rfl

theorem renderNodes_append (A B : List Node) :
    renderNodes f s (A ++ B) = do return (← renderNodes f s A) ++ (← renderNodes f s B) := by
  induction A with
  | nil =>
    rw [List.nil_append, renderNodes]
    cases renderNodes f s B <;> rfl
  | cons n A ih =>
    rw [List.cons_append, renderNodes, renderNodes, ih]
    cases n.render f s with
    | error e => rfl
    | ok x =>
      cases renderNodes f s A with
      | error e => rfl
      | ok y =>
        cases renderNodes f s B with
        | error e => rfl
        | ok z => exact congrArg Except.ok (List.append_assoc x y z).symm

/-! ## Conditionals, one branch at a time -/

theorem render_cond_nil (o : List Node) : (Node.cond [] o).render f s = renderNodes f s o := rfl

theorem render_cond_cons (b : Branch) (bs : List Branch) (o : List Node) :
    (Node.cond (b :: bs) o).render f s =
      b.test.eval f s >>= fun v => if v.holds then renderNodes f s b.body else (Node.cond bs o).render f s := by
  obtain ⟨test, body⟩ := b
  rw [render, renderBranches, render]
  cases test.eval f s with
  | error e => rfl
  | ok v =>
    by_cases hv : v.holds = true
    · simp only [bind, Except.bind, if_pos hv]
      cases renderNodes f s body <;> rfl
    · simp only [bind, Except.bind, if_neg hv]

theorem render_cond_of_test_error {b : Branch} {bs : List Branch} {o : List Node} {e : Error}
    (h : b.test.eval f s = .error e) : (Node.cond (b :: bs) o).render f s = .error e := by
  rw [render_cond_cons, h]
  rfl

theorem render_cond_of_holds {b : Branch} {bs : List Branch} {o : List Node} {v : Value} (h : b.test.eval f s = .ok v)
    (hv : v.holds = true) : (Node.cond (b :: bs) o).render f s = renderNodes f s b.body := by
  rw [render_cond_cons, h]
  exact if_pos hv

theorem render_cond_of_not_holds {b : Branch} {bs : List Branch} {o : List Node} {v : Value} (h : b.test.eval f s = .ok v)
    (hv : v.holds = false) : (Node.cond (b :: bs) o).render f s = (Node.cond bs o).render f s := by
  rw [render_cond_cons, h]
  exact if_neg (by rw [hv]; decide)

/-! ## Loops, one element at a time -/

theorem render_loop_of_elements {item : Text} {c : Expr} {body : List Node} {v : Value} {elements : List Value}
    (h : c.eval f s = .ok v) (hv : v.elements? = some elements) :
    (Node.loop item c body).render f s =
      List.flatten <$> elements.mapM fun u => renderNodes f (s.bind item u) body := by
  rw [render, h]
  simp only [bind, Except.bind, hv]
  cases elements.mapM (fun u => renderNodes f (s.bind item u) body) <;> rfl

theorem render_loop_of_no_elements {item : Text} {c : Expr} {body : List Node} {v : Value} (h : c.eval f s = .ok v)
    (hv : v.elements? = none) : (Node.loop item c body).render f s = .error (.notIterable c.source) := by
  rw [render, h]
  simp only [bind, Except.bind, hv]

/-- A loop whose body is always rendered: the texts of the elements in a row. -/
theorem render_loop {item : Text} {collection : Expr} {body : List Node} {v : Value} {elements : List Value}
    {g : Value → Text} (hv : collection.eval f s = .ok v) (helements : v.elements? = some elements)
    (hbody : ∀ u, renderNodes f (s.bind item u) body = .ok (g u)) :
    (Node.loop item collection body).render f s = .ok (elements.flatMap g) := by
  have hmap : elements.mapM (fun u => renderNodes f (s.bind item u) body) = .ok (elements.map g) := by
    have hpure : (fun u => renderNodes f (s.bind item u) body) = fun u => pure (g u) := funext hbody
    rw [hpure, List.mapM_pure]
    rfl
  rw [render_loop_of_elements hv helements, hmap]
  rfl

end

end Node

/-! ## The names at the root -/

namespace Merger

theorem get?_map_mark (n : Text) (es : List (Text × Value)) :
    Keyed.get? (callerMark ++ n) (es.map fun (k, v) => (callerMark ++ k, v)) = Keyed.get? n es := by
  induction es with
  | nil => rfl
  | cons e es ih =>
    obtain ⟨k, v⟩ := e
    rw [List.map_cons, Keyed.get?, ih, Keyed.get?]
    by_cases h : n = k
    · rw [if_pos h, if_pos (congrArg (callerMark ++ ·) h)]
    · rw [if_neg h, if_neg fun he => h (List.append_cancel_left he)]

theorem get?_marked (n : Text) (fields : Keyed.Table Value) :
    (marked fields).get? (callerMark ++ n) = fields.get? n := by
  have hkeys := Keyed.keys_nodup fields.ascending_entries
  rw [marked, Keyed.Table.get?_ofList, ← List.map_reverse, get?_map_mark, Keyed.get?_reverse_of_nodup hkeys]
  rfl

theorem get?_marked_of_bare {h : Text} (hbare : ∀ n, h ≠ callerMark ++ n) (fields : Keyed.Table Value) :
    (marked fields).get? h = none := by
  rw [marked, Keyed.Table.get?_ofList]
  exact Keyed.get?_reverse_eq_none (List.forall_mem_map.mpr fun e _ => (hbare e.1).symm)

/-! ## Merging -/

section
variable {m : Merger} {t : Text} {T : List Node} {d : Data}

theorem merge_of_read (h : Tree.read t = .ok T) : m.merge t d = m.render T d := by
  rw [merge, h]
  rfl

theorem merge_of_read_error {e : Error} (h : Tree.read t = .error e) : m.merge t d = .error e := by
  rw [merge, h]
  rfl

/-- The conversion of the data comes before a look at its value, and this before the rendering. -/
theorem render_eq :
    m.render T d = match d.toValue with
      | .error e => .error e
      | .ok (.map fields) => Node.renderNodes m.functions (.ofRoot (marked fields)) T
      | .ok .null => Node.renderNodes m.functions (.ofRoot .empty) T
      | .ok v => .error (.badVariables v.kind) := by
  unfold render
  cases d.toValue with
  | error e => rfl
  | ok v => cases v <;> rfl

theorem render_of_toValue {fields : Keyed.Table Value} (h : d.toValue = .ok (.map fields)) :
    m.render T d = Node.renderNodes m.functions (.ofRoot (marked fields)) T := by
  rw [render_eq, h]

/-- A template that is merged was read, and its tree rendered with names at the root. -/
theorem merge_eq_ok_iff {x : Text} :
    m.merge t d = .ok x ↔ ∃ T v root, Tree.read t = .ok T ∧ d.toValue = .ok v ∧ rootNames v = .ok root ∧
      Node.renderNodes m.functions (.ofRoot root) T = .ok x := by
  simp only [merge, render, bind_eq_ok_iff]
  constructor
  · rintro ⟨T, hT, v, hv, root, hroot, hx⟩
    exact ⟨T, v, root, hT, hv, hroot, hx⟩
  · rintro ⟨T, v, root, hT, hv, hroot, hx⟩
    exact ⟨T, hT, v, hv, root, hroot, hx⟩

end

end Merger

end MailMerge
