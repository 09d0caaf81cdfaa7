/-
  MailMerge.Proofs.Comparisons — what the six operators of a comparison say together.

  Equality and order of values are two functions, and each operator asks one of them; the two that
  allow equality ask the order whether it is not the opposite one. They fit together because of two
  facts about values that have an order: they are equal exactly when the order says so
  (`Value.equals_of_order`), and the order from the other side is the reverse
  (`Value.order_swap`). So on such values an operator is what it accepts of the order, the two
  equalities among them (`Op.apply_of_order`).

  Proved: the operators are coherent on every pair of expressions, in every scope
  (`Expr.comparisons_cohere`).
-/

import MailMerge.Proofs.Equality

namespace MailMerge

/-! ## The order from the other side -/

theorem Double.compare?_swap (x y : Double) : y.compare? x = (x.compare? y).map Ordering.swap := by
  unfold compare?
  cases x.rank? with
  | none => cases y.rank? <;> rfl
  | some r =>
    cases y.rank? with
    | none => rfl
    | some s => exact congrArg some Std.OrientedOrd.eq_swap

namespace Value

theorem compare?_swap (a b : Value) : b.compare? a = (a.compare? b).map Ordering.swap := by
  cases a with
  | int m =>
    cases b with
    | int n => exact congrArg some Std.OrientedOrd.eq_swap
    | float y => exact Double.compare?_swap _ y
    | _ => rfl
  | float x =>
    cases b with
    | int n => exact Double.compare?_swap x _
    | float y => exact Double.compare?_swap x y
    | _ => rfl
  | str s =>
    cases b with
    | str t => exact congrArg some Std.OrientedOrd.eq_swap
    | _ => rfl
  | bool s =>
    cases b with
    | bool t => exact congrArg some Std.OrientedOrd.eq_swap
    | _ => rfl
  | null => cases b <;> rfl
  | list as => cases b <;> rfl
  | map as => cases b <;> rfl

section
variable {a b : Value} {o : Ordering}

theorem order_swap (h : a.order b = .ok o) : b.order a = .ok o.swap := by
  rw [order_eq_ok_iff] at h ⊢
  rw [compare?_swap, h]
  rfl

/-- The only error of the order names the two kinds. -/
theorem order_eq_error_iff {e : Error} :
    a.order b = .error e ↔ a.compare? b = none ∧ e = .incomparable a.kind b.kind := by
  unfold order
  split
  · rename_i h
    simp [h]
  · rename_i h
    simp [h, eq_comm]

theorem order_swap_of_error {e : Error} (h : a.order b = .error e) :
    b.order a = .error (.incomparable b.kind a.kind) := by
  rw [order_eq_error_iff] at h ⊢
  rw [compare?_swap, h.1]
  exact ⟨rfl, rfl⟩

/-! ## Equality and the order -/

theorem equals_iff_of_compare? (h : a.compare? b = some o) : a.equals b = true ↔ o = .eq := by
  by_cases hkind : a.kind = .number
  · obtain ⟨⟨r, ha⟩, s, hb⟩ := exists_rank?_of_compare? hkind h
    rcases compare?_of_rank? ha hb with ⟨m, n, rfl, rfl⟩ | hplaces
    · cases h
      exact beq_iff_eq.trans Std.compare_eq_iff_eq.symm
    · cases hplaces.symm.trans h
      rw [Std.compare_eq_iff_eq]
      constructor
      · intro heq
        exact Option.some.inj (ha.symm.trans ((rank?_eq_of_equals heq).trans hb))
      · rintro rfl
        rcases equals_of_rank? ha hb with heq | ⟨m, n, hne, rfl, rfl⟩
        · exact heq
        · have hlevel := (Option.some.inj hplaces).trans Std.ReflOrd.compare_self
          exact absurd (Std.compare_eq_iff_eq.mp hlevel) hne
  cases a with
  | str s =>
    obtain ⟨t, rfl, rfl⟩ := exists_str_of_compare? h
    exact beq_iff_eq.trans Std.compare_eq_iff_eq.symm
  | bool s =>
    obtain ⟨t, rfl, rfl⟩ := exists_bool_of_compare? h
    exact beq_iff_eq.trans Std.compare_eq_iff_eq.symm
  | int m => exact absurd rfl hkind
  | float x => exact absurd rfl hkind
  | null => cases b <;> cases h
  | list as => cases b <;> cases h
  | map as => cases b <;> cases h

theorem equals_of_order (h : a.order b = .ok o) : a.equals b = (o == .eq) := by
  rw [Bool.eq_iff_iff, equals_iff_of_compare? (order_eq_ok_iff.mp h), beq_iff_eq]

end

end Value

/-! ## Operators -/

namespace Op

/-- The operator that says the same of the operands in the other order. -/
def reversed : Op → Op
  | .eq => .eq
  | .ne => .ne
  | .gt => .lt
  | .ge => .le
  | .lt => .gt
  | .le => .ge

theorem accepts_reversed (op : Op) (o : Ordering) : op.reversed.accepts o.swap = op.accepts o := by
  cases op <;> cases o <;> rfl

section
variable {a b : Value} {op : Op}

theorem apply_ordering (hop : op ∈ [Op.lt, .le, .gt, .ge]) : op.apply a b = (a.order b).map op.accepts := by
  cases op with
  | eq | ne => simp at hop
  | gt | ge | lt | le => rfl

/-- The order of two values decides every operator, those for equality too. -/
theorem apply_of_order {o : Ordering} (h : a.order b = .ok o) : op.apply a b = .ok (op.accepts o) := by
  cases op with
  | eq => exact congrArg Except.ok (Value.equals_of_order h)
  | ne => exact congrArg (fun t => Except.ok !t) (Value.equals_of_order h)
  | gt | ge | lt | le =>
    rw [apply_ordering (by decide), h]
    rfl

end

end Op

/-! ## Comparisons -/

namespace Expr

section
variable {f : Registry} {s : Scope} {l r : Expr}

theorem eval_compare {a b : Value} (hl : l.eval f s = .ok a) (hr : r.eval f s = .ok b) (source : Text) (op : Op) :
    (Expr.compare source op l r).eval f s = ((op.apply a b).map Value.bool).mapError (.comparison source) := by
  rw [eval, hl, hr]
  cases h : op.apply a b <;> simp only [bind, Except.bind, h] <;> rfl

theorem eval_compare_of_left_error {e : Error} (hl : l.eval f s = .error e) (source : Text) (op : Op) :
    (Expr.compare source op l r).eval f s = .error (.comparison source e) := by
  rw [eval, hl]
  rfl

theorem eval_compare_of_right_error {a : Value} {e : Error} (hl : l.eval f s = .ok a) (hr : r.eval f s = .error e)
    (source : Text) (op : Op) : (Expr.compare source op l r).eval f s = .error (.comparison source e) := by
  rw [eval, hl, hr]
  rfl

theorem eval_compare_of_order {a b : Value} {o : Ordering} (hl : l.eval f s = .ok a) (hr : r.eval f s = .ok b)
    (h : a.order b = .ok o) (source : Text) (op : Op) :
    (Expr.compare source op l r).eval f s = .ok (.bool (op.accepts o)) := by
  rw [eval_compare hl hr, Op.apply_of_order h]
  rfl

theorem eval_compare_of_order_error {a b : Value} {e : Error} (hl : l.eval f s = .ok a) (hr : r.eval f s = .ok b)
    (h : a.order b = .error e) (source : Text) {op : Op} (hop : op ∈ [Op.lt, .le, .gt, .ge]) :
    (Expr.compare source op l r).eval f s = .error (.comparison source (.incomparable a.kind b.kind)) := by
  rw [eval_compare hl hr, Op.apply_ordering hop, h, (Value.order_eq_error_iff.mp h).2]
  rfl

end

/-- One of below, equal and above is true, and the other two are made of them. -/
theorem accepts_trichotomy (o : Ordering) :
    [Op.lt.accepts o, Op.eq.accepts o, Op.gt.accepts o].count true = 1 ∧
      Op.le.accepts o = (Op.lt.accepts o || Op.eq.accepts o) ∧
      Op.ge.accepts o = (Op.gt.accepts o || Op.eq.accepts o) := by
  cases o <;> decide

/-- The six operators between two expressions, and between the same two exchanged. When both have
    values, the equalities are each other's negation and never fail; if the values have an order,
    exactly one of below, equal and above is true, the operators that allow equality are made of
    these, and each says what its reverse says of the exchanged operands; if they have none, the
    other four fail and name the two kinds. When an operand fails, all six fail with its error, the
    left one's first. -/
theorem comparisons_cohere (f : Registry) (s : Scope) (l r : Expr) (source source' : Op → Text) :
    let outcome (op : Op) := (Expr.compare (source op) op l r).eval f s
    let exchanged (op : Op) := (Expr.compare (source' op) op r l).eval f s
    (∀ a b, l.eval f s = .ok a → r.eval f s = .ok b →
      (∃ t : Bool, outcome .eq = .ok (.bool t) ∧ outcome .ne = .ok (.bool !t) ∧
        exchanged .eq = .ok (.bool t) ∧ exchanged .ne = .ok (.bool !t)) ∧
      (∀ o, a.order b = .ok o →
        (∃ lt eq gt : Bool, [lt, eq, gt].count true = 1 ∧ outcome .lt = .ok (.bool lt) ∧ outcome .eq = .ok (.bool eq) ∧
          outcome .gt = .ok (.bool gt) ∧ outcome .le = .ok (.bool (lt || eq)) ∧ outcome .ge = .ok (.bool (gt || eq))) ∧
        (∀ op, exchanged op.reversed = outcome op) ∧ b.order a = .ok o.swap) ∧
      (∀ e, a.order b = .error e → ∀ op ∈ [Op.lt, .le, .gt, .ge],
        outcome op = .error (.comparison (source op) (.incomparable a.kind b.kind)) ∧
        exchanged op = .error (.comparison (source' op) (.incomparable b.kind a.kind)))) ∧
    (∀ e, l.eval f s = .error e → ∀ op, outcome op = .error (.comparison (source op) e)) ∧
    (∀ a e, l.eval f s = .ok a → r.eval f s = .error e → ∀ op, outcome op = .error (.comparison (source op) e)) := by
  intro outcome exchanged
  refine ⟨fun a b hl hr => ⟨?_, fun o ho => ?_, fun e he op hop => ?_⟩, fun e hl op => ?_, fun a e hl hr op => ?_⟩
  · refine ⟨a.equals b, eval_compare hl hr _ .eq, eval_compare hl hr _ .ne, ?_, ?_⟩
    · exact Value.equals_comm b a ▸ eval_compare hr hl _ .eq
    · exact Value.equals_comm b a ▸ eval_compare hr hl _ .ne
  · have hswap := Value.order_swap ho
    have hout (op : Op) : outcome op = .ok (.bool (op.accepts o)) := eval_compare_of_order hl hr ho _ op
    obtain ⟨hone, hle, hge⟩ := accepts_trichotomy o
    refine ⟨⟨_, _, _, hone, hout .lt, hout .eq, hout .gt, hle ▸ hout .le, hge ▸ hout .ge⟩, fun op => ?_, hswap⟩
    rw [hout op, ← Op.accepts_reversed op o]
    exact eval_compare_of_order hr hl hswap _ op.reversed
  · exact ⟨eval_compare_of_order_error hl hr he _ hop,
      eval_compare_of_order_error hr hl (Value.order_swap_of_error he) _ hop⟩
  · exact eval_compare_of_left_error hl _ op
  · exact eval_compare_of_right_error hl hr _ op

/-- An integer below a float, a number that has no order with a text, and names that have no value. -/
theorem comparisons_cohere_mixed :
    let outcome (l r : Expr) (op : Op) := (Expr.compare "?".toList op l r).eval .builtin (.ofRoot .empty)
    let less : Expr := .literal "1".toList (.int 1)
    let more : Expr := .literal "1.5".toList (.float ⟨0x3FF8000000000000⟩)
    let word : Expr := .literal "w".toList (.str "w".toList)
    let x : Expr := .var "x".toList ["x".toList] none
    let y : Expr := .var "y".toList ["y".toList] none
    (∃ t : Bool, outcome less word .eq = .ok (.bool t) ∧ outcome less word .ne = .ok (.bool !t)) ∧
    (∃ lt eq gt : Bool, [lt, eq, gt].count true = 1 ∧ outcome less more .lt = .ok (.bool lt) ∧
      outcome less more .eq = .ok (.bool eq) ∧ outcome less more .gt = .ok (.bool gt) ∧
      outcome less more .le = .ok (.bool (lt || eq)) ∧ outcome less more .ge = .ok (.bool (gt || eq))) ∧
    outcome more less .gt = outcome less more .lt ∧
    outcome less word .le = .error (.comparison "?".toList (.incomparable .number .string)) ∧
    outcome x y .eq = .error (.comparison "?".toList (.unresolved "x".toList)) ∧
    outcome less y .ge = .error (.comparison "?".toList (.unresolved "y".toList)) := by
  intro outcome less more word x y
  have cohere (l r : Expr) := comparisons_cohere .builtin (.ofRoot .empty) l r (fun _ => "?".toList) (fun _ => "?".toList)
  have hbelow : (Value.int 1).order (.float ⟨0x3FF8000000000000⟩) = .ok .lt :=
    Value.order_eq_ok_iff.mpr (by decide +kernel)
  obtain ⟨_, hordered, _⟩ := (cohere less more).1 _ _ rfl rfl
  obtain ⟨hequality, _, hunordered⟩ := (cohere less word).1 _ _ rfl rfl
  obtain ⟨t, heq, hne, _, _⟩ := hequality
  obtain ⟨htrichotomy, hexchanged, _⟩ := hordered .lt hbelow
  refine ⟨⟨t, heq, hne⟩, htrichotomy, hexchanged .lt, ?_, ?_, ?_⟩
  · exact (hunordered _ rfl .le (by decide)).1
  · exact (cohere x y).2.1 _ rfl .eq
  · exact (cohere less y).2.2 _ _ rfl rfl .ge

end Expr

end MailMerge
