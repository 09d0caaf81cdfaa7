/-
  MailMerge.Proofs.Registrations — the function that a call reaches after a row of attempts to
  register.

  The attempts are made one after another, each on the merger that the attempts before it left.
  Some are refused (`Merger.accepted` keeps the others).

  Proved: under a name stands the function that the last accepted attempt with that name gave, and
  without one the function that stood there before (`Merger.get?_functions_registerAll`). A call looks its
  function up before its argument is evaluated (`Merger.evaluate_call`). Both together say what a
  call comes to after any row of attempts, and that a refused attempt leaves no trace
  (`Merger.evaluate_call_after_registrations`).
-/

import MailMerge.Proofs.Calls

namespace MailMerge

/-! ## Rows of attempts -/

namespace Merger

/-- The attempts of a row that are accepted, in their order. -/
def accepted : Merger → List (Text × Function) → List (Text × Function)
  | _, [] => []
  | m, e :: fs =>
    match m.register e.1 e.2 with
    | .ok m' => e :: m'.accepted fs
    | .error _ => m.accepted fs

/-- The last accepted attempt with the name decides, and what stood there before when there is none. -/
theorem get?_functions_registerAll (m : Merger) (fs : List (Text × Function)) (name : Text) :
    (m.registerAll fs).functions.get? name = (Keyed.get? name (m.accepted fs).reverse).or (m.functions.get? name) := by
  induction fs generalizing m with
  | nil => rfl
  | cons e fs ih =>
    cases h : m.register e.1 e.2 with
    | error err =>
      rw [registerAll_cons_of_error h, accepted, h]
      exact ih m
    | ok m' =>
      have hstep : m'.functions.get? name = (Keyed.get? name [e]).or (m.functions.get? name) := by
        rw [get?_of_register h]
        by_cases hname : name = e.1 <;> simp [Keyed.get?, hname]
      rw [registerAll_cons_of_ok h, accepted, h, ih m', hstep, ← Option.or_assoc, ← Keyed.get?_append,
        ← List.reverse_cons]

theorem get?_standard (name : Text) :
    standard.functions.get? name = if name = "Escape".toList then some Registry.escape else none := rfl

/-- The function of a call is looked up first; only then its argument is evaluated. -/
theorem evaluate_call (m : Merger) {name a : Text} (hname : Call.isCallable name = true) (ha : Balanced a) (s : Scope) :
    m.evaluate (name ++ '(' :: a ++ [')']) s =
      match m.functions.get? name with
      | some f => m.evaluate a s >>= f
      | none => .error (.unknownFunction name (name ++ '(' :: a ++ [')'])) := by
  rw [evaluate, Expr.read_call hname ha, Expr.eval]
  rfl

/-- Attempts to register are made one after another on the merger that only has the function
    `Escape`, and then a function is called. The call comes to what the function of the last
    accepted attempt with exactly its name makes of the argument's value; without one, `Escape` is
    the escaping of markup, and any other name is an unknown function, whatever becomes of the
    argument. An attempt that is refused can be taken out of the row. -/
theorem evaluate_call_after_registrations (fs : List (Text × Function)) (name a : Text)
    (hname : Call.isCallable name = true) (ha : Balanced a) (s : Scope) :
    let m := standard.registerAll fs
    let call := name ++ '(' :: a ++ [')']
    (∀ before f after v, standard.accepted fs = before ++ (name, f) :: after → (∀ e ∈ after, e.1 ≠ name) →
      m.evaluate a s = .ok v → m.evaluate call s = f v) ∧
    (∀ v, (∀ e ∈ standard.accepted fs, e.1 ≠ name) → name = "Escape".toList →
      m.evaluate a s = .ok v → m.evaluate call s = Registry.escape v) ∧
    ((∀ e ∈ standard.accepted fs, e.1 ≠ name) → name ≠ "Escape".toList →
      m.evaluate call s = .error (.unknownFunction name (Text.trim call))) ∧
    ∀ before e after, fs = before ++ e :: after →
      (∃ err, (standard.registerAll before).register e.1 e.2 = .error err) →
      m = standard.registerAll (before ++ after) := by
  intro m call
  have hcall := evaluate_call m hname ha s
  have hfunction := get?_functions_registerAll standard fs name
  rw [get?_standard] at hfunction
  refine ⟨fun before f after v hlast hafter hv => ?_, fun v hnone hescape hv => ?_, fun hnone hother => ?_, ?_⟩
  · rw [hlast, Keyed.get?_reverse_of_last hafter, Option.some_or] at hfunction
    rw [hcall, hfunction]
    exact congrArg (· >>= f) hv
  · rw [Keyed.get?_reverse_eq_none hnone, Option.none_or, if_pos hescape] at hfunction
    rw [hcall, hfunction]
    exact congrArg (· >>= Registry.escape) hv
  · rw [Keyed.get?_reverse_eq_none hnone, Option.none_or, if_neg hother] at hfunction
    rw [hcall, hfunction, Text.trim_of_trimmed (Call.trimmed_call hname a)]
  · rintro before e after rfl ⟨err, hrefused⟩
    show standard.registerAll (before ++ e :: after) = _
    rw [registerAll_append, registerAll_append, registerAll_cons_of_error hrefused]

/-- A function registered twice and called on a call of `Escape`, a name that no call has, and a call
    of an unknown function with an argument that cannot be resolved. -/
theorem evaluate_call_registered_twice :
    let twice : Function := fun v => .ok (.list [v, v])
    let first := ("Twice".toList, Registry.escape)
    let last := ("Twice".toList, twice)
    let m := standard.registerAll [first, ("twice".toList, Registry.escape), last]
    let s := Scope.ofRoot (.ofList [("var:a".toList, .str "<".toList)])
    m.evaluate "Escape(var:a)".toList s = .ok (.str "&lt;".toList) ∧
    m.evaluate "Twice(Escape(var:a))".toList s = .ok (.list [.str "&lt;".toList, .str "&lt;".toList]) ∧
    m.evaluate "Shout(var:b)".toList s = .error (.unknownFunction "Shout".toList "Shout(var:b)".toList) ∧
    m = standard.registerAll [first, last] := by
  intro twice first last m s
  have hkept : standard.accepted [first, ("twice".toList, Registry.escape), last] = [first] ++ last :: [] := rfl
  have hnames {name : Text} (h : "Twice".toList ≠ name) :
      ∀ e ∈ standard.accepted [first, ("twice".toList, Registry.escape), last], e.1 ≠ name := by
    rw [hkept]
    exact List.forall_mem_cons.mpr ⟨h, List.forall_mem_cons.mpr ⟨h, fun _ he => nomatch he⟩⟩
  have harg : m.evaluate "var:a".toList s = .ok (.str "<".toList) := by
    have hread : Expr.read "var:a".toList = .var "var:a".toList ["var:a".toList] none :=
      Expr.read_marked (x := "a".toList) (by decide)
    rw [evaluate, hread]
    rfl
  have hescape := evaluate_call_after_registrations [first, ("twice".toList, Registry.escape), last]
    "Escape".toList "var:a".toList (by decide) (by decide) s
  have htwice := evaluate_call_after_registrations [first, ("twice".toList, Registry.escape), last]
    "Twice".toList "Escape(var:a)".toList (by decide) (by decide) s
  have hshout := evaluate_call_after_registrations [first, ("twice".toList, Registry.escape), last]
    "Shout".toList "var:b".toList (by decide) (by decide) s
  have hinner := hescape.2.1 _ (hnames (by decide)) rfl harg
  refine ⟨hinner, ?_, ?_, ?_⟩
  · exact htwice.1 _ twice _ _ hkept (fun _ he => nomatch he) hinner
  · exact hshout.2.2.1 (hnames (by decide)) (by decide)
  · exact hescape.2.2.2 [first] _ [last] rfl ⟨_, rfl⟩

end Merger

end MailMerge
