/-
  MailMerge.Proofs.Calls — which texts are read as calls, and under which names functions are
  registered.

  Proved: a text is a call exactly when it is a name that begins with a capital letter and a
  balanced text in parentheses (`split?_iff_balanced`, `Expr.read_eq_call_iff`). A name that a
  registration accepts is one that a call can have (`Registry.exists_register_iff`), and in a row
  of registrations those that are refused can be left out (`Merger.registerAll_filter`). So the
  names under which functions stand and the names that are called are the same names
  (`Call.read_iff_registrable`).
-/

import MailMerge.Proofs.Mentions
import MailMerge.Proofs.Parentheses

namespace MailMerge

/-! ## Reading -/

namespace Call

theorem isCallable_iff {name : Text} :
    isCallable name = true ↔ Text.isName name = true ∧ ∃ c ∈ name.head?, 'A' ≤ c ∧ c ≤ 'Z' := by
  cases name with
  | nil => simp [isCallable]
  | cons c name =>
    have hcapital : c.isUpper = true ↔ 'A' ≤ c ∧ c ≤ 'Z' := by
      have hrange : c.isUpper = decide ('A'.val ≤ c.val ∧ c.val ≤ 'Z'.val) := rfl
      rw [hrange, decide_eq_true_eq]
      exact Iff.rfl
    simp [isCallable, hcapital, and_comm]

/-- A text is a call when it is the name of one and a balanced text in parentheses. -/
theorem split?_iff_balanced {s name a : Text} :
    split? s = some (name, a) ↔ s = name ++ '(' :: a ++ [')'] ∧ isCallable name = true ∧ Balanced a := by
  rw [Expr.split?_eq_some_iff]
  constructor
  · rintro ⟨rest, hname, hcallable, hclosing⟩
    obtain ⟨rfl, hbalanced⟩ := closing?_eq_some_iff.mp hclosing
    obtain ⟨rfl, -, -⟩ := Text.splitName_eq_some_iff.mp hname
    exact ⟨by simp, hcallable, hbalanced⟩
  · rintro ⟨rfl, hcallable, hbalanced⟩
    refine ⟨a ++ [')'], ?_, hcallable, closing?_eq_some_iff.mpr ⟨rfl, hbalanced⟩⟩
    refine Text.splitName_eq_some_iff.mpr ⟨by simp, (isCallable_iff.mp hcallable).1, fun c hc => ?_⟩
    cases hc
    decide

theorem trimmed_call {name : Text} (h : isCallable name = true) (a : Text) : Text.Trimmed (name ++ '(' :: a ++ [')']) := by
  have hname := (isCallable_iff.mp h).1
  rw [List.append_assoc]
  refine Text.trimmed_append (Text.name_ne_nil hname) (by simp) (Text.trimmed_of_isName hname).start fun c hc => ?_
  rw [List.getLast?_append_of_ne_nil _ (List.cons_ne_nil _ _)] at hc
  cases hc
  decide

end Call

namespace Expr

theorem read_trim (s : Text) : read (Text.trim s) = read s := by
  rw [read_eq_tryRules, read_eq_tryRules, Text.trim_trim]

theorem read_eq_call_iff {s source name : Text} {arg : Expr} :
    read s = .call source name arg ↔
      source = Text.trim s ∧ ∃ a, Call.split? (Text.trim s) = some (name, a) ∧ arg = read a := by
  constructor
  · intro h
    rw [read] at h
    split at h
    · rename_i a hcall
      cases h
      exact ⟨rfl, _, hcall, rfl⟩
    · split at h
      · cases h
      · split at h
        · cases h
        · split at h <;> cases h
  · rintro ⟨rfl, a, hcall, rfl⟩
    rw [← read_trim, read_of_call (Text.trimmed_trim s) hcall]

theorem read_call {name a : Text} (hname : Call.isCallable name = true) (ha : Balanced a) :
    read (name ++ '(' :: a ++ [')']) = .call (name ++ '(' :: a ++ [')']) name (read a) :=
  read_of_call (Call.trimmed_call hname a) (Call.split?_iff_balanced.mpr ⟨rfl, hname, ha⟩)

end Expr

/-! ## Registering -/

namespace Registry

variable (r : Registry) (name : Text) (f : Function)

/-- A registration is refused for its name alone. -/
theorem register_cases :
    (Call.isCallable name = true ∧ ∃ r', r.register name f = .ok r') ∨
      (Call.isCallable name = false ∧ r.register name f = .error (.badFunctionName name)) := by
  unfold register
  by_cases h : Call.isCallable name = true
  · exact Or.inl ⟨h, _, if_pos h⟩
  · exact Or.inr ⟨Bool.eq_false_iff.mpr h, if_neg h⟩

theorem exists_register_iff : (∃ r', r.register name f = .ok r') ↔ Call.isCallable name = true := by
  rcases r.register_cases name f with ⟨hcallable, r', hr'⟩ | ⟨hcallable, hr⟩
  · exact iff_of_true ⟨r', hr'⟩ hcallable
  · simp [hcallable, hr]

end Registry

/-- The names of functions are the names that a call can have. -/
theorem Call.isCallable_iff_exists_read {name : Text} :
    isCallable name = true ↔ ∃ s source arg, Expr.read s = .call source name arg := by
  constructor
  · intro h
    exact ⟨_, _, _, Expr.read_call h .nil⟩
  · rintro ⟨s, source, arg, h⟩
    obtain ⟨-, a, hcall, -⟩ := Expr.read_eq_call_iff.mp h
    exact (split?_iff_balanced.mp hcall).2.1

/-- In a row of registrations those that are refused can be left out. -/
theorem Merger.registerAll_filter (m : Merger) (fs : List (Text × Function)) :
    m.registerAll (fs.filter fun e => Call.isCallable e.1) = m.registerAll fs := by
  induction fs generalizing m with
  | nil => rfl
  | cons e fs ih =>
    rcases m.functions.register_cases e.1 e.2 with ⟨hcallable, -⟩ | ⟨hcallable, hrefused⟩
    · rw [List.filter_cons, if_pos hcallable]
      exact ih _
    · have hstays : m.register e.1 e.2 = .error (.badFunctionName e.1) := by rw [register, hrefused]; rfl
      rw [registerAll_cons_of_error hstays, List.filter_cons, if_neg (by simp [hcallable]), ih]

/-- Exactly the calls are read as calls: a name that begins with a capital letter, and a balanced
    text in parentheses behind it, which is read as the argument. A function can be registered under
    exactly the names that some text calls. A registration under any other name is refused, and a
    refused one changes nothing: in a row of registrations it can be left out. -/
theorem Call.read_iff_registrable :
    (∀ (s source name : Text) (arg : Expr), Expr.read s = .call source name arg ↔
      source = Text.trim s ∧ ∃ a, Text.trim s = name ++ '(' :: a ++ [')'] ∧
        (Text.isName name = true ∧ ∃ c ∈ name.head?, 'A' ≤ c ∧ c ≤ 'Z') ∧ Balanced a ∧ arg = Expr.read a) ∧
    (∀ (r : Registry) (name : Text) (f : Function),
      ((∃ r', r.register name f = .ok r') ↔ ∃ s source arg, Expr.read s = .call source name arg) ∧
      ((∃ r', r.register name f = .ok r') ∨ r.register name f = .error (.badFunctionName name))) ∧
    ∀ (m : Merger) (fs : List (Text × Function)),
      m.registerAll (fs.filter fun e => (m.register e.1 e.2).isOk) = m.registerAll fs := by
  refine ⟨fun s source name arg => ?_, fun r name f => ⟨?_, ?_⟩, fun m fs => ?_⟩
  · rw [Expr.read_eq_call_iff]
    simp only [split?_iff_balanced, isCallable_iff, and_assoc]
  · rw [Registry.exists_register_iff, isCallable_iff_exists_read]
  · rcases r.register_cases name f with ⟨-, haccepted⟩ | ⟨-, hrefused⟩
    · exact Or.inl haccepted
    · exact Or.inr hrefused
  · have haccepts (e : Text × Function) : (m.register e.1 e.2).isOk = Call.isCallable e.1 := by
      rw [Merger.register]
      rcases m.functions.register_cases e.1 e.2 with ⟨hcallable, r', hr'⟩ | ⟨hcallable, hrefused⟩
      · rw [hr', hcallable]
        rfl
      · rw [hrefused, hcallable]
        rfl
    simp only [haccepts, Merger.registerAll_filter]

end MailMerge
