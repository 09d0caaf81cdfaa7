/-
  MailMerge.Proofs.JsonMarks — what JSON text looks like to a reader of quotations.

  Outside quotations JSON text has only marks: the characters that structure lists and objects,
  spaces, and the characters of numbers and of the three words. Each reader of the JSON grammar
  takes a text off the front that ends outside quotations and has only marks there (`Takes`);
  the readers are put together as the grammar puts them together, the lists and objects by
  induction on the depth to which they are nested (`takes_value`). So a text that is JSON ends
  outside quotations, and every parenthesis and every sign of a comparison in it is quoted
  (`passes_read`).
-/

import MailMerge.Json.Read
import MailMerge.Proofs.Quotations

namespace MailMerge.Json

/-- A character that JSON text may have outside quotations. -/
def isMark (c : Char) : Bool := c.isDigit || "[]\x7b\x7d:, \t\n\r+-.eEtrufalsn".toList.contains c

theorem ne_quote_of_isMark {c : Char} (h : isMark c = true) : c ≠ '"' := by
  rintro rfl
  revert h
  decide

/-- What is taken off the first text to leave the second ends outside quotations, and has only
    marks there. -/
def Takes (s rest : Text) : Prop := ∃ taken, s = taken ++ rest ∧ Passes (isMark ·) .outside taken .outside

/-- The reader takes only such text. -/
def Reader.Proper {α : Type} (item : Reader α) : Prop :=
  ∀ {s : Text} {a : α} {rest : Text}, item.run s = some (a, rest) → Takes s rest

namespace Takes

variable {s t rest : Text}

theorem refl (s : Text) : Takes s s := ⟨[], rfl, .nil _⟩

theorem trans (h : Takes s t) (h' : Takes t rest) : Takes s rest := by
  obtain ⟨a, rfl, ha⟩ := h
  obtain ⟨b, rfl, hb⟩ := h'
  exact ⟨a ++ b, by simp, ha.append hb⟩

theorem marks {a : Text} (h : a.all isMark = true) : Takes (a ++ s) s :=
  ⟨a, rfl, .plain fun c hc => have hmark := List.all_eq_true.mp h c hc; ⟨ne_quote_of_isMark hmark, hmark⟩⟩

theorem mark {c : Char} (h : isMark c = true) : Takes (c :: s) s := marks (a := [c]) (by simp [h])

theorem dropWhile {p : Char → Bool} (h : ∀ c, p c = true → isMark c = true) : Takes s (s.dropWhile p) := by
  have hmarks : (s.takeWhile p).all isMark = true :=
    List.all_eq_true.mpr fun c hc => h c (List.all_eq_true.mp List.all_takeWhile c hc)
  have htakes := marks (s := s.dropWhile p) hmarks
  rwa [List.takeWhile_append_dropWhile] at htakes

theorem quoted {key : Text} (h : readTail s = some (key, rest)) : Takes ('"' :: s) rest := by
  obtain ⟨taken, rfl, hpasses⟩ := passes_readTail (p := (isMark ·)) h
  exact ⟨'"' :: taken, rfl, .covered rfl rfl hpasses⟩

end Takes

/-! ## Spaces and separators -/

theorem takes_skipSpaces (s : Text) : Takes s (skipSpaces s) := by
  refine .dropWhile fun c hc => ?_
  simp only [isSpace, Bool.or_eq_true, beq_iff_eq] at hc
  rcases hc with ((rfl | rfl) | rfl) | rfl
  all_goals decide

theorem skipSpaces_of_skip {c : Char} {s rest : Text} (h : skip c s = some rest) : skipSpaces s = c :: rest := by
  unfold skip at h
  split at h
  · cases h
  · rename_i d rest' hd
    split at h
    · rename_i hc
      cases h
      rw [hd, hc]
    · cases h

theorem takes_skip {c : Char} {s rest : Text} (hc : isMark c = true)
    (h : skip c s = some rest) : Takes s rest := by
  have := takes_skipSpaces s
  rw [skipSpaces_of_skip h] at this
  exact this.trans (.mark hc)

/-! ## Numbers -/

section
open Number

theorem takes_splitDigits {s ds rest : Text} (h : Numeral.splitDigits s = some (ds, rest)) : Takes s rest := by
  unfold Numeral.splitDigits at h
  split at h
  · cases h
  · cases h
    exact .dropWhile fun c hc => Bool.or_eq_true_iff.mpr (Or.inl hc)

theorem takes_splitSign (s : Text) : Takes s (Numeral.splitSign s).2 := by
  unfold Numeral.splitSign
  split
  · exact .mark (by decide)
  · exact .refl _

theorem takes_splitWhole {s ds rest : Text} (h : Numeral.splitWhole s = some (ds, rest)) : Takes s rest := by
  unfold Numeral.splitWhole at h
  split at h
  · cases h
    exact .mark (by decide)
  · exact takes_splitDigits h

theorem takes_splitFraction {s ds rest : Text} (h : Numeral.splitFraction s = some (ds, rest)) : Takes s rest := by
  unfold Numeral.splitFraction at h
  split at h
  · exact Takes.trans (.mark (by decide)) (takes_splitDigits h)
  · cases h
    exact .refl _

theorem takes_splitPower {s rest : Text} {n : Int} (h : Numeral.splitPower s = some (n, rest)) : Takes s rest := by
  unfold Numeral.splitPower at h
  split at h
  all_goals
    simp only [Option.map_eq_some_iff, Prod.exists, Prod.mk.injEq] at h
    obtain ⟨ds, rest', hdigits, -, rfl⟩ := h
  · exact Takes.trans (.mark (by decide)) (takes_splitDigits hdigits)
  · exact Takes.trans (.mark (by decide)) (takes_splitDigits hdigits)
  · exact takes_splitDigits hdigits

theorem takes_splitExponent {s rest : Text} {n : Option Int} (h : Numeral.splitExponent s = some (n, rest)) :
    Takes s rest := by
  unfold Numeral.splitExponent at h
  split at h
  case h_3 =>
    cases h
    exact .refl _
  all_goals
    simp only [Option.map_eq_some_iff, Prod.exists, Prod.mk.injEq] at h
    obtain ⟨k, rest', hpower, -, rfl⟩ := h
    exact Takes.trans (.mark (by decide)) (takes_splitPower hpower)

theorem takes_readNumber {s rest : Text} {j : Json} (h : readNumber s = some (j, rest)) : Takes s rest := by
  unfold readNumber at h
  split at h
  · rename_i hnumeral
    simp only [Option.map_eq_some_iff, Prod.mk.injEq] at h
    obtain ⟨_, -, -, rfl⟩ := h
    simp only [Number.Numeral.read, Option.bind_eq_bind, Option.bind_eq_some_iff, Option.pure_def, Option.some.injEq,
      Prod.exists, Prod.mk.injEq] at hnumeral
    obtain ⟨whole, s₁, hwhole, fraction, s₂, hfraction, exponent, s₃, hexponent, -, rfl⟩ := hnumeral
    exact (takes_splitSign s).trans ((takes_splitWhole hwhole).trans
      ((takes_splitFraction hfraction).trans (takes_splitExponent hexponent)))
  · cases h

end

/-! ## Data -/

theorem takes_readScalar {s rest : Text} {j : Json} (h : readScalar s = some (j, rest)) : Takes s rest := by
  unfold readScalar at h
  split at h
  · cases h
    exact .marks (a := "null".toList) (by decide)
  · cases h
    exact .marks (a := "true".toList) (by decide)
  · cases h
    exact .marks (a := "false".toList) (by decide)
  · simp only [Option.map_eq_some_iff, Prod.exists, Prod.mk.injEq] at h
    obtain ⟨_, _, htail, -, rfl⟩ := h
    exact .quoted htail
  · exact takes_readNumber h

theorem takes_entries {α : Type} {item : Reader α} (hitem : item.Proper) {close : Char}
    (hclose : isMark close = true) {s rest : Text} {as : List α}
    (h : item.entries close s = some (as, rest)) : Takes s rest := by
  fun_induction Reader.entries item close s generalizing as with
  | case1 => cases h
  | case2 s a rest₁ hrun rest₂ hcomma ih =>
    simp only [Option.map_eq_some_iff, Prod.exists, Prod.mk.injEq] at h
    obtain ⟨as', rest', hrest, -, rfl⟩ := h
    exact (hitem hrun).trans ((takes_skip (by decide) hcomma).trans (ih hrest))
  | case3 s a rest₁ hrun _ =>
    simp only [Option.map_eq_some_iff, Prod.mk.injEq] at h
    obtain ⟨rest', hskip, -, rfl⟩ := h
    exact (hitem hrun).trans (takes_skip hclose hskip)

theorem takes_list {α : Type} {item : Reader α} (hitem : item.Proper) {close : Char}
    (hclose : isMark close = true) {s rest : Text} {as : List α}
    (h : item.list close s = some (as, rest)) : Takes s rest := by
  unfold Reader.list at h
  split at h
  · rename_i hskip
    cases h
    exact takes_skip hclose hskip
  · exact takes_entries hitem hclose h

theorem proper_member {value : Reader Json} (hvalue : value.Proper) : (member value).Proper := by
  intro s a rest h
  change readMember value s = _ at h
  unfold readMember at h
  split at h
  · cases h
  · rename_i s₁ hquote
    split at h
    · cases h
    · rename_i key s₂ hkey
      split at h
      · cases h
      · rename_i s₃ hcolon
        simp only [Option.map_eq_some_iff, Prod.exists, Prod.mk.injEq] at h
        obtain ⟨_, _, hrun, -, rfl⟩ := h
        have hspaces := takes_skipSpaces s
        rw [skipSpaces_of_skip hquote] at hspaces
        exact hspaces.trans ((Takes.quoted hkey).trans ((takes_skip (by decide) hcolon).trans (hvalue hrun)))

theorem takes_readValue {nested? : Option (Reader Json)} (hnested : ∀ nested ∈ nested?, nested.Proper)
    {s rest : Text} {j : Json} (h : readValue nested? s = some (j, rest)) : Takes s rest := by
  have hspaces := takes_skipSpaces s
  unfold readValue at h
  split at h
  · rename_i s₁ hopen
    simp only [Option.bind_eq_some_iff, Option.map_eq_some_iff, Prod.exists, Prod.mk.injEq] at h
    obtain ⟨nested, hmem, _, _, hlist, -, rfl⟩ := h
    rw [hopen] at hspaces
    exact hspaces.trans (Takes.trans (.mark (by decide)) (takes_list (hnested nested hmem) (by decide) hlist))
  · rename_i s₁ hopen
    simp only [Option.bind_eq_some_iff, Option.map_eq_some_iff, Prod.exists, Prod.mk.injEq] at h
    obtain ⟨nested, hmem, _, _, hlist, -, rfl⟩ := h
    rw [hopen] at hspaces
    exact hspaces.trans (Takes.trans (.mark (by decide))
      (takes_list (proper_member (hnested nested hmem)) (by decide) hlist))
  · exact hspaces.trans (takes_readScalar h)

theorem proper_value (depth : Nat) : (value depth).Proper := by
  induction depth with
  | zero =>
    intro s j rest h
    exact takes_readValue (fun _ hmem => absurd hmem (Option.not_mem_none _)) h
  | succ depth ih =>
    intro s j rest h
    refine takes_readValue (fun nested hmem => ?_) h
    cases hmem
    exact ih

/-- A text that is JSON ends outside quotations and has only marks there. -/
theorem passes_read {s : Text} {j : Json} (h : read s = some j) : Passes (isMark ·) .outside s .outside := by
  unfold read at h
  split at h
  · rename_i j' rest hvalue
    split at h
    · rename_i hrest
      have htakes : Takes s [] := by
        have hspaces := takes_skipSpaces rest
        rw [List.isEmpty_iff.mp hrest] at hspaces
        exact (proper_value maxDepth hvalue).trans hspaces
      obtain ⟨taken, rfl, hp⟩ := htakes
      simpa using hp
    · cases h
  · cases h

end MailMerge.Json
