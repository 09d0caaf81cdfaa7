/-
  MailMerge.Proofs.Quotations — reading over a text while keeping track of quotations.

  `Passes p q s q'` says that a reader that stands at `q` before the text stands at `q'` after
  it, and has met only characters with `p` outside quotations (`passes_iff`). Runs are put together
  by `Passes.append`; a text without quotes is one run outside (`Passes.plain`), and a text that
  JSON reads as quoted, up to its closing quote, is one from inside to outside
  (`passes_readTail`), whatever characters and escapes stand in it.
-/

import MailMerge.Expr.Quotes
import MailMerge.Json.Quoted

namespace MailMerge

namespace Quotes

/-- Where the reader stands after the text. -/
def after (q : Quotes) (s : Text) : Quotes := s.foldl next q

end Quotes

/-- The text leads the reader from one place to another, and outside quotations it has only
    characters with `p`. -/
inductive Passes (p : Char → Prop) : Quotes → Text → Quotes → Prop
  | nil (q : Quotes) : Passes p q [] q
  | cons {q q' : Quotes} {c : Char} {s : Text} : (q.covers c = false → p c) → Passes p (q.next c) s q' →
      Passes p q (c :: s) q'

namespace Passes

variable {p : Char → Prop} {q q' q'' : Quotes} {s t : Text}

theorem step {c : Char} (hnext : q.next c = q') (hc : q.covers c = false → p c) (h : Passes p q' s q'') :
    Passes p q (c :: s) q'' := by
  subst hnext
  exact .cons hc h

/-- In a quotation every character is allowed. -/
theorem covered {c : Char} (hcover : q.covers c = true) (hnext : q.next c = q') (h : Passes p q' s q'') :
    Passes p q (c :: s) q'' := by
  refine step hnext (fun hbare => ?_) h
  rw [hcover] at hbare
  cases hbare

theorem append (h : Passes p q s q') (h' : Passes p q' t q'') : Passes p q (s ++ t) q'' := by
  induction h with
  | nil => exact h'
  | cons hc _ ih => exact .cons hc (ih h')

theorem mono {p' : Char → Prop} (hp : ∀ c, p c → p' c) (h : Passes p q s q') : Passes p' q s q' := by
  induction h with
  | nil q => exact .nil q
  | cons hc _ ih => exact .cons (fun hq => hp _ (hc hq)) ih

/-- A text without quotes does not leave the outside. -/
theorem plain (h : ∀ c ∈ s, c ≠ '"' ∧ p c) : Passes p .outside s .outside := by
  induction s with
  | nil => exact .nil _
  | cons c s ih =>
    obtain ⟨hquote, hp⟩ := h c List.mem_cons_self
    exact .step (if_neg hquote) (fun _ => hp) (ih fun d hd => h d (List.mem_cons_of_mem c hd))

/-- The first quote after a text without quotes has not come yet, so what follows that text is outside. -/
theorem prop_of_outside {c : Char} (h : Passes p .outside (s ++ c :: t) q) (hs : ∀ d ∈ s, d ≠ '"') (hc : c ≠ '"') :
    p c := by
  induction s with
  | nil =>
    cases h with
    | cons hp _ => exact hp (by simp [Quotes.covers, hc])
  | cons d s ih =>
    cases h with
    | cons _ h =>
      have hnext : Quotes.next .outside d = .outside := if_neg (hs d List.mem_cons_self)
      rw [hnext] at h
      exact ih h fun e he => hs e (List.mem_cons_of_mem d he)

end Passes

/-- A run is the reader's way through the text, with `p` wherever it meets a character outside. -/
theorem passes_iff {p : Char → Prop} {q q' : Quotes} {s : Text} : Passes p q s q' ↔
    q.after s = q' ∧ ∀ x c y, s = x ++ c :: y → (q.after x).covers c = false → p c := by
  induction s generalizing q with
  | nil =>
    constructor
    · intro h
      cases h with
      | nil => exact ⟨rfl, fun x c y hs => absurd hs (by simp)⟩
    · intro h
      obtain ⟨rfl, -⟩ := h
      exact .nil q
  | cons d s ih =>
    constructor
    · intro h
      cases h with
      | cons hd h =>
        obtain ⟨hend, hbare⟩ := ih.mp h
        refine ⟨hend, fun x c y hs hc => ?_⟩
        cases x with
        | nil =>
          obtain ⟨rfl, -⟩ := List.cons.inj hs
          exact hd hc
        | cons _ x =>
          obtain ⟨rfl, hlater⟩ := List.cons.inj hs
          exact hbare x c y hlater hc
    · intro h
      obtain ⟨hend, hbare⟩ := h
      refine .cons (hbare [] d s rfl) (ih.mpr ⟨hend, fun x c y hs => ?_⟩)
      exact hbare (d :: x) c y (by rw [hs]; rfl)

/-! ## Quoted texts of JSON -/

namespace Json

variable {p : Char → Prop}

/-- A character between the quotes that neither escapes nor closes. -/
theorem passes_inside {c : Char} (hslash : c ≠ '\\') (hquote : c ≠ '"') : Passes p .inside [c] .inside := by
  have hnext : Quotes.next .inside c = .inside := by simp [Quotes.next, hslash, hquote]
  exact .covered rfl hnext (.nil _)

theorem passes_backslash : Passes p .inside ['\\'] .escaped := .covered rfl rfl (.nil _)

theorem passes_escaped (c : Char) : Passes p .escaped [c] .inside := .covered rfl rfl (.nil _)

theorem passes_hexValue? {c : Char} {n : Nat} (h : hexValue? c = some n) : Passes p .inside [c] .inside := by
  apply passes_inside
  · rintro rfl
    cases h
  · rintro rfl
    cases h

theorem passes_readUnit {s rest : Text} {n : Nat} (h : readUnit s = some (n, rest)) :
    ∃ taken, s = taken ++ rest ∧ Passes p .inside taken .inside := by
  unfold readUnit at h
  split at h
  · rename_i a b c d rest'
    simp only [Option.bind_eq_bind, Option.bind_eq_some_iff, Option.pure_def, Option.some.injEq, Prod.mk.injEq] at h
    obtain ⟨_, ha, _, hb, _, hc, _, hd, -, rfl⟩ := h
    refine ⟨[a, b, c, d], rfl, ?_⟩
    exact (passes_hexValue? ha).append ((passes_hexValue? hb).append ((passes_hexValue? hc).append (passes_hexValue? hd)))
  · cases h

theorem passes_readSecond {first : Nat} {s rest : Text} {c : Char} (h : readSecond first s = some (c, rest)) :
    ∃ taken, s = taken ++ rest ∧ Passes p .inside taken .inside := by
  unfold readSecond at h
  split at h
  · split at h
    · rename_i hunit
      split at h
      · simp only [Option.some.injEq, Prod.mk.injEq] at h
        obtain ⟨-, rfl⟩ := h
        obtain ⟨taken, rfl, hp⟩ := passes_readUnit (p := p) hunit
        exact ⟨'\\' :: 'u' :: taken, rfl, passes_backslash.append ((passes_escaped 'u').append hp)⟩
      · cases h
    · cases h
  · cases h

theorem passes_readCode {s rest : Text} {c : Char} (h : readCode s = some (c, rest)) :
    ∃ taken, s = taken ++ rest ∧ Passes p .inside taken .inside := by
  unfold readCode at h
  split at h
  · rename_i hunit
    obtain ⟨taken, rfl, hp⟩ := passes_readUnit (p := p) hunit
    split at h
    · obtain ⟨second, rfl, hsecond⟩ := passes_readSecond (p := p) h
      exact ⟨taken ++ second, by simp, hp.append hsecond⟩
    · split at h
      · cases h
      · simp only [Option.some.injEq, Prod.mk.injEq] at h
        obtain ⟨-, rfl⟩ := h
        exact ⟨taken, rfl, hp⟩
  · cases h

theorem passes_readEscape {s rest : Text} {c : Char} (h : readEscape s = some (c, rest)) :
    ∃ taken, s = taken ++ rest ∧ Passes p .escaped taken .inside := by
  unfold readEscape at h
  split at h
  case h_9 =>
    obtain ⟨taken, rfl, hp⟩ := passes_readCode (p := p) h
    exact ⟨'u' :: taken, rfl, (passes_escaped 'u').append hp⟩
  case h_10 => cases h
  all_goals
    cases h
    exact ⟨[_], rfl, passes_escaped _⟩

theorem passes_readTail {s t rest : Text} (h : readTail s = some (t, rest)) :
    ∃ taken, s = taken ++ rest ∧ Passes p .inside taken .outside := by
  fun_induction readTail s generalizing t with
  | case1 => cases h
  | case2 s =>
    cases h
    exact ⟨['"'], rfl, .covered rfl rfl (.nil _)⟩
  | case3 s e rest' hescape _ ih =>
    simp only [Option.map_eq_some_iff, Prod.exists, Prod.mk.injEq] at h
    obtain ⟨t', rest'', htail, -, rfl⟩ := h
    obtain ⟨escape, rfl, hp⟩ := passes_readEscape (p := p) hescape
    obtain ⟨taken, rfl, hp'⟩ := ih htail
    exact ⟨'\\' :: (escape ++ taken), by simp, passes_backslash.append (hp.append hp')⟩
  | case4 => cases h
  | case5 => cases h
  | case6 c s hquote hslash _ ih =>
    simp only [Option.map_eq_some_iff, Prod.exists, Prod.mk.injEq] at h
    obtain ⟨t', rest'', htail, -, rfl⟩ := h
    obtain ⟨taken, rfl, hp⟩ := ih htail
    exact ⟨c :: taken, rfl, (passes_inside hslash hquote).append hp⟩

end Json

end MailMerge
