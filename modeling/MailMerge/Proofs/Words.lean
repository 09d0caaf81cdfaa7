/-
  MailMerge.Proofs.Words — trimming, first words and names.

  A text is trimmed when it neither begins nor ends with a blank. Trimming gives the one
  trimmed text that differs from the given one by blanks at the ends (`trim_of_padded`,
  `trimmed_trim`, `trim_split`), and so trimming a second time changes nothing. The first word
  is the one cut before a blank or the end (`word_append`, `afterWord_append`). No character of
  a name is a blank (`isBlank_of_isNameChar`), so a name is a first word of its own.
-/

import Mathlib.Data.List.TakeWhile
import MailMerge.Text.Name

namespace MailMerge.Text

/-- The text neither begins nor ends with a blank. -/
structure Trimmed (s : Text) : Prop where
  start : ∀ c ∈ s.head?, isBlank c = false
  stop : ∀ c ∈ s.getLast?, isBlank c = false

/-- A text of blanks only. -/
def Blanks (s : Text) : Prop := ∀ c ∈ s, isBlank c = true

/-! ## Trimming -/

theorem head?_dropWhile {p : Char → Bool} {s : Text} {c : Char} (h : c ∈ (s.dropWhile p).head?) : p c = false := by
  have := List.head?_dropWhile_not p s
  rw [Option.mem_def.mp h] at this
  simpa using this

theorem dropWhile_self {p : Char → Bool} {s : Text} (h : ∀ c ∈ s.head?, p c = false) : s.dropWhile p = s := by
  cases s with
  | nil => rfl
  | cons c s => simp [h c rfl]

/-- Characters with `p` before one without it are what is taken off the front. -/
theorem takeWhile_exact {p : Char → Bool} {s t : Text} (hs : ∀ c ∈ s, p c = true) (ht : ∀ c ∈ t.head?, p c = false) :
    (s ++ t).takeWhile p = s := by
  rw [List.takeWhile_append_of_pos hs]
  cases t with
  | nil => simp
  | cons c t => simp [ht c rfl]

theorem dropWhile_exact {p : Char → Bool} {s t : Text} (hs : ∀ c ∈ s, p c = true) (ht : ∀ c ∈ t.head?, p c = false) :
    (s ++ t).dropWhile p = t := by
  rw [List.dropWhile_append_of_pos hs]
  exact dropWhile_self ht

theorem trimStart_append {a : Text} (s : Text) (h : Blanks a) : trimStart (a ++ s) = trimStart s :=
  List.dropWhile_append_of_pos h

theorem trimEnd_append {b : Text} (s : Text) (h : Blanks b) : trimEnd (s ++ b) = trimEnd s := by
  have hb : ∀ c ∈ b.reverse, isBlank c = true := fun c hc => h c (List.mem_reverse.mp hc)
  simp only [trimEnd, List.reverse_append, List.dropWhile_append_of_pos hb]

theorem trimStart_self {s : Text} (h : ∀ c ∈ s.head?, isBlank c = false) : trimStart s = s := dropWhile_self h

theorem trimEnd_self {s : Text} (h : ∀ c ∈ s.getLast?, isBlank c = false) : trimEnd s = s := by
  rw [trimEnd, dropWhile_self (by simpa using h), List.reverse_reverse]

theorem trim_of_trimmed {s : Text} (h : Trimmed s) : trim s = s := by
  rw [trim, trimStart_self h.start, trimEnd_self h.stop]

/-- The trimmed text between blanks is what trimming leaves. -/
theorem trim_of_padded {a s b : Text} (ha : Blanks a) (hs : Trimmed s) (hb : Blanks b) : trim (a ++ (s ++ b)) = s := by
  rw [trim, trimStart_append _ ha]
  rcases s with _ | ⟨c, s⟩
  · have : trimStart b = trimStart [] := by
      simpa using trimStart_append [] hb
    rw [List.nil_append, this]
    rfl
  · rw [trimStart_self (fun d hd => hs.start d (by simpa using hd)), trimEnd_append _ hb, trimEnd_self hs.stop]

/-- Blanks before a trimmed text. -/
theorem trim_blanks_append {a s : Text} (ha : Blanks a) (hs : Trimmed s) : trim (a ++ s) = s := by
  have hnil : Blanks [] := fun c hc => absurd hc List.not_mem_nil
  have := trim_of_padded ha hs hnil
  rwa [List.append_nil] at this

theorem trimStart_split (s : Text) : ∃ a, Blanks a ∧ s = a ++ trimStart s := by
  refine ⟨s.takeWhile isBlank, fun c hc => ?_, List.takeWhile_append_dropWhile.symm⟩
  exact List.all_eq_true.mp List.all_takeWhile c hc

theorem trimEnd_split (s : Text) : ∃ b, Blanks b ∧ s = trimEnd s ++ b := by
  obtain ⟨b, hb, h⟩ := trimStart_split s.reverse
  refine ⟨b.reverse, fun c hc => hb c (List.mem_reverse.mp hc), ?_⟩
  have := congrArg List.reverse h
  rwa [List.reverse_reverse, List.reverse_append] at this

/-- What trimming takes away is blanks at the two ends. -/
theorem trim_split (s : Text) : ∃ a b, Blanks a ∧ Blanks b ∧ s = a ++ (trim s ++ b) := by
  obtain ⟨a, ha, hs⟩ := trimStart_split s
  obtain ⟨b, hb, ht⟩ := trimEnd_split (trimStart s)
  exact ⟨a, b, ha, hb, hs.trans (congrArg (a ++ ·) ht)⟩

theorem trim_isInfix (s : Text) : trim s <:+: s := by
  obtain ⟨a, b, -, -, h⟩ := trim_split s
  exact ⟨a, b, by rw [List.append_assoc]; exact h.symm⟩

theorem trimmed_trim (s : Text) : Trimmed (trim s) := by
  have stop : ∀ c ∈ (trim s).getLast?, isBlank c = false := by
    intro c hc
    rw [trim, trimEnd, List.getLast?_reverse] at hc
    exact head?_dropWhile hc
  refine ⟨fun c hc => ?_, stop⟩
  -- A first character that trimming at the end has left is the first one before it.
  obtain ⟨b, -, h⟩ := trimEnd_split (trimStart s)
  have hc' : c ∈ (trimStart s).head? := by
    rw [h, List.head?_append]
    exact Option.or_eq_some_iff.mpr (Or.inl hc)
  exact head?_dropWhile hc'

theorem trim_trim (s : Text) : trim (trim s) = trim s := trim_of_trimmed (trimmed_trim s)

theorem trimmed_iff {s : Text} : Trimmed s ↔ trim s = s := ⟨trim_of_trimmed, fun h => h ▸ trimmed_trim s⟩

instance (s : Text) : Decidable (Trimmed s) := decidable_of_iff _ trimmed_iff.symm

/-- Two texts, of which the first begins and the second ends as trimmed texts do. -/
theorem trimmed_append {a b : Text} (ha : a ≠ []) (hb : b ≠ []) (hstart : ∀ c ∈ a.head?, isBlank c = false)
    (hstop : ∀ c ∈ b.getLast?, isBlank c = false) : Trimmed (a ++ b) := by
  refine ⟨fun c hc => ?_, fun c hc => ?_⟩
  · rw [List.head?_append, List.head?_eq_some_head ha] at hc
    exact hstart c (by rwa [List.head?_eq_some_head ha])
  · rw [List.getLast?_append, List.getLast?_eq_some_getLast hb] at hc
    exact hstop c (by rwa [List.getLast?_eq_some_getLast hb])

theorem trimmed_enclosed {a b : Char} (s : Text) (ha : isBlank a = false) (hb : isBlank b = false) :
    Trimmed (a :: (s ++ [b])) := by
  refine ⟨fun c hc => ?_, fun c hc => ?_⟩
  · cases hc
    exact ha
  · rw [← List.cons_append, List.getLast?_concat] at hc
    cases hc
    exact hb

/-- A trimmed text has no blanks at its end. -/
theorem eq_nil_of_blanks {s b : Text} (ht : Trimmed (s ++ b)) (hb : Blanks b) : b = [] := by
  cases h : b.getLast? with
  | none => exact List.getLast?_eq_none_iff.mp h
  | some c =>
    have hstop := ht.stop c (by rw [List.getLast?_append, h]; rfl)
    rw [hb c (List.mem_of_getLast? h)] at hstop
    cases hstop

/-- Blanks around a text make no difference to what trimming leaves. -/
theorem trim_padded {a b : Text} (s : Text) (ha : Blanks a) (hb : Blanks b) : trim (a ++ (s ++ b)) = trim s := by
  obtain ⟨a', b', ha', hb', hs⟩ := trim_split s
  have hpadded : a ++ (s ++ b) = (a ++ a') ++ (trim s ++ (b' ++ b)) :=
    calc a ++ (s ++ b) = a ++ ((a' ++ (trim s ++ b')) ++ b) := congrArg (fun t => a ++ (t ++ b)) hs
      _ = (a ++ a') ++ (trim s ++ (b' ++ b)) := by simp only [List.append_assoc]
  rw [hpadded]
  exact trim_of_padded (List.forall_mem_append.mpr ⟨ha, ha'⟩) (trimmed_trim s) (List.forall_mem_append.mpr ⟨hb', hb⟩)

/-- A trimmed text at the front stays as it is. -/
theorem exists_trim_append {k : Text} (hk : Trimmed k) (hne : k ≠ []) (s : Text) :
    ∃ t, trim (k ++ s) = k ++ t ∧ trim t = trim s := by
  have hnil : Blanks [] := fun c hc => absurd hc List.not_mem_nil
  obtain ⟨b, hb, hs⟩ := trimEnd_split s
  have ht : trim (trimEnd s) = trim s := by
    have hpadded := trim_padded (trimEnd s) hnil hb
    rw [List.nil_append, ← hs] at hpadded
    exact hpadded.symm
  refine ⟨trimEnd s, ?_, ht⟩
  have htrimmed : Trimmed (k ++ trimEnd s) := by
    rcases List.eq_nil_or_concat (trimEnd s) with h | ⟨t, c, h⟩
    · rwa [h, List.append_nil]
    · refine trimmed_append hne (by rw [h]; simp) hk.start fun d hd => ?_
      rw [trimEnd, List.getLast?_reverse] at hd
      exact head?_dropWhile hd
  have hpadded := trim_of_padded hnil htrimmed hb
  rwa [List.nil_append, List.append_assoc, ← hs] at hpadded

theorem blanks_nil : Blanks [] := fun _ hc => nomatch hc

theorem blanks_space : Blanks [' '] := by
  intro c hc
  rw [List.mem_singleton.mp hc]
  decide

/-- A word and a trimmed text with a space between. -/
theorem trimmed_word_append {k s : Text} (hk : k ≠ []) (hword : ∀ c ∈ k, isBlank c = false) (hs : s ≠ [])
    (ht : Trimmed s) : Trimmed (k ++ ' ' :: s) := by
  refine trimmed_append hk (List.cons_ne_nil _ _) (fun c hc => hword c (List.mem_of_head? hc)) (fun c hc => ?_)
  rw [List.getLast?_cons_of_ne_nil hs] at hc
  exact ht.stop c hc

theorem trimmed_word {k : Text} (hword : ∀ c ∈ k, isBlank c = false) : Trimmed k :=
  ⟨fun c hc => hword c (List.mem_of_head? hc), fun c hc => hword c (List.mem_of_getLast? hc)⟩

/-! ## Words -/

theorem isBlank_of_mem_word {s : Text} {c : Char} (h : c ∈ word s) : isBlank c = false := by
  simpa using List.all_eq_true.mp (List.all_takeWhile (l := s) (p := fun c => !isBlank c)) c h

theorem isBlank_of_head?_afterWord {s : Text} {c : Char} (h : c ∈ (afterWord s).head?) : isBlank c = true := by
  simpa using head?_dropWhile h

section
variable {k t : Text} (hk : ∀ c ∈ k, isBlank c = false) (ht : ∀ c ∈ t.head?, isBlank c = true)
include hk ht

theorem word_append : word (k ++ t) = k :=
  takeWhile_exact (fun c hc => by simp [hk c hc]) (fun c hc => by simp [ht c hc])

theorem afterWord_append : afterWord (k ++ t) = t :=
  dropWhile_exact (fun c hc => by simp [hk c hc]) (fun c hc => by simp [ht c hc])

end

/-! ## Names -/

/-- The blanks, as closed ranges of code points. -/
def blankRanges : List (Nat × Nat) :=
  [(0x9, 0xD), (0x20, 0x20), (0x85, 0x85), (0xA0, 0xA0), (0x1680, 0x1680), (0x2000, 0x200A), (0x2028, 0x2029),
   (0x202F, 0x202F), (0x205F, 0x205F), (0x3000, 0x3000)]

/-- No range of the one table meets a range of the other. -/
def tablesApart (table other : List (Nat × Nat)) : Bool :=
  table.all fun r => other.all fun b => Nat.blt r.2 b.1 || Nat.blt b.2 r.1

theorem inRanges_of_tablesApart {table other : List (Nat × Nat)} {n : Nat} (h : tablesApart table other = true)
    (hn : inRanges other n = true) : inRanges table n = false := by
  rw [Bool.eq_false_iff]
  intro ht
  obtain ⟨r, hr, hrn⟩ := List.any_eq_true.mp ht
  obtain ⟨b, hb, hbn⟩ := List.any_eq_true.mp hn
  have := List.all_eq_true.mp (List.all_eq_true.mp h r hr) b hb
  simp only [Bool.or_eq_true, Nat.blt_eq, Bool.and_eq_true, decide_eq_true_eq] at this hrn hbn
  omega

theorem letterRanges_apart : tablesApart letterRanges blankRanges = true := by decide +kernel

theorem numeralRanges_apart : tablesApart numeralRanges blankRanges = true := by decide +kernel

theorem inRanges_of_isBlank {c : Char} (h : isBlank c = true) : inRanges blankRanges c.toNat = true := by
  simp only [isBlank, Bool.or_eq_true, Bool.and_eq_true, decide_eq_true_eq, beq_iff_eq] at h
  simp only [inRanges, blankRanges, List.any_cons, List.any_nil, Bool.or_eq_true, Bool.and_eq_true, decide_eq_true_eq,
    Bool.false_eq_true, or_false]
  omega

theorem le_toNat_of_isAlpha {c : Char} (h : c.isAlpha = true) : 0x41 ≤ c.toNat := by
  have hranges : (decide ('A'.val ≤ c.val ∧ c.val ≤ 'Z'.val) ||
      decide ('a'.val ≤ c.val) && decide (c.val ≤ 'z'.val)) = true := h
  simp only [Bool.or_eq_true, Bool.and_eq_true, decide_eq_true_eq, UInt32.le_iff_toNat_le] at hranges
  rcases hranges with ⟨h, -⟩ | ⟨h, -⟩
  · exact h
  · exact Nat.le_trans (by decide) h

theorem le_toNat_of_isDigit {c : Char} (h : c.isDigit = true) : 0x30 ≤ c.toNat := by
  have hrange : (decide ('0'.val ≤ c.val) && decide (c.val ≤ '9'.val)) = true := h
  rw [Bool.and_eq_true, decide_eq_true_eq, UInt32.le_iff_toNat_le] at hrange
  exact hrange.1

/-- Below U+0080 the characters of names come after the blanks. -/
theorem le_toNat_of_ascii {c : Char} (ha : c.toNat < 0x80) (h : isNameChar c = true) : 0x30 ≤ c.toNat := by
  simp only [isNameChar, isLetter_of_ascii ha, isNumeral_of_ascii ha, Bool.or_eq_true, beq_iff_eq] at h
  rcases h with (h | h) | rfl
  · exact Nat.le_trans (by decide) (le_toNat_of_isAlpha h)
  · exact le_toNat_of_isDigit h
  · decide

/-- A character of a name is not a blank. -/
theorem isBlank_of_isNameChar {c : Char} (h : isNameChar c = true) : isBlank c = false := by
  rw [Bool.eq_false_iff]
  intro hb
  have hr := inRanges_of_isBlank hb
  by_cases ha : c.toNat < 0x80
  · have := le_toNat_of_ascii ha h
    simp only [inRanges, blankRanges, List.any_cons, List.any_nil, Bool.or_eq_true, Bool.and_eq_true,
      decide_eq_true_eq, Bool.false_eq_true, or_false] at hr
    omega
  · simp only [isNameChar, Bool.or_eq_true, beq_iff_eq] at h
    rcases h with (h | h) | rfl
    · rw [isLetter, if_neg ha, inRanges_of_tablesApart letterRanges_apart hr] at h
      cases h
    · rw [isNumeral, if_neg ha, inRanges_of_tablesApart numeralRanges_apart hr] at h
      cases h
    · exact ha (by decide)

theorem isNameChar_of_isNameStart {c : Char} (h : isNameStart c = true) : isNameChar c = true := by
  simp only [isNameStart, isNameChar, Bool.or_eq_true] at h ⊢
  rcases h with h | h
  · exact Or.inl (Or.inl h)
  · exact Or.inr h

theorem isName_cons {c : Char} {s : Text} :
    isName (c :: s) = true ↔ isNameStart c = true ∧ ∀ d ∈ s, isNameChar d = true := by
  by_cases hc : isNameStart c = true
  · simp [isName, splitName, hc, List.dropWhile_eq_nil_iff]
  · simp [isName, splitName, hc]

theorem name_ne_nil {s : Text} (h : isName s = true) : s ≠ [] := by
  intro heq
  subst heq
  cases h

theorem isNameChar_of_mem_name {s : Text} (h : isName s = true) : ∀ c ∈ s, isNameChar c = true := by
  cases s with
  | nil => cases h
  | cons c s =>
    obtain ⟨hc, hs⟩ := isName_cons.mp h
    intro d hd
    rcases List.mem_cons.mp hd with rfl | hd
    · exact isNameChar_of_isNameStart hc
    · exact hs d hd

theorem isBlank_of_mem_name {s : Text} (h : isName s = true) : ∀ c ∈ s, isBlank c = false :=
  fun c hc => isBlank_of_isNameChar (isNameChar_of_mem_name h c hc)

theorem trimmed_of_isName {s : Text} (h : isName s = true) : Trimmed s := trimmed_word (isBlank_of_mem_name h)

end MailMerge.Text
