/-
  MailMerge.Proofs.JsonParts — quoted texts and lists of JSON, from the writing to the reading.

  A character between the quotes is read as itself, whichever escape it is written with
  (`readTail_quoteChar`), and so is a quoted text (`readTail_quote`). Texts that a reader takes
  off the front as items (`Reader.Reads`), with commas between them, are read as the list of the
  items (`Reader.list_of_reads`). An item may be a number, which ends where the text does not go
  on with a numeral, so it is read before whatever `Stops`; a comma does, and so does the
  character that `Closes` the list.
-/

import Mathlib.Data.List.Forall2
import MailMerge.Proofs.Integers
import MailMerge.Proofs.JsonMarks

namespace MailMerge.Json

open Number (Numeral)

/-! ## Quoted texts -/

theorem hexValue?_digitChar {n : Nat} (h : n < 16) : hexValue? (Nat.digitChar n) = some n := by
  have hall : ∀ n < 16, hexValue? (Nat.digitChar n) = some n := by decide
  exact hall n h

theorem readCode_control {n : Nat} (h : n < 0x20) (rest : Text) :
    readCode ('0' :: '0' :: Nat.digitChar (n / 16) :: Nat.digitChar (n % 16) :: rest) = some (Char.ofNat n, rest) := by
  have hhigh := hexValue?_digitChar (n := n / 16) (by omega)
  have hlow := hexValue?_digitChar (n := n % 16) (by omega)
  have hzero : hexValue? '0' = some 0 := by decide
  have hunit : readUnit ('0' :: '0' :: Nat.digitChar (n / 16) :: Nat.digitChar (n % 16) :: rest) = some (n, rest) := by
    simp only [readUnit, hzero, hhigh, hlow, Option.bind_eq_bind, Option.bind_some, Option.pure_def]
    rw [show ((0 * 16 + 0) * 16 + n / 16) * 16 + n % 16 = n by omega]
  rw [readCode, hunit]
  simp only
  rw [if_neg (by omega), if_neg (by omega)]

theorem readTail_escaped {s t : Text} {c : Char} (h : readEscape s = some (c, t)) :
    readTail ('\\' :: s) = (readTail t).map fun (t, rest) => (c :: t, rest) := by
  rw [readTail, if_neg (by decide), if_pos rfl]
  split
  · rename_i h'
    cases h.symm.trans h'
    rfl
  · rename_i h'
    cases h.symm.trans h'

theorem readTail_quoteChar (c : Char) (s : Text) :
    readTail (quoteChar c ++ s) = (readTail s).map fun (t, rest) => (c :: t, rest) := by
  unfold quoteChar
  -- The seven characters with an escape of one letter.
  iterate 7
    split
    · subst c
      exact readTail_escaped rfl
  split
  · rename_i hcontrol
    have hcode := readCode_control hcontrol s
    rw [Char.ofNat_toNat] at hcode
    exact readTail_escaped hcode
  · rename_i hquote hslash _ _ _ _ _ hbare
    rw [List.singleton_append, readTail, if_neg hquote, if_neg hslash, if_neg hbare]

theorem readTail_quote (s rest : Text) : readTail (s.flatMap quoteChar ++ '"' :: rest) = some (s, rest) := by
  induction s with
  | nil => rw [List.flatMap_nil, List.nil_append, readTail, if_pos rfl]
  | cons c s ih => rw [List.flatMap_cons, List.append_assoc, readTail_quoteChar, ih, Option.map_some]

/-! ## Lists -/

theorem skipSpaces_cons {c : Char} (s : Text) (hc : isSpace c = false) : skipSpaces (c :: s) = c :: s := by
  rw [skipSpaces, List.dropWhile_cons_of_neg (by rw [hc]; decide)]

theorem skip_cons {c : Char} (s : Text) (hc : isSpace c = false) : skip c (c :: s) = some s := by
  rw [skip, skipSpaces_cons s hc]
  exact if_pos rfl

theorem skip_ne {c d : Char} (s : Text) (hc : isSpace c = false) (hne : c ≠ d) : skip d (c :: s) = none := by
  rw [skip, skipSpaces_cons s hc]
  exact if_neg hne

variable {α : Type} {item : Reader α} {close : Char}

/-- Behind the first item either a comma and more items follow, or the closing character. -/
theorem Reader.entries_of_run {s rest : Text} {a : α} (hrun : item.run s = some (a, rest)) :
    item.entries close s =
      match skip ',' rest with
      | some rest' => (item.entries close rest').map fun (as, rest) => (a :: as, rest)
      | none => (skip close rest).map fun rest => ([a], rest) := by
  rw [entries]
  split
  · rename_i h
    cases hrun.symm.trans h
  · rename_i h
    cases hrun.symm.trans h
    split <;> rename_i hcomma <;> rw [hcomma]

theorem Reader.entries_of_run_eq_none {s : Text} (h : item.run s = none) : item.entries close s = none := by
  rw [entries]
  split
  · rfl
  · rename_i h'
    cases h.symm.trans h'

/-- The text is read as the item, whatever follows it that does not continue a numeral. -/
def Reader.Reads (item : Reader α) (s : Text) (a : α) : Prop :=
  ∀ rest, Numeral.Stops rest → item.run (s ++ rest) = some (a, rest)

/-- The character ends a list: it is neither a space nor a comma, and continues no numeral. -/
structure Closes (close : Char) : Prop where
  stops : Numeral.continues close = false
  space : isSpace close = false
  comma : close ≠ ','

theorem Reader.entries_of_reads (hclose : Closes close) {s : Text} {a : α} {texts : List Text} {as : List α}
    (ha : item.Reads s a) (has : List.Forall₂ item.Reads texts as) (rest : Text) :
    item.entries close ([','].intercalate (s :: texts) ++ close :: rest) = some (a :: as, rest) := by
  induction has generalizing s a with
  | nil =>
    have hrun := ha (close :: rest) (Numeral.stops_cons rest hclose.stops)
    rw [List.intercalate_singleton, entries_of_run hrun, skip_ne rest hclose.space hclose.comma,
      skip_cons rest hclose.space]
    rfl
  | @cons t b texts as hb has ih =>
    have hrun := ha (',' :: ([','].intercalate (t :: texts) ++ close :: rest)) (Numeral.stops_cons _ (by decide))
    have htext : [','].intercalate (s :: t :: texts) ++ close :: rest =
        s ++ ',' :: ([','].intercalate (t :: texts) ++ close :: rest) := by
      rw [List.intercalate_cons_cons, List.append_assoc, List.append_assoc, List.singleton_append]
    rw [htext, entries_of_run hrun, skip_cons _ (by decide)]
    simp only [ih hb, Option.map_some]

/-- Items with commas between them are read as a list, when no item begins with the closing character. -/
theorem Reader.list_of_reads (hclose : Closes close) (hitem : ∀ s, (skip close s).isSome → item.run s = none)
    {texts : List Text} {as : List α} (h : List.Forall₂ item.Reads texts as) (rest : Text) :
    item.list close ([','].intercalate texts ++ close :: rest) = some (as, rest) := by
  cases h with
  | nil => rw [list, List.intercalate_nil, List.nil_append, skip_cons rest hclose.space]
  | @cons s a texts as ha has =>
    have hentries := entries_of_reads hclose ha has rest
    rw [list]
    split
    · rename_i hskip
      rw [entries_of_run_eq_none (hitem _ (Option.isSome_of_eq_some hskip))] at hentries
      cases hentries
    · exact hentries

end MailMerge.Json
