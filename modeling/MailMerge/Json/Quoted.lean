/-
  MailMerge.Json.Quoted — texts in double quotes.

  Written, a quote, a backslash and the characters below U+0020 are escaped, and nothing
  else is. Read, any character may be escaped by its code; a code above U+FFFF is a pair of
  surrogates, and a surrogate outside such a pair is an error, as is a bare character below
  U+0020.

  - `readTail_shorter`: a closing quote is taken off the text.
-/

import MailMerge.Text.Blank

namespace MailMerge.Json

/-! ## Writing -/

/-- The written form of one character between the quotes. -/
def quoteChar (c : Char) : Text :=
  if c = '"' then ['\\', '"']
  else if c = '\\' then ['\\', '\\']
  else if c = '\x08' then ['\\', 'b']
  else if c = '\x0c' then ['\\', 'f']
  else if c = '\n' then ['\\', 'n']
  else if c = '\r' then ['\\', 'r']
  else if c = '\t' then ['\\', 't']
  else if c.toNat < 0x20 then ['\\', 'u', '0', '0', Nat.digitChar (c.toNat / 16), Nat.digitChar (c.toNat % 16)]
  else [c]

def quote (s : Text) : Text := '"' :: s.flatMap quoteChar ++ ['"']

/-! ## Reading -/

def hexValue? (c : Char) : Option Nat :=
  if '0' ≤ c ∧ c ≤ '9' then some (c.toNat - '0'.toNat)
  else if 'a' ≤ c ∧ c ≤ 'f' then some (c.toNat - 'a'.toNat + 10)
  else if 'A' ≤ c ∧ c ≤ 'F' then some (c.toNat - 'A'.toNat + 10)
  else none

/-- Four hexadecimal digits, and what follows them. -/
def readUnit : Text → Option (Nat × Text)
  | a :: b :: c :: d :: rest => do
    let a ← hexValue? a
    let b ← hexValue? b
    let c ← hexValue? c
    let d ← hexValue? d
    return (((a * 16 + b) * 16 + c) * 16 + d, rest)
  | _ => none

/-- The second half of a surrogate pair, of which the first has been read. -/
def readSecond (first : Nat) : Text → Option (Char × Text)
  | '\\' :: 'u' :: rest =>
    match readUnit rest with
    | some (second, rest) =>
      if 0xDC00 ≤ second ∧ second ≤ 0xDFFF then
        some (.ofNat (0x10000 + (first - 0xD800) * 0x400 + (second - 0xDC00)), rest)
      else none
    | none => none
  | _ => none

/-- A character given by its code, of which the mark has been read. -/
def readCode (s : Text) : Option (Char × Text) :=
  match readUnit s with
  | some (code, rest) =>
    if 0xD800 ≤ code ∧ code ≤ 0xDBFF then readSecond code rest
    else if 0xDC00 ≤ code ∧ code ≤ 0xDFFF then none
    else some (.ofNat code, rest)
  | none => none

/-- The character that an escape stands for; its backslash has been read. -/
def readEscape : Text → Option (Char × Text)
  | '"' :: rest => some ('"', rest)
  | '\\' :: rest => some ('\\', rest)
  | '/' :: rest => some ('/', rest)
  | 'b' :: rest => some ('\x08', rest)
  | 'f' :: rest => some ('\x0c', rest)
  | 'n' :: rest => some ('\n', rest)
  | 'r' :: rest => some ('\r', rest)
  | 't' :: rest => some ('\t', rest)
  | 'u' :: rest => readCode rest
  | _ => none

theorem readUnit_shorter {s rest : Text} {n : Nat} (h : readUnit s = some (n, rest)) : rest.length < s.length := by
  unfold readUnit at h
  split at h
  · simp only [Option.bind_eq_bind, Option.bind_eq_some_iff, Option.pure_def, Option.some.injEq, Prod.mk.injEq] at h
    obtain ⟨_, -, _, -, _, -, _, -, -, rfl⟩ := h
    simp; omega
  · cases h

theorem readSecond_shorter {first : Nat} {s rest : Text} {c : Char} (h : readSecond first s = some (c, rest)) :
    rest.length < s.length := by
  unfold readSecond at h
  split at h
  · split at h
    · rename_i hu
      split at h
      · simp only [Option.some.injEq, Prod.mk.injEq] at h
        obtain ⟨-, rfl⟩ := h
        have := readUnit_shorter hu
        simp; omega
      · cases h
    · cases h
  · cases h

theorem readCode_shorter {s rest : Text} {c : Char} (h : readCode s = some (c, rest)) : rest.length < s.length := by
  unfold readCode at h
  split at h
  · rename_i hu
    have := readUnit_shorter hu
    split at h
    · have := readSecond_shorter h; omega
    · split at h
      · cases h
      · simp only [Option.some.injEq, Prod.mk.injEq] at h
        obtain ⟨-, rfl⟩ := h
        exact this
  · cases h

theorem readEscape_shorter {s rest : Text} {c : Char} (h : readEscape s = some (c, rest)) :
    rest.length < s.length := by
  unfold readEscape at h
  split at h
  case h_9 => have := readCode_shorter h; simp; omega
  case h_10 => cases h
  all_goals cases h; simp

/-- The text up to the closing quote, and what follows that; the opening quote has been read. -/
def readTail : Text → Option (Text × Text)
  | [] => none
  | c :: s =>
    if c = '"' then some ([], s)
    else if c = '\\' then
      match _h : readEscape s with
      | some (e, rest) => (readTail rest).map fun (t, rest) => (e :: t, rest)
      | none => none
    else if c.toNat < 0x20 then none
    else (readTail s).map fun (t, rest) => (c :: t, rest)
termination_by s => s.length
decreasing_by
  · have := readEscape_shorter _h; simp; omega
  · simp

theorem readTail_shorter {s t rest : Text} (h : readTail s = some (t, rest)) : rest.length < s.length := by
  fun_induction readTail s generalizing t with
  | case1 => cases h
  | case2 s => cases h; simp
  | case3 s e rest' he hc ih =>
    simp only [Option.map_eq_some_iff, Prod.exists, Prod.mk.injEq] at h
    obtain ⟨t', rest'', h, -, rfl⟩ := h
    have := readEscape_shorter he
    have := ih h
    simp; omega
  | case4 => cases h
  | case5 => cases h
  | case6 c s h₁ h₂ h₃ ih =>
    simp only [Option.map_eq_some_iff, Prod.exists, Prod.mk.injEq] at h
    obtain ⟨t', rest'', h, -, rfl⟩ := h
    have := ih h
    simp; omega

end MailMerge.Json
