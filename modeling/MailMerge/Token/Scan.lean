/-
  MailMerge.Token.Scan — cutting a template into tokens.

  `cut` takes one lexeme off the front. A tag reaches to the first closing delimiter of its
  own sort; literal text reaches to the next opening delimiter. Neither may have a delimiter
  inside: the leftmost one is unmatched, and so is an opening delimiter that is not closed.
  `scan` cuts until the text ends or a delimiter is unmatched; in that case the tokens before
  it are good ones.

  - `cut_token`: the lexeme and the rest make up the text, and the lexeme is not empty.
-/

import MailMerge.Error
import MailMerge.Token.Basic

namespace MailMerge.Token

/-- One step of cutting: a lexeme and the text after it, or an unmatched delimiter and the text before it. -/
inductive Cut
  | token (lexeme : Lexeme) (rest : Text)
  | unmatched (before : Text) (delimiter : Delimiter)
  deriving DecidableEq, Repr

/-- A tag begins at the front of the text. -/
def opensTag (s : Text) : Bool :=
  match Delimiter.at? s with
  | some .exprOpen | some .stmtOpen => true
  | _ => false

/-- The text before the next tag, and the text from there on. -/
def splitContent : Text → Text × Text
  | [] => ([], [])
  | c :: s => if opensTag (c :: s) then ([], c :: s) else (c :: (splitContent s).1, (splitContent s).2)

/-- Cuts a tag whose opening delimiter has been taken off. -/
def cutTag (opener closer : Delimiter) (lexeme : Text → Lexeme) (s : Text) : Cut :=
  match Delimiter.splitAt? closer s with
  | none => .unmatched [] opener
  | some (inner, rest) =>
    match Delimiter.firstIn? inner with
    | some (before, d) => .unmatched (opener.text ++ before) d
    | none => .token (lexeme inner) rest

/-- Cuts the first lexeme off a text that is not empty. -/
def cut (s : Text) : Cut :=
  match Delimiter.at? s with
  | some .exprOpen => cutTag .exprOpen .exprClose .expression (s.drop 2)
  | some .stmtOpen => cutTag .stmtOpen .stmtClose .statement (s.drop 2)
  | _ =>
    let (text, rest) := splitContent s
    match Delimiter.firstIn? text with
    | some (before, d) => .unmatched before d
    | none => .token (.content text) rest

theorem splitContent_append (s : Text) : (splitContent s).1 ++ (splitContent s).2 = s := by
  induction s with
  | nil => rfl
  | cons c s ih => simp only [splitContent]; split <;> simp [ih]

theorem splitContent_ne_nil {c : Char} {s : Text} (h : opensTag (c :: s) = false) : (splitContent (c :: s)).1 ≠ [] := by
  simp [splitContent, h]

theorem cutTag_token {opener closer : Delimiter} {make : Text → Lexeme} {s rest : Text} {l : Lexeme}
    (h : cutTag opener closer make s = .token l rest) :
    ∃ inner, l = make inner ∧ s = inner ++ closer.text ++ rest ∧ Delimiter.firstIn? inner = none := by
  unfold cutTag at h
  split at h
  · cases h
  · rename_i hs
    split at h
    · cases h
    · rename_i hf
      cases h
      exact ⟨_, rfl, Delimiter.splitAt?_eq_some hs, hf⟩

theorem cut_token {s rest : Text} {l : Lexeme} (hs : s ≠ []) (h : cut s = .token l rest) :
    s = l.raw ++ rest ∧ l.raw ≠ [] := by
  unfold cut at h
  split at h
  · rename_i ho
    obtain ⟨inner, rfl, hi, -⟩ := cutTag_token h
    have := Delimiter.eq_of_at? ho
    rw [hi] at this
    exact ⟨by simpa [Lexeme.raw] using this, by simp [Lexeme.raw, Delimiter.text]⟩
  · rename_i ho
    obtain ⟨inner, rfl, hi, -⟩ := cutTag_token h
    have := Delimiter.eq_of_at? ho
    rw [hi] at this
    exact ⟨by simpa [Lexeme.raw] using this, by simp [Lexeme.raw, Delimiter.text]⟩
  · rename_i hne₁ hne₂
    simp only at h
    split at h
    · cases h
    · cases h
      refine ⟨(splitContent_append s).symm, ?_⟩
      cases s with
      | nil => exact absurd rfl hs
      | cons c s =>
        refine splitContent_ne_nil ?_
        unfold opensTag
        split
        · rename_i h; exact absurd h hne₁
        · rename_i h; exact absurd h hne₂
        · rfl

/-- The tokens of a template, and the error that ended them early, if any. -/
structure Scan where
  tokens : List Token
  failure : Option Error
  deriving DecidableEq, Repr

/-- Cuts the text that begins at the given byte and line. -/
def scanFrom (offset line : Nat) (s : Text) : Scan :=
  if _hs : s = [] then ⟨[], none⟩
  else
    match _h : cut s with
    | .unmatched before d => ⟨[], some (.unmatched d (line + Text.lineBreaks before))⟩
    | .token lexeme rest =>
      let tail := scanFrom (offset + Text.bytes lexeme.raw) (line + Text.lineBreaks lexeme.raw) rest
      ⟨⟨lexeme, offset, line⟩ :: tail.tokens, tail.failure⟩
termination_by s.length
decreasing_by
  obtain ⟨h₁, h₂⟩ := cut_token _hs _h
  have := List.length_pos_iff.mpr h₂
  have := congrArg List.length h₁
  simp only [List.length_append] at this
  omega

def scan (template : Text) : Scan := scanFrom 0 1 template

end Token

/-- All tokens of a template, or the error at its first unmatched delimiter. -/
def Token.readAll (template : Text) : Except Error (List Token) :=
  match Token.scan template with
  | ⟨tokens, none⟩ => .ok tokens
  | ⟨_, some e⟩ => .error e

end MailMerge
