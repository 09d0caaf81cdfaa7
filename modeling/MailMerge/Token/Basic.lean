/-
  MailMerge.Token.Basic — the pieces a template is cut into.

  A lexeme is literal text or a tag, and a tag is known by what stands between its
  delimiters; `raw` is the lexeme as it stands in the template. A token is a lexeme with the
  place where it begins.
-/

import MailMerge.Text.Extent
import MailMerge.Token.Delimiter

namespace MailMerge

inductive Lexeme
  /-- Literal text, copied to the output untouched. -/
  | content (text : Text)
  /-- Two braces on each side. -/
  | expression (inner : Text)
  /-- A brace and a percent sign on each side. -/
  | statement (inner : Text)
  deriving DecidableEq, Repr

/-- The lexeme as it stands in the template. -/
def Lexeme.raw : Lexeme → Text
  | .content text => text
  | .expression inner => Delimiter.exprOpen.text ++ inner ++ Delimiter.exprClose.text
  | .statement inner => Delimiter.stmtOpen.text ++ inner ++ Delimiter.stmtClose.text

/-- What the lexeme says: a tag's text without delimiters and surrounding blanks, and literal text as it is. -/
def Lexeme.body : Lexeme → Text
  | .content text => text
  | .expression inner => Text.trim inner
  | .statement inner => Text.trim inner

/-- A lexeme, the byte at which it begins, and the line of that byte, counted from 1. -/
structure Token where
  lexeme : Lexeme
  offset : Nat
  line : Nat
  deriving DecidableEq, Repr

end MailMerge
