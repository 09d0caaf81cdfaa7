/-
  MailMerge.Expr.Quotes — where a text is inside double quotes.

  A quote opens a quotation and the next quote that no backslash escapes closes it. The
  quotes themselves belong to the quotation.
-/

import MailMerge.Text.Blank

namespace MailMerge

/-- Where a reader stands with respect to quotations. -/
inductive Quotes
  | outside
  | inside
  | escaped
  deriving DecidableEq, Repr

namespace Quotes

/-- The character belongs to a quotation. -/
def covers : Quotes → Char → Bool
  | .outside, c => c == '"'
  | _, _ => true

/-- Where the reader stands after the character. -/
def next : Quotes → Char → Quotes
  | .outside, c => if c = '"' then .inside else .outside
  | .inside, c => if c = '\\' then .escaped else if c = '"' then .outside else .inside
  | .escaped, _ => .inside

end Quotes

end MailMerge
