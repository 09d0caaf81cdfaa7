/-
  MailMerge.Tree.Read — reading a template.

  Tokens are taken in order, and the first fault wins: a statement that does not fit what is
  open, before an unmatched delimiter that comes after it, before blocks left open at the end.
-/

import MailMerge.Token.Scan
import MailMerge.Tree.Draft

namespace MailMerge.Tree

/-- The tree of a template. -/
def read (template : Text) : Except Error (List Node) :=
  let scan := Token.scan template
  match Draft.empty.tokens scan.tokens, scan.failure with
  | .error e, _ => .error e
  | .ok _, some e => .error e
  | .ok draft, none => draft.finish (1 + Text.lineBreaks template)

/-- The template can be read: its tags and blocks are in order. -/
def check (template : Text) : Except Error Unit := (read template).map fun _ => ()

end MailMerge.Tree
