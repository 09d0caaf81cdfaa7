/-
  MailMerge.Tree.Statement — what the body of a statement tag says.

  The first word of the body is its keyword, and what follows it is trimmed. A word that
  begins with `end`, with nothing after it, closes a block whatever the rest of the word is.
-/

import MailMerge.Error
import MailMerge.Text.Name

namespace MailMerge

inductive Statement
  /-- An `if` with its condition, which may be missing. -/
  | opensCond (condition : Text)
  /-- A `for` with what follows it. -/
  | opensLoop (header : Text)
  /-- An `else` with what follows it, which should be nothing. -/
  | otherwise (rest : Text)
  /-- An `elseif` with its condition, which may be missing. -/
  | otherwiseIf (condition : Text)
  /-- A word that begins with `end`. -/
  | closes (keyword : Text)
  | unknown
  deriving DecidableEq, Repr

namespace Statement

def read (body : Text) : Statement :=
  let keyword := Text.word body
  let rest := Text.trim (Text.afterWord body)
  if keyword = "if".toList then .opensCond rest
  else if keyword = "for".toList then .opensLoop rest
  else if keyword = "else".toList then .otherwise rest
  else if keyword = "elseif".toList then .otherwiseIf rest
  else if "end".toList.isPrefixOf keyword && rest.isEmpty then .closes keyword
  else .unknown

/-- The text after a word `in` that stands first after blanks. -/
def afterIn? (s : Text) : Option Text :=
  match Text.trimStart s with
  | 'i' :: 'n' :: c :: rest => if Text.isBlank c then some (Text.trim rest) else none
  | _ => none

/-- The loop variable and the collection's text, from what follows `for` in the statement `body`. -/
def loopHeader (body header : Text) : Except Fault (Text × Text) :=
  let item := Text.word header
  match afterIn? (Text.afterWord header) with
  | none | some [] => .error (.malformedFor body)
  | some collection => if Text.isName item then .ok (item, collection) else .error (.badLoopName item)

end Statement

end MailMerge
