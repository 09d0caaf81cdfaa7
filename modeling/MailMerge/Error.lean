/-
  MailMerge.Error — what can go wrong, and how it is worded.

  Errors are causes: a block that is not closed, a name that no variable has, data that has
  no value. The wording of each is in `message` and nowhere else. A comparison carries the
  error that one of its operands, or the order of their values, gave rise to.
-/

import MailMerge.Token.Delimiter
import MailMerge.Value.Basic

namespace MailMerge

/-- How many blocks may be open at once. -/
def maxNesting : Nat := 128

/-- The two sorts of blocks. -/
inductive Block
  | cond
  | loop
  deriving DecidableEq, Repr

/-- The keyword that opens the block; `end` before it closes the block. -/
def Block.keyword : Block → Text
  | .cond => "if".toList
  | .loop => "for".toList

/-- What is wrong with a statement, or with the blocks at the end of a template. -/
inductive Fault
  | tooDeep
  | noCondition (keyword : Text)
  | noOpenIf (keyword : Text)
  | textAfterElse (rest : Text)
  | afterElse
  | noOpenBlock (keyword : Text)
  | wrongEnd (expected : Block) (keyword : Text)
  | malformedFor (body : Text)
  | badLoopName (name : Text)
  | unknownStatement (body : Text)
  | missingEnd (block : Block)
  deriving DecidableEq, Repr

/-- Why data has no value. -/
inductive DataFault
  /-- Integers of 128 bits have no value. -/
  | tooWide (signed : Bool)
  /-- Only texts, numbers and truth values are keys. -/
  | badKey (kind : Kind)
  /-- A value was given for a map without a key before it. -/
  | missingKey
  /-- The data itself refuses. -/
  | refused (reason : Text)
  deriving DecidableEq, Repr

inductive Error
  | unmatched (delimiter : Delimiter) (line : Nat)
  | malformed (fault : Fault) (line : Nat)
  | unresolved (expression : Text)
  | comparison (expression : Text) (cause : Error)
  | incomparable (left right : Kind)
  | unknownFunction (name expression : Text)
  | unimplemented (expression : Text)
  | notIterable (expression : Text)
  | badVariables (kind : Kind)
  | badFunctionName (name : Text)
  | unconvertible (fault : DataFault)
  deriving DecidableEq, Repr

private def quoted (s : Text) : String := "'" ++ .ofList s ++ "'"

def Fault.message : Fault → String
  | .tooDeep => "blocks nested deeper than " ++ toString maxNesting ++ " levels"
  | .noCondition keyword => quoted keyword ++ " requires a condition"
  | .noOpenIf keyword => quoted keyword ++ " without an open 'if' block"
  | .textAfterElse rest => "unexpected text after 'else': " ++ quoted rest
  | .afterElse => "'else' or 'elseif' after the final 'else' of an 'if' block"
  | .noOpenBlock keyword => quoted keyword ++ " without an open block"
  | .wrongEnd expected keyword => "expected " ++ quoted ("end".toList ++ expected.keyword) ++ ", found " ++ quoted keyword
  | .malformedFor body => "malformed statement " ++ quoted body ++ ": expected 'for <name> in <expr>'"
  | .badLoopName name => "invalid loop variable " ++ quoted name
  | .unknownStatement body => "unknown statement " ++ quoted body
  | .missingEnd block => "missing " ++ quoted ("end".toList ++ block.keyword)

def DataFault.message : DataFault → String
  | .tooWide true => "i128 is not supported"
  | .tooWide false => "u128 is not supported"
  | .badKey kind => "Map key must be a string, got " ++ kind.name
  | .missingKey => "Missing key for value"
  | .refused reason => .ofList reason

namespace Error

def message : Error → String
  | .unmatched delimiter line => "Unmatched delimiter " ++ quoted delimiter.text ++ " at line " ++ toString line
  | .malformed fault line => "Template syntax error at line " ++ toString line ++ ": " ++ fault.message
  | .unresolved expression => "Cannot resolve expression " ++ quoted expression
  | .comparison expression cause => "Cannot evaluate comparison " ++ quoted expression ++ ": " ++ cause.message
  | .incomparable left right => "Cannot order " ++ left.name ++ " against " ++ right.name
  | .unknownFunction name expression => "Unsupported function " ++ quoted name ++ " in " ++ quoted expression
  | .unimplemented expression => "Don't know how to evaluate expression " ++ quoted expression
  | .notIterable expression => "Expression " ++ quoted expression ++ " is not iterable"
  | .badVariables kind => "Template variables must be a map, got " ++ kind.name
  | .badFunctionName name => "Invalid function name: " ++ .ofList name
  | .unconvertible fault => "Serialization Error: " ++ fault.message

/-- The error is in the template's text: no variables are needed to find it. -/
def isSyntactic : Error → Bool
  | .unmatched .. | .malformed .. => true
  | _ => false

end Error

end MailMerge
