/-
  MailMerge.Tree.Draft — a tree under construction, one token after another.

  A draft holds the nodes of the innermost open block and, for each open block, what it will
  become and the nodes before it; all of these latest first. A token adds a node, opens a
  block, goes on to the next branch of the innermost block, or closes that block. So an error
  is found at the token that causes it, and what comes after it does not matter.
-/

import MailMerge.Expr.Read
import MailMerge.Token.Basic
import MailMerge.Tree.Basic
import MailMerge.Tree.Statement

namespace MailMerge

/-- What an open block will become. -/
inductive Opened
  /-- The body of a branch: the branches before it (latest first), and its test. -/
  | branch (done : List Branch) (test : Expr)
  /-- The nodes after `else`: all branches (latest first). -/
  | otherwise (done : List Branch)
  /-- The body of a loop. -/
  | loop (item : Text) (collection : Expr)

/-- The sort of the block. -/
def Opened.block : Opened → Block
  | .branch .. | .otherwise _ => .cond
  | .loop .. => .loop

/-- The node that the block is when its last nodes are `body`. -/
def Opened.node (body : List Node) : Opened → Node
  | .branch done test => .cond (⟨test, body⟩ :: done).reverse []
  | .otherwise done => .cond done.reverse body
  | .loop item collection => .loop item collection body

/-- An open block, and the nodes before it, latest first. -/
structure Level where
  opened : Opened
  before : List Node

structure Draft where
  /-- The nodes of the innermost block, latest first. -/
  nodes : List Node
  /-- The open blocks, innermost first. -/
  levels : List Level

namespace Draft

def empty : Draft := ⟨[], []⟩

def add (d : Draft) (node : Node) : Draft := { d with nodes := node :: d.nodes }

def enter (d : Draft) (opened : Opened) : Draft := ⟨[], ⟨opened, d.nodes⟩ :: d.levels⟩

/-- Opens a block, unless too many are open. -/
def open? (d : Draft) (opened : Except Fault Opened) : Except Fault Draft :=
  if maxNesting ≤ d.levels.length then .error .tooDeep else opened.map d.enter

/-- The condition of an `if` or `elseif`. -/
def condition (keyword condition : Text) : Except Fault Expr :=
  if condition.isEmpty then .error (.noCondition keyword) else .ok (.read condition)

/-- An `else` with what follows it: the innermost block goes on to its last nodes. -/
def otherwise (d : Draft) (rest : Text) : Except Fault Draft :=
  match d.levels with
  | ⟨.branch done test, before⟩ :: levels =>
    if rest.isEmpty then .ok ⟨[], ⟨.otherwise (⟨test, d.nodes.reverse⟩ :: done), before⟩ :: levels⟩
    else .error (.textAfterElse rest)
  | ⟨.otherwise _, _⟩ :: _ => .error (if rest.isEmpty then .afterElse else .textAfterElse rest)
  | _ => .error (.noOpenIf "else".toList)

/-- An `elseif` with its condition: the innermost block goes on to its next branch. -/
def otherwiseIf (d : Draft) (text : Text) : Except Fault Draft :=
  match d.levels with
  | ⟨.branch done test, before⟩ :: levels =>
    (condition "elseif".toList text).map fun next => ⟨[], ⟨.branch (⟨test, d.nodes.reverse⟩ :: done) next, before⟩ :: levels⟩
  | ⟨.otherwise _, _⟩ :: _ => (condition "elseif".toList text).bind fun _ => .error .afterElse
  | _ => .error (.noOpenIf "elseif".toList)

/-- A keyword that begins with `end`: the innermost block is closed. -/
def close (d : Draft) (keyword : Text) : Except Fault Draft :=
  match d.levels with
  | [] => .error (.noOpenBlock keyword)
  | ⟨opened, before⟩ :: levels =>
    if keyword = "end".toList ++ opened.block.keyword then .ok ⟨opened.node d.nodes.reverse :: before, levels⟩
    else .error (.wrongEnd opened.block keyword)

/-- A statement with its body. -/
def statement (d : Draft) (body : Text) : Except Fault Draft :=
  match Statement.read body with
  | .opensCond text => d.open? ((condition "if".toList text).map (.branch []))
  | .opensLoop header =>
    d.open? ((Statement.loopHeader body header).map fun (item, collection) => .loop item (.read collection))
  | .otherwise rest => d.otherwise rest
  | .otherwiseIf text => d.otherwiseIf text
  | .closes keyword => d.close keyword
  | .unknown => .error (.unknownStatement body)

/-- The draft after one more token. -/
def token (d : Draft) (t : Token) : Except Error Draft :=
  match t.lexeme with
  | .content text => .ok (d.add (.text text))
  | .expression _ => .ok (d.add (.expr (.read t.lexeme.body)))
  | .statement _ => (d.statement t.lexeme.body).mapError (.malformed · t.line)

/-- The draft after more tokens. -/
def tokens (d : Draft) : List Token → Except Error Draft
  | [] => .ok d
  | t :: ts =>
    match d.token t with
    | .ok d => d.tokens ts
    | .error e => .error e

/-- The tree, when no block is open at the end of the template, on the given line. -/
def finish (d : Draft) (line : Nat) : Except Error (List Node) :=
  match d.levels with
  | [] => .ok d.nodes.reverse
  | level :: _ => .error (.malformed (.missingEnd level.opened.block) line)

end Draft

end MailMerge
