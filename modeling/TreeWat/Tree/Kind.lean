import TreeWat.Text.Bytes
set_option autoImplicit false

/-!
# Tree: node kinds

The kind of a node is the grammar production it comes from, and its name is the
head symbol of the node in the bracket notation.  Operators form two families of
their own, since most rules treat a family at a time.
-/

namespace TreeWat

/-- Operators with two operands, assignment included. -/
inductive BinaryOp where
  | assign
  | eq | ne
  | lt | gt | le | ge
  | add | sub | mul | div | mod
  | and | or
  deriving DecidableEq, Repr, Inhabited

/-- Operators with one operand. -/
inductive UnaryOp where
  | not
  | neg
  deriving DecidableEq, Repr, Inhabited

/-- Node kinds. -/
inductive Kind where
  | globalDeclarations
  | variableDeclaration
  | functionDeclaration
  | entryPointDeclaration
  | formalParameterList
  | formalParameter
  | block
  | nullStatement
  | statementExpression
  | functionInvocation
  | argumentList
  | ifThen
  | ifElse
  | while
  | return
  | break
  | id
  | num
  | string
  | trueLiteral
  | falseLiteral
  | int
  | boolean
  | void
  | binary (op : BinaryOp)
  | unary (op : UnaryOp)
  deriving DecidableEq, Repr, Inhabited

/-- The sign of an operator, which is also its name. -/
def BinaryOp.text : BinaryOp → Bytes
  | .assign => utf8 "="
  | .eq => utf8 "=="
  | .ne => utf8 "!="
  | .lt => utf8 "<"
  | .gt => utf8 ">"
  | .le => utf8 "<="
  | .ge => utf8 ">="
  | .add => utf8 "+"
  | .sub => utf8 "-"
  | .mul => utf8 "*"
  | .div => utf8 "/"
  | .mod => utf8 "%"
  | .and => utf8 "&&"
  | .or => utf8 "||"

namespace Kind

/-- Every kind. -/
def all : List Kind :=
  [globalDeclarations, variableDeclaration, functionDeclaration, entryPointDeclaration,
    formalParameterList, formalParameter, block, nullStatement, statementExpression,
    functionInvocation, argumentList, ifThen, ifElse, .while, .return, .break,
    .id, num, string, trueLiteral, falseLiteral, int, boolean, void,
    binary .assign, binary .eq, binary .ne, binary .lt, binary .gt, binary .le, binary .ge,
    binary .add, binary .sub, binary .mul, binary .div, binary .mod, binary .and, binary .or,
    unary .not, unary .neg]

/-- The name of a kind. -/
def text : Kind → Bytes
  | .globalDeclarations => utf8 "globaldeclarations"
  | .variableDeclaration => utf8 "variabledeclaration"
  | .functionDeclaration => utf8 "functiondeclaration"
  | .entryPointDeclaration => utf8 "entrypointdeclaration"
  | .formalParameterList => utf8 "formalparameterlist"
  | .formalParameter => utf8 "formalparameter"
  | .block => utf8 "block"
  | .nullStatement => utf8 "nullstatement"
  | .statementExpression => utf8 "statementexpression"
  | .functionInvocation => utf8 "functioninvocation"
  | .argumentList => utf8 "argumentlist"
  | .ifThen => utf8 "if"
  | .ifElse => utf8 "ifelse"
  | .while => utf8 "while"
  | .return => utf8 "return"
  | .break => utf8 "break"
  | .id => utf8 "id"
  | .num => utf8 "num"
  | .string => utf8 "string"
  | .trueLiteral => utf8 "true"
  | .falseLiteral => utf8 "false"
  | .int => utf8 "int"
  | .boolean => utf8 "boolean"
  | .void => utf8 "void"
  | .binary op => op.text
  | .unary .not => utf8 "!"
  | .unary .neg => utf8 "neg"

/-- The kind of that name. -/
def ofText? (name : Bytes) : Option Kind :=
  all.find? (·.text = name)

/-- Whether nodes of this kind carry literal text. -/
def hasAttr : Kind → Bool
  | .id => true
  | .num => true
  | .string => true
  | _ => false

/-- Whether the kind is an operator with two operands. -/
def isBinary : Kind → Bool
  | .binary _ => true
  | _ => false

/-- Whether the kind is an operator with one operand. -/
def isUnary : Kind → Bool
  | .unary _ => true
  | _ => false

/-- The operator as the user writes it: negation is written as a minus sign, any
other kind by its name. -/
def symbol : Kind → Bytes
  | .unary .neg => utf8 "-"
  | k => k.text

/-- Whether a childless node of this kind is written without brackets. -/
def isBare : Kind → Bool
  | .int => true
  | .boolean => true
  | .void => true
  | .trueLiteral => true
  | .falseLiteral => true
  | .break => true
  | .nullStatement => true
  | _ => false

end Kind

end TreeWat
