import TreeWat.Text.Bytes
set_option autoImplicit false

/-!
# Wat: modules of the WebAssembly text format

A module is a tree: nesting of blocks, loops and conditionals is expressed by the
tree, and the printer derives the indentation from it.  All values are `i32`.

The tree is generic in what its plain instructions are.  Generated code uses `Op`,
one constructor per instruction; the printer itself only needs their texts.
-/

namespace TreeWat.Wat

/-- The granularity of linear memory, in bytes. -/
def pageSize : Nat := 65536

/-- The number of pages that hold `n` bytes. -/
def pagesFor (n : Nat) : Nat :=
  (n + (pageSize - 1)) / pageSize

/-- The same on machine words: the sum wraps, and division goes toward zero. -/
def pages (n : Int64) : Int64 :=
  (n + 65535) / 65536

/-- An element of a function body, over plain instructions of type `α`. -/
inductive Instr (α : Type) where
  | op (a : α)
  /-- A line comment. -/
  | comment (text : Bytes)
  /-- A labelled block; a branch to its label leaves it. -/
  | block (label : Bytes) (body : List (Instr α))
  /-- A labelled loop; a branch to its label starts it again. -/
  | loop (label : Bytes) (body : List (Instr α))
  /-- Pops a condition and runs one of two arms; the second may be empty. -/
  | cond (whenTrue whenFalse : List (Instr α))
  deriving Repr, Inhabited

/-- A function bound to the host. -/
structure Import where
  module : Bytes
  field : Bytes
  name : Bytes
  params : Nat
  result : Bool
  deriving DecidableEq, Repr, Inhabited

/-- A function definition with named parameters and locals. -/
structure Func (α : Type) where
  name : Bytes
  params : List Bytes
  result : Bool
  locals : List Bytes
  body : List (Instr α)
  deriving Repr, Inhabited

/-- Bytes placed in linear memory; the text is already escaped for the format. -/
structure Data where
  offset : Int
  text : Bytes
  deriving DecidableEq, Repr, Inhabited

/-- A whole module. -/
structure Module (α : Type) where
  imports : List Import
  funcs : List (Func α)
  /-- Names of mutable globals that start at zero. -/
  globals : List Bytes
  /-- The function that runs first. -/
  start : Option Bytes
  /-- Size of linear memory in pages. -/
  memory : Int
  data : List Data
  deriving Repr, Inhabited

/-! ## Plain instructions -/

/-- Instructions that pop two numbers and push one. -/
inductive Arith where
  | eq | ne | lt | gt | le | ge
  | add | sub | mul | div | rem
  deriving DecidableEq, Repr, Inhabited

/-- Plain instructions of generated code. -/
inductive Op where
  /-- Pushes the number written as the given literal. -/
  | const (literal : Bytes)
  | localGet (name : Bytes)
  | localSet (name : Bytes)
  | globalGet (name : Bytes)
  | globalSet (name : Bytes)
  | call (name : Bytes)
  | br (label : Bytes)
  | brIf (label : Bytes)
  | arith (a : Arith)
  | eqz
  /-- Pushes the byte at the address on the stack. -/
  | load8
  | drop
  | ret
  | unreachable
  deriving DecidableEq, Repr, Inhabited

/-- The text of an arithmetic instruction. -/
def Arith.text : Arith → Bytes
  | .eq => utf8 "i32.eq"
  | .ne => utf8 "i32.ne"
  | .lt => utf8 "i32.lt_s"
  | .gt => utf8 "i32.gt_s"
  | .le => utf8 "i32.le_s"
  | .ge => utf8 "i32.ge_s"
  | .add => utf8 "i32.add"
  | .sub => utf8 "i32.sub"
  | .mul => utf8 "i32.mul"
  | .div => utf8 "i32.div_s"
  | .rem => utf8 "i32.rem_s"

/-- The text of an instruction. -/
def Op.text : Op → Bytes
  | .const literal => utf8 "i32.const " ++ literal
  | .localGet name => utf8 "local.get " ++ name
  | .localSet name => utf8 "local.set " ++ name
  | .globalGet name => utf8 "global.get " ++ name
  | .globalSet name => utf8 "global.set " ++ name
  | .call name => utf8 "call " ++ name
  | .br label => utf8 "br " ++ label
  | .brIf label => utf8 "br_if " ++ label
  | .arith a => a.text
  | .eqz => utf8 "i32.eqz"
  | .load8 => utf8 "i32.load8_u"
  | .drop => utf8 "drop"
  | .ret => utf8 "return"
  | .unreachable => utf8 "unreachable"

/-- Pushes a number. -/
def Op.number (n : Int) : Op :=
  .const (Bytes.ofInt n)

/-- A piece of generated code. -/
abbrev Code : Type := List (Instr Op)

end TreeWat.Wat
