import TreeWat.Lower.Statement
set_option autoImplicit false

/-!
# Lower: the runtime library

Every module imports three functions from its host and defines three more in terms
of them: `prints` writes bytes of memory, `printi` writes a number in decimal, and
`printb` writes a truth value as a word.
-/

namespace TreeWat.Lower

open Wat (Code Op Instr Arith)

/-- The generated name of a library function. -/
def builtinName (env : Env) (name : String) : Bytes :=
  env.scopes.builtins.storageName (utf8 name)

/-- The functions the host provides. -/
def libraryImports (env : Env) : List Wat.Import :=
  [⟨utf8 "host", utf8 "exit", builtinName env "halt", 0, false⟩,
    ⟨utf8 "host", utf8 "getchar", builtinName env "getchar", 0, true⟩,
    ⟨utf8 "host", utf8 "putchar", builtinName env "printc", 1, false⟩]

/-- Pushes a local. -/
def getLocal (name : String) : Instr Op := .op (.localGet (utf8 name))

/-- Pops into a local. -/
def setLocal (name : String) : Instr Op := .op (.localSet (utf8 name))

/-- Pushes a number. -/
def number (n : Int) : Instr Op := .op (.number n)

/-- Combines the two numbers on top. -/
def arith (a : Arith) : Instr Op := .op (.arith a)

/-- Writes `length` bytes of memory from `start` on. -/
def printsFunc (env : Env) : Wat.Func Op where
  name := builtinName env "prints"
  params := [utf8 "$start", utf8 "$length"]
  result := false
  locals := [utf8 "$end"]
  body :=
    [getLocal "$start", getLocal "$length", arith .add, setLocal "$end",
      .block (utf8 "$b0") [
        .loop (utf8 "$l0") [
          getLocal "$start", getLocal "$end", arith .ge, .op (.brIf (utf8 "$b0")),
          getLocal "$start", .op .load8, .op (.call (builtinName env "printc")),
          getLocal "$start", number 1, arith .add, setLocal "$start",
          .op (.br (utf8 "$l0"))]]]

/-- While the divisor is at most `limit`, it grows tenfold. -/
def growDivisor (num : Nat) (limit : Code) : Instr Op :=
  let cond := [getLocal "$div"] ++ limit ++ [arith .le]
  whileLoop num cond [getLocal "$div", number 10, arith .mul, setLocal "$div"] cond

/-- While the divisor is above one, writes the next digit and shrinks it tenfold. -/
def writeDigits (env : Env) (num : Nat) (digit : Code) : Instr Op :=
  let cond := [getLocal "$div", number 1, arith .gt]
  whileLoop num cond
    (digit ++ [number 48, arith .add, .op (.call (builtinName env "printc")),
      getLocal "$div", number 10, arith .div, setLocal "$div"])
    cond

/-- The decimal digits of a negative number, behind its sign.  Each quotient is
negated, and not the number, whose negation might not exist. -/
def writeNegative (env : Env) : Code :=
  [number 45, .op (.call (builtinName env "printc")),
    growDivisor 0 [number 0, getLocal "$x", number 10, arith .div, arith .sub],
    number 0, getLocal "$x", getLocal "$div", arith .div, arith .sub, number 48, arith .add,
    .op (.call (builtinName env "printc")),
    writeDigits env 1 [number 0, getLocal "$x", getLocal "$div", arith .rem, arith .sub,
      getLocal "$div", number 10, arith .div, arith .div]]

/-- The decimal digits of a positive number. -/
def writePositive (env : Env) : Code :=
  [growDivisor 2 [getLocal "$x", number 10, arith .div],
    getLocal "$x", getLocal "$div", arith .div, number 48, arith .add,
    .op (.call (builtinName env "printc")),
    writeDigits env 3 [getLocal "$x", getLocal "$div", arith .rem,
      getLocal "$div", number 10, arith .div, arith .div]]

/-- Writes a number in decimal.  The divisor grows to the largest power of ten that
is not above the number's magnitude and then walks down one digit at a time. -/
def printiFunc (env : Env) : Wat.Func Op where
  name := builtinName env "printi"
  params := [utf8 "$x"]
  result := false
  locals := [utf8 "$div"]
  body :=
    [number 1, setLocal "$div",
      getLocal "$x", number 0, arith .eq,
      .cond [number 48, .op (.call (builtinName env "printc"))]
        [getLocal "$x", number 0, arith .lt,
          .cond (writeNegative env) (writePositive env)]]

/-- Writes a truth value; the two words lie in memory as given. -/
def printbFunc (env : Env) (yes no : Nat × Nat) : Wat.Func Op where
  name := builtinName env "printb"
  params := [utf8 "$b"]
  result := false
  locals := []
  body :=
    [getLocal "$b",
      .cond
        [number yes.1, number yes.2, .op (.call (builtinName env "prints"))]
        [number no.1, number no.2, .op (.call (builtinName env "prints"))]]

/-- The library functions of a module.  Their two words are the first literals. -/
def libraryFuncs (env : Env) : Step (List (Wat.Func Op)) := do
  let yes ← intern (utf8 "true")
  let no ← intern (utf8 "false")
  pure [printsFunc env, printiFunc env, printbFunc env yes no]

end TreeWat.Lower
