import TreeWat.Diagnostic
set_option autoImplicit false

/-!
# Scope: one lexical region

A scope binds variables, and the two program-wide variants bind functions and the
entry point besides.  Bindings are kept in the order in which they were made; a
name is bound at most once, so the order determines everything a scope answers.

Every scope has a tag.  The name under which the generated module stores a symbol
is built from the tag and the symbol, so equal names in different scopes stay
apart.
-/

namespace TreeWat

/-- The kinds of lexical region. -/
inductive Variant where
  /-- The functions of the runtime library. -/
  | default
  /-- The user's functions and global variables. -/
  | global
  /-- Parameters and top-level variables of a function. -/
  | function
  /-- A nested block, or an arm of a conditional. -/
  | block
  /-- The body of a loop. -/
  | loop
  deriving DecidableEq, Repr, Inhabited

/-- The name of a variant. -/
def Variant.text : Variant → Bytes
  | .default => utf8 "default"
  | .global => utf8 "global"
  | .function => utf8 "function"
  | .block => utf8 "block"
  | .loop => utf8 "loop"

/-- The variants in the order of their numbers, which start at zero. -/
def Variant.all : List Variant :=
  [.default, .global, .function, .block, .loop]

/-- The variant of that name. -/
def Variant.ofText? (name : Bytes) : Option Variant :=
  Variant.all.find? (·.text = name)

/-- The variant with a given number. -/
def Variant.ofNumber? (n : Int) : Option Variant :=
  if n < 0 then none else Variant.all[n.toNat]?

/-- The name of the variant with a given number; other numbers show themselves. -/
def Variant.numberText (n : Int) : Bytes :=
  match Variant.ofNumber? n with
  | some v => v.text
  | none => utf8 "Variant(" ++ Bytes.ofInt n ++ utf8 ")"

/-- One lexical region. -/
structure Scope where
  variant : Variant
  tag : Bytes
  /-- Where the region begins. -/
  start : Location
  /-- Variables with their types, in order of declaration. -/
  vars : List (Bytes × Ty)
  /-- The declared result type; of use in function scopes only. -/
  result : Ty
  /-- Functions with their signatures, in order of declaration. -/
  funcs : List (Bytes × Signature)
  /-- The name of the entry point; empty as long as there is none. -/
  entryPoint : Bytes
  deriving DecidableEq, Repr, Inhabited

namespace Scope

/-! ## Constructors -/

/-- A scope without bindings. -/
def empty (variant : Variant) (tag : Bytes) (start : Location) : Scope :=
  ⟨variant, tag, start, [], .invalid, [], []⟩

/-- The program-wide scope of the user's declarations. -/
def globals : Scope :=
  empty .global (utf8 "G") .nowhere

/-- The outermost scope of a function body. -/
def function (tag : Bytes) (start : Location) (result : Ty) : Scope :=
  { empty .function tag start with result := result }

/-- The functions of the runtime library, by name. -/
def builtinFunctions : List (Bytes × Signature) :=
  [(utf8 "getchar", ⟨[], .int⟩),
    (utf8 "halt", ⟨[], .void⟩),
    (utf8 "printb", ⟨[.boolean], .void⟩),
    (utf8 "printc", ⟨[.int], .void⟩),
    (utf8 "printi", ⟨[.int], .void⟩),
    (utf8 "prints", ⟨[.string], .void⟩)]

/-- The scope of the runtime library. -/
def builtins : Scope :=
  { empty .default (utf8 "D") .nowhere with funcs := builtinFunctions }

/-! ## Questions -/

/-- Whether variables of this scope are globals of the module. -/
def isGlobalStorage (s : Scope) : Bool :=
  s.variant = .default || s.variant = .global

/-- The generated name of a symbol declared here. -/
def storageName (s : Scope) (name : Bytes) : Bytes :=
  utf8 "$" ++ s.tag ++ name

/-- The type of a variable bound in this scope. -/
def var? (s : Scope) (name : Bytes) : Option Ty :=
  s.vars.lookup name

/-- The signature of a function bound in this scope. -/
def func? (s : Scope) (name : Bytes) : Option Signature :=
  s.funcs.lookup name

/-- The names of the variables, in order of declaration. -/
def varNames (s : Scope) : List Bytes :=
  s.vars.map Prod.fst

/-- The names of the functions, in order of declaration. -/
def funcNames (s : Scope) : List Bytes :=
  s.funcs.map Prod.fst

/-- Whether a name is taken, by a variable, a function or the entry point. -/
def binds (s : Scope) (name : Bytes) : Bool :=
  (s.var? name).isSome || (s.func? name).isSome
    || (!s.entryPoint.isEmpty && s.entryPoint == name)

/-! ## Declarations -/

/-- Binds a variable. -/
def declare (s : Scope) (name : Bytes) (ty : Ty) (loc : Location) :
    Except Diagnostic Scope :=
  if s.binds name then .error (.duplicateVariable name loc)
  else .ok { s with vars := s.vars ++ [(name, ty)] }

/-- Binds a function. -/
def declareFunc (s : Scope) (name : Bytes) (sig : Signature) (loc : Location) :
    Except Diagnostic Scope :=
  if s.binds name then .error (.duplicateFunction name loc)
  else .ok { s with funcs := s.funcs ++ [(name, sig)] }

/-- Records the entry point. -/
def setEntryPoint (s : Scope) (name : Bytes) (loc : Location) : Except Diagnostic Scope :=
  if !s.entryPoint.isEmpty then .error (.duplicateMain name loc)
  else .ok { s with entryPoint := name }

/-! ## Listing -/

/-- The contents of a scope: heading, entry point, functions, variables. -/
def text (s : Scope) : Bytes :=
  s.variant.text ++ utf8 " scope " ++ s.tag
    ++ (if s.start.isKnown then utf8 " (starts at " ++ s.start.text ++ utf8 ")" else [])
    ++ utf8 "\n"
    ++ (if s.entryPoint.isEmpty then []
      else utf8 "main func:\t" ++ s.entryPoint ++ utf8 "\n")
    ++ s.funcs.flatMap (fun f => utf8 "func:\t" ++ f.2.result.text ++ utf8 " " ++ f.1
      ++ utf8 "(" ++ Ty.listText f.2.params ++ utf8 ")\n")
    ++ s.vars.flatMap (fun v => utf8 "var:\t" ++ v.2.text ++ utf8 " " ++ v.1 ++ utf8 "\n")

end Scope

end TreeWat
