import TreeWat.Text.Quoted
import TreeWat.Wat.Basic
set_option autoImplicit false

/-!
# Wat: printing

A module is laid out as a list of lines with their depths, and the text follows
from the lines: a tab per level, the line, a newline.  Sections come in a fixed
order: imports, functions, globals, start, memory, data.
-/

namespace TreeWat.Wat

/-- A line of output and its depth. -/
structure Line where
  depth : Nat
  text : Bytes
  deriving DecidableEq, Repr

/-- The line with its indentation and newline. -/
def Line.print (l : Line) : Bytes :=
  List.replicate l.depth (byte '\t') ++ l.text ++ [byte '\n']

/-- The text of a list of lines. -/
def printLines (ls : List Line) : Bytes :=
  ls.flatMap Line.print

section

variable {α : Type} (opText : α → Bytes)

mutual

/-- The lines of one instruction. -/
def Instr.lines (depth : Nat) (i : Instr α) : List Line :=
  match i with
  | .op a => [⟨depth, opText a⟩]
  | .comment text => [⟨depth, utf8 ";; " ++ text⟩]
  | .block label body =>
    ⟨depth, utf8 "(block " ++ label⟩ :: bodyLines (depth + 1) body ++ [⟨depth, utf8 ")"⟩]
  | .loop label body =>
    ⟨depth, utf8 "(loop " ++ label⟩ :: bodyLines (depth + 1) body ++ [⟨depth, utf8 ")"⟩]
  | .cond whenTrue whenFalse =>
    ⟨depth, utf8 "(if"⟩ :: ⟨depth + 1, utf8 "(then"⟩ :: bodyLines (depth + 2) whenTrue
      ++ [⟨depth + 1, utf8 ")"⟩]
      ++ (if whenFalse.isEmpty then []
        else ⟨depth + 1, utf8 "(else"⟩ :: bodyLines (depth + 2) whenFalse
          ++ [⟨depth + 1, utf8 ")"⟩])
      ++ [⟨depth, utf8 ")"⟩]

/-- The lines of a body. -/
def bodyLines (depth : Nat) : List (Instr α) → List Line
  | [] => []
  | i :: rest => Instr.lines depth i ++ bodyLines depth rest

end

/-- The text of an instruction list, at depth zero. -/
def printBody (body : List (Instr α)) : Bytes :=
  printLines (bodyLines opText 0 body)

/-- The line of an import. -/
def Import.text (i : Import) : Bytes :=
  utf8 "(import " ++ Text.quoted i.module ++ utf8 " " ++ Text.quoted i.field
    ++ utf8 " (func " ++ i.name ++ Bytes.times i.params (utf8 " (param i32)")
    ++ (if i.result then utf8 " (result i32)" else []) ++ utf8 "))"

/-- The first line of a function. -/
def Func.head (f : Func α) : Bytes :=
  utf8 "(func " ++ f.name
    ++ f.params.flatMap (fun p => utf8 " (param " ++ p ++ utf8 " i32)")
    ++ (if f.result then utf8 " (result i32)" else [])

/-- The lines of a function inside a module. -/
def Func.lines (f : Func α) : List Line :=
  ⟨1, f.head⟩ :: f.locals.map (fun l => ⟨2, utf8 "(local " ++ l ++ utf8 " i32)"⟩)
    ++ bodyLines opText 2 f.body ++ [⟨1, utf8 ")"⟩]

/-- The line of a data segment. -/
def Data.lineText (d : Data) : Bytes :=
  utf8 "(data (i32.const " ++ Bytes.ofInt d.offset ++ utf8 ") \"" ++ d.text ++ utf8 "\")"

/-- The lines of a module. -/
def Module.lines (m : Module α) : List Line :=
  [⟨0, utf8 "(module"⟩]
    ++ m.imports.map (fun i => ⟨1, i.text⟩)
    ++ m.funcs.flatMap (Func.lines opText)
    ++ m.globals.map (fun g => ⟨1, utf8 "(global " ++ g ++ utf8 " (mut i32) (i32.const 0))"⟩)
    ++ (match m.start with
      | some s => [⟨1, utf8 "(start " ++ s ++ utf8 ")"⟩]
      | none => [])
    ++ [⟨1, utf8 "(memory " ++ Bytes.ofInt m.memory ++ utf8 ")"⟩]
    ++ m.data.map (fun d => ⟨1, d.lineText⟩)
    ++ [⟨0, utf8 ")"⟩]

/-- The text of a module. -/
def Module.print (m : Module α) : Bytes :=
  printLines (m.lines opText)

end

end TreeWat.Wat
