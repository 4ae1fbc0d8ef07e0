import TreeWat.Config.Basic
set_option autoImplicit false

/-!
# Cli: flags

A command takes flags in front of its operands.  `-x` and `--x` mean the same; a switch
can be given a truth value behind an equals sign, and a flag that takes a text has it
behind an equals sign or in the next argument.  The first argument that is no flag, or
`--`, ends the flags.
-/

namespace TreeWat.Cli

/-- The commands that take flags. -/
inductive Command where
  | build
  | check
  | dump
  | run
  | eval
  | watch
  | init
  deriving DecidableEq, Repr

/-- The flags of all commands. -/
inductive Flag where
  | config
  | debug
  | force
  | output
  | scopes
  | verbose
  deriving DecidableEq, Repr

/-- The name of a flag. -/
def Flag.name : Flag → Bytes
  | .config => utf8 "config"
  | .debug => utf8 "debug"
  | .force => utf8 "force"
  | .output => utf8 "o"
  | .scopes => utf8 "scopes"
  | .verbose => utf8 "v"

/-- Whether a flag takes a text; the others are switches. -/
def Flag.takesText : Flag → Bool
  | .config => true
  | .output => true
  | _ => false

/-- The flags of a command, in the order of their names. -/
def Command.flags : Command → List Flag
  | .build => [.config, .debug, .output, .verbose]
  | .check => [.config, .verbose]
  | .dump => [.config, .scopes]
  | .run => [.config, .debug, .verbose]
  | .eval => [.config, .debug, .verbose]
  | .watch => [.config, .debug, .output, .verbose]
  | .init => [.config, .force]

/-- What the flags of a command line say. -/
structure Options where
  config : Bytes := configFileName
  /-- Where to write; empty if the command line does not say. -/
  output : Bytes := []
  debug : Bool := false
  verbose : Bool := false
  scopes : Bool := false
  force : Bool := false
  deriving DecidableEq, Repr

/-- Sets a flag that takes a text. -/
def Options.setText (o : Options) (f : Flag) (value : Bytes) : Options :=
  match f with
  | .config => { o with config := value }
  | .output => { o with output := value }
  | _ => o

/-- Sets a switch. -/
def Options.setSwitch (o : Options) (f : Flag) (value : Bool) : Options :=
  match f with
  | .debug => { o with debug := value }
  | .verbose => { o with verbose := value }
  | .scopes => { o with scopes := value }
  | .force => { o with force := value }
  | _ => o

/-! ## Reading -/

/-- What an argument is by its form. -/
inductive Argument where
  | operand
  | terminator
  | flag (name : Bytes) (value : Option Bytes)
  | malformed
  deriving DecidableEq, Repr

/-- The form of an argument. -/
def Argument.ofBytes (a : Bytes) : Argument :=
  if a.length < 2 || a.head? ≠ some (byte '-') then .operand
  else if a = utf8 "--" then .terminator
  else
    let text := if (a.drop 1).head? = some (byte '-') then a.drop 2 else a.drop 1
    let name := text.takeWhile (· ≠ byte '=')
    if name.isEmpty || name.head? = some (byte '-') then .malformed
    else if name.length < text.length then .flag name (some (text.drop (name.length + 1)))
    else .flag name none

/-- Why flags cannot be read. -/
inductive FlagError where
  /-- The user asks for help. -/
  | help
  | malformed (argument : Bytes)
  | unknown (name : Bytes)
  | noArgument (name : Bytes)
  | badSwitch (value name : Bytes)
  deriving DecidableEq, Repr

/-- What an error says; a call for help says nothing. -/
def FlagError.text : FlagError → Bytes
  | .help => []
  | .malformed argument => utf8 "bad flag syntax: " ++ argument ++ utf8 "\n"
  | .unknown name => utf8 "flag provided but not defined: -" ++ name ++ utf8 "\n"
  | .noArgument name => utf8 "flag needs an argument: -" ++ name ++ utf8 "\n"
  | .badSwitch value name =>
    utf8 "invalid boolean value " ++ Text.quoted value ++ utf8 " for -" ++ name
      ++ utf8 ": parse error\n"

/-- The truth value of a text. -/
def truthOf? (s : Bytes) : Option Bool :=
  if ["1", "t", "T", "TRUE", "true", "True"].any fun t => utf8 t == s then some true
  else if ["0", "f", "F", "FALSE", "false", "False"].any fun t => utf8 t == s then some false
  else none

/-- Reads flags and gives the operands behind them.  `pending` is a flag whose text is
the next argument. -/
def readFlags (c : Command) (o : Options) (pending : Option Flag) :
    List Bytes → Except FlagError (Options × List Bytes)
  | [] =>
    match pending with
    | some f => .error (.noArgument f.name)
    | none => .ok (o, [])
  | a :: rest =>
    match pending with
    | some f => readFlags c (o.setText f a) none rest
    | none =>
      match Argument.ofBytes a with
      | .operand => .ok (o, a :: rest)
      | .terminator => .ok (o, rest)
      | .malformed => .error (.malformed a)
      | .flag name value =>
        match c.flags.find? (fun f => f.name = name), value with
        | none, _ =>
          if name = utf8 "help" || name = utf8 "h" then .error .help else .error (.unknown name)
        | some f, some v =>
          if f.takesText then readFlags c (o.setText f v) none rest
          else match truthOf? v with
            | some b => readFlags c (o.setSwitch f b) none rest
            | none => .error (.badSwitch v name)
        | some f, none =>
          if f.takesText then readFlags c o (some f) rest
          else readFlags c (o.setSwitch f true) none rest

/-! ## Usage -/

/-- How a command is called. -/
def Command.synopsis : Command → Bytes
  | .build => utf8 "build [-o output] [-debug] [-v] <file>"
  | .check => utf8 "check [-v] <file>"
  | .dump => utf8 "dump [-scopes] <file>"
  | .run => utf8 "run [-debug] [-v] <file>"
  | .eval => utf8 "eval [-debug] [-v] <tree>"
  | .watch => utf8 "watch [-o output] [-debug] [-v] <file>"
  | .init => utf8 "init [-force]"

/-- What a flag of a command does. -/
def Command.explain (c : Command) : Flag → Bytes
  | .config =>
    utf8 "Path to the project configuration (default " ++ Text.quoted configFileName ++ utf8 ")"
  | .debug => utf8 "Annotate the module with expression comments"
  | .force => utf8 "Overwrite an existing configuration"
  | .output => utf8 "Output file path (default: <filename>.wat)"
  | .scopes => utf8 "Also print every scope with its declarations"
  | .verbose =>
    match c with
    | .check => utf8 "Show verbose checking details"
    | _ => utf8 "Show verbose compilation details"

/-- The lines on a flag: its text follows on the same line behind a switch of one letter,
and on the next one behind the others. -/
def Command.flagLines (c : Command) (f : Flag) : Bytes :=
  let head := utf8 "  -" ++ f.name ++ (if f.takesText then utf8 " string" else [])
  head ++ (if head.length ≤ 4 then utf8 "\t" else utf8 "\n    \t") ++ c.explain f ++ utf8 "\n"

/-- How to call a command. -/
def Command.usage (c : Command) : Bytes :=
  utf8 "Usage: jmm " ++ c.synopsis ++ utf8 "\n\nFlags:\n" ++ c.flags.flatMap c.flagLines

/-- How to call the program. -/
def usage : Bytes :=
  utf8 "jmm - semantic checker and WebAssembly text generator for J-- syntax trees

Usage:
    jmm <command> [arguments]

Commands:
    build <file>    Check a .ast file and write its .wat module
    check <file>    Check a .ast file without generating code
    dump <file>     Print the annotated tree (and scopes with -scopes)
    run <file>      Build, assemble, and execute a .ast file
    eval <tree>     Compile an inline tree and print its module
    watch <file>    Rebuild a .ast file every time it changes
    init            Write a default jmm.toml
    version         Print the compiler version
    help            Show this help message

Examples:
    jmm build -o program.wat program.ast
    jmm check -v program.ast
    jmm dump -scopes program.ast
    jmm eval '(globaldeclarations (entrypointdeclaration void (id \"main\") (formalparameterlist) (block)))'

Use \"jmm <command> -h\" for more information about a command.
"

end TreeWat.Cli
