import TreeWat.Path
import TreeWat.Semver.Constraint
set_option autoImplicit false

/-!
# Config: project settings

The settings of a project: which compiler versions it asks for, whether modules are
commented, where they are written, and the commands that assemble and run them.
-/

namespace TreeWat

/-- The version of this compiler. -/
def compilerVersion : Bytes := utf8 "0.3.0"

/-- The name of the settings file. -/
def configFileName : Bytes := utf8 "jmm.toml"

/-- Project settings. -/
structure Config where
  /-- A constraint on the compiler version; empty if there is none. -/
  requires : Bytes
  debug : Bool
  /-- The output directory; empty to write next to the input. -/
  dir : Bytes
  assembler : List Bytes
  runtime : List Bytes
  deriving DecidableEq, Repr

/-- Why settings cannot be used. -/
inductive ConfigError where
  /-- The text is no constraint. -/
  | badRequires (text : Bytes) (e : Semver.ConstraintError)
  /-- A text given as the compiler's version is none. -/
  | badVersion (text : Bytes) (e : Semver.VersionError)
  | noAssembler
  | noRuntime
  /-- The compiler does not satisfy the constraint. -/
  | unsatisfied (version : Semver.Version) (requires : Bytes)
  deriving DecidableEq, Repr

/-- The wording of an error. -/
def ConfigError.text : ConfigError → Bytes
  | .badRequires text e =>
    utf8 "invalid compiler.requires " ++ Text.quoted text ++ utf8 ": " ++ e.text
  | .badVersion text e =>
    utf8 "invalid compiler version " ++ Text.quoted text ++ utf8 ": " ++ e.text
  | .noAssembler => utf8 "toolchain.assembler must name a command"
  | .noRuntime => utf8 "toolchain.runtime must name a command"
  | .unsatisfied version requires =>
    utf8 "compiler version " ++ version.text ++ utf8 " does not satisfy "
      ++ Text.quoted requires

namespace Config

/-- The settings of a project without a settings file. -/
def default : Config where
  requires := utf8 ">= " ++ compilerVersion
  debug := false
  dir := []
  assembler := [utf8 "wat2wasm"]
  runtime := [utf8 "wasm-interp", utf8 "--host-print"]

/-- The constraint on the compiler version. -/
def constraint (c : Config) : Except ConfigError Semver.Constraint :=
  match Semver.Constraint.read c.requires with
  | .ok k => .ok k
  | .error e => .error (.badRequires c.requires e)

/-- Finds settings that can never work. -/
def validate (c : Config) : Except ConfigError Unit := do
  if !c.requires.isEmpty then
    let _ ← c.constraint
  if c.assembler.isEmpty then .error .noAssembler
  else if c.runtime.isEmpty then .error .noRuntime
  else .ok ()

/-- Requires a compiler of the given version to satisfy the constraint. -/
def checkVersionOf (c : Config) (version : Bytes) : Except ConfigError Unit := do
  if c.requires.isEmpty then .ok ()
  else
    let k ← c.constraint
    match Semver.Version.read version with
    | .error e => .error (.badVersion version e)
    | .ok v => if k.holds v then .ok () else .error (.unsatisfied v c.requires)

/-- Requires this compiler to satisfy the constraint. -/
def checkVersion (c : Config) : Except ConfigError Unit :=
  c.checkVersionOf compilerVersion

/-- Where the module of an input file is written: next to it or in the output
directory, with the extension `.wat` in place of its own. -/
def outputPath (c : Config) (input : Bytes) : Bytes :=
  let name := Path.withoutExtension input ++ utf8 ".wat"
  if c.dir.isEmpty then name else Path.join c.dir (Path.base name)

end Config

end TreeWat
