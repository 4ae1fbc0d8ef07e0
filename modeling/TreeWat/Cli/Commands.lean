import TreeWat.Cli.Flags
import TreeWat.Compiler
import TreeWat.Config.File
import TreeWat.Host
set_option autoImplicit false

/-!
# Cli: the commands

A command line is read, the settings of the project are loaded, and the command does its
work through the host.  The first problem ends a command: it is reported in one line, and
the status says whether the user or the tree is to blame.

How settings are read off their file is left open (`SettingsReader`), and so is what the
host runs for an assembler or a runtime.
-/

namespace TreeWat.Cli

variable {m : Type → Type} [Monad m]

/-! ## Problems -/

/-- Why a command fails. -/
inductive Problem where
  | settingsUnreadable (path : Bytes) (e : FileError)
  | settingsSyntax (path : Bytes)
  | settingsBroken (b : Config.Breakage)
  | settingsInvalid (path : Bytes) (e : ConfigError)
  | settingsUnwritten (path : Bytes) (e : FileError)
  | settingsUnknown (e : FileError)
  | sourceUnreadable (path : Bytes) (e : FileError)
  | sourceSyntax (path : Bytes) (e : Tree.ReadError)
  | failure (f : Failure)
  | noDirectory (path : Bytes) (e : FileError)
  | moduleUnwritten (path : Bytes) (e : FileError)
  | notAssembled (path : Bytes) (e : ProgramError)
  | notExecuted (e : ProgramError)
  | notWatched (path : Bytes) (cause : FileCause)
  deriving Repr

/-- What a problem says. -/
def Problem.text : Problem → Bytes
  | .settingsUnreadable path e => utf8 "failed to read " ++ path ++ utf8 ": " ++ e.text
  | .settingsSyntax path => utf8 "failed to parse " ++ path ++ utf8 ": toml: invalid document"
  | .settingsBroken b => utf8 "internal error: " ++ b.text
  | .settingsInvalid path e => path ++ utf8 ": " ++ e.text
  | .settingsUnwritten path e => utf8 "failed to write " ++ path ++ utf8 ": " ++ e.text
  | .settingsUnknown e => e.text
  | .sourceUnreadable path e => utf8 "error reading file " ++ path ++ utf8 ": " ++ e.text
  | .sourceSyntax path e => path ++ utf8 ": " ++ e.text
  | .failure (.user d) => d.text
  | .failure (.shape e) => utf8 "internal error: " ++ e.text
  | .failure (.fault f) => utf8 "internal error: " ++ f.text?.getD (utf8 "unexpected tree")
  | .noDirectory path e => utf8 "error creating output directory " ++ path ++ utf8 ": " ++ e.text
  | .moduleUnwritten path e => utf8 "error writing WAT file " ++ path ++ utf8 ": " ++ e.text
  | .notAssembled path e => utf8 "failed to assemble " ++ path ++ utf8 ": " ++ e.text
  | .notExecuted e => utf8 "execution failed: " ++ e.text
  | .notWatched path cause => utf8 "failed to watch " ++ path ++ utf8 ": " ++ cause.text

/-- The status of a command that did its work. -/
def exitSuccess : Nat := 0

/-- The status of a command that failed. -/
def exitFailure : Nat := 1

/-- The status of a command that was handed a tree of the wrong shape. -/
def exitInternal : Nat := 2

/-- The status that a problem leads to. -/
def Problem.status : Problem → Nat
  | .failure (.user _) => exitFailure
  | .failure _ => exitInternal
  | .settingsBroken _ => exitInternal
  | _ => exitFailure

/-- Something a command does, which can end in a problem. -/
abbrev Attempt (m : Type → Type) (α : Type) : Type := ExceptT Problem m α

/-- Reports a problem in one line and gives the status. -/
def report (h : Host m) (p : Problem) : m Nat := do
  h.print .error (p.text ++ utf8 "\n")
  pure p.status

/-! ## Settings -/

/-- The settings of a project, given the path of their file and what reading it gave. -/
abbrev SettingsReader : Type :=
  Bytes → Except FileError Bytes → Except Problem Config

/-- Loads the settings of a project. -/
def loadSettings (load : SettingsReader) (h : Host m) (o : Options) : Attempt m Config := do
  let c ← ExceptT.mk (pure (load o.config (← h.readFile o.config)))
  h.log o.verbose (utf8 "Using configuration " ++ o.config)
  pure c

/-! ## Trees and modules -/

/-- Reads a tree from a text with the name `path`. -/
def parseTree (path src : Bytes) : Except Problem Node :=
  match Tree.read src with
  | .ok root => .ok root
  | .error e => .error (.sourceSyntax path e)

/-- Reads a tree, given what reading its file gave. -/
def treeFrom (path : Bytes) : Except FileError Bytes → Except Problem Node
  | .ok src => parseTree path src
  | .error e => .error (.sourceUnreadable path e)

/-- Reads the tree in a file. -/
def readTree (h : Host m) (path : Bytes) : Attempt m Node := do
  ExceptT.mk (pure (treeFrom path (← h.readFile path)))

/-- Checks a tree. -/
def checkTree (root : Node) : Except Problem Check.CheckedProgram :=
  match Check.checkProgram root with
  | .ok checked => .ok checked
  | .error f => .error (.failure f)

/-- Checks and lowers a tree, with comments if the settings or the user ask for them. -/
def compileTree (h : Host m) (o : Options) (c : Config) (root : Node) :
    Attempt m Compiler.Result := do
  let debug := o.debug || c.debug
  h.log o.verbose (utf8 "Compiling (debug=" ++ (if debug then utf8 "true" else utf8 "false")
    ++ utf8 ")...")
  match Compiler.compile debug root with
  | .error f => throw (.failure f)
  | .ok r =>
    h.log o.verbose (utf8 "Generated " ++ Bytes.ofNat r.module.funcs.length ++ utf8 " functions, "
      ++ Bytes.ofNat r.module.globals.length ++ utf8 " globals, "
      ++ Bytes.ofNat r.module.data.length ++ utf8 " string literals")
    pure r

/-- What to build: a source file, the path of its module, and how. -/
structure BuildJob where
  file : Bytes
  output : Bytes
  options : Options
  settings : Config
  deriving DecidableEq, Repr

/-- Writes a module, with the directory it goes to. -/
def writeModule (h : Host m) (output text : Bytes) : Attempt m Unit := do
  let dir := Path.directory output
  if dir ≠ utf8 "." then
    match ← h.makeDirs dir with
    | .error e => throw (.noDirectory dir e)
    | .ok () => pure ()
  match ← h.writeFile output text with
  | .error e => throw (.moduleUnwritten output e)
  | .ok () => pure ()

/-- Builds a module and gives its size. Nothing is written unless the source compiles. -/
def BuildJob.build (h : Host m) (job : BuildJob) : Attempt m Nat := do
  let root ← readTree h job.file
  let r ← compileTree h job.options job.settings root
  let text := r.wat
  writeModule h job.output text
  pure text.length

/-- The line on a module that has been written. -/
def generatedLine (output : Bytes) (size : Nat) : Bytes :=
  utf8 "Generated " ++ output ++ utf8 " (" ++ Bytes.ofNat size ++ utf8 " bytes)\n"

/-- The job of a command line with one file. -/
def jobOf (o : Options) (c : Config) (file : Bytes) : BuildJob :=
  ⟨file, if o.output.isEmpty then c.outputPath file else o.output, o, c⟩

/-! ## Commands -/

/-- Builds a module. -/
def build (load : SettingsReader) (h : Host m) (o : Options) (file : Bytes) : Attempt m Unit := do
  let c ← loadSettings load h o
  let job := jobOf o c file
  h.log o.verbose (utf8 "Compiling " ++ file ++ utf8 " to " ++ job.output ++ utf8 "...")
  let size ← job.build h
  h.say (generatedLine job.output size)

/-- Checks a file. -/
def check (load : SettingsReader) (h : Host m) (o : Options) (file : Bytes) : Attempt m Unit := do
  let _ ← loadSettings load h o
  h.log o.verbose (utf8 "Checking " ++ file ++ utf8 "...")
  let root ← readTree h file
  let checked ← ExceptT.mk (pure (checkTree root))
  h.say (file ++ utf8 ": no errors found\n")
  if o.verbose then h.say (utf8 "AST: " ++ checked.tree.format ++ utf8 "\n")

/-- Prints the tree of a file with its notes, and its scopes. -/
def dump (load : SettingsReader) (h : Host m) (o : Options) (file : Bytes) : Attempt m Unit := do
  let _ ← loadSettings load h o
  let root ← readTree h file
  let checked ← ExceptT.mk (pure (checkTree root))
  h.say checked.dump
  if o.scopes then h.say (utf8 "\n" ++ checked.scopesText)

/-- Prints the module of a tree. -/
def eval (load : SettingsReader) (h : Host m) (o : Options) (tree : Bytes) : Attempt m Unit := do
  let c ← loadSettings load h o
  h.log o.verbose (utf8 "Evaluating: " ++ tree)
  let root ← ExceptT.mk (pure (parseTree (utf8 "<eval>") tree))
  let r ← compileTree h o c root
  h.say r.wat

/-- Assembles a module; what the assembler prints are remarks. -/
def assemble (h : Host m) (o : Options) (c : Config) (wat wasm : Bytes) : Attempt m Unit := do
  let command := c.assembler ++ [wat, utf8 "-o", wasm]
  h.log o.verbose (utf8 "Assembling: " ++ Bytes.join (utf8 " ") command)
  match ← h.execute (fun _ text => h.print .error text) command with
  | .error e => throw (.notAssembled wat e)
  | .ok () => pure ()

/-- Executes an assembled module. -/
def execute (h : Host m) (o : Options) (c : Config) (wasm : Bytes) : Attempt m Unit := do
  let command := c.runtime ++ [wasm]
  h.log o.verbose (utf8 "Executing: " ++ Bytes.join (utf8 " ") command)
  match ← h.execute h.print command with
  | .error e => throw (.notExecuted e)
  | .ok () => pure ()

/-- Builds a module in a directory, assembles it there and executes it. -/
def runIn (h : Host m) (o : Options) (c : Config) (scratch file : Bytes) : Attempt m Unit := do
  let stem := Bytes.withoutEnd (Path.extension file) (Path.base file)
  let wat := Path.join scratch (stem ++ utf8 ".wat")
  let wasm := Path.join scratch (stem ++ utf8 ".wasm")
  h.log o.verbose (utf8 "Compiling " ++ file ++ utf8 "...")
  let _ ← BuildJob.build h ⟨file, wat, o, c⟩
  assemble h o c wat wasm
  execute h o c wasm

/-- Builds and runs a file in a directory of its own, which is removed in the end. -/
def run (load : SettingsReader) (h : Host m) (o : Options) (file : Bytes) : Attempt m Unit := do
  let c ← loadSettings load h o
  let scratch ← h.makeScratch
  let outcome ← ExceptT.lift (runIn h o c scratch file).run
  h.remove scratch
  ExceptT.mk (pure outcome)

/-- Writes the settings file of a new project. -/
def init (h : Host m) (o : Options) : m Nat := do
  match ← h.stat o.config with
  | .ok _ =>
    if o.force then save
    else
      h.print .error (o.config ++ utf8 " already exists (use -force to overwrite)\n")
      pure exitFailure
  | .error e => if e.cause = .notFound then save else report h (.settingsUnknown e)
where
  /-- Writes the default settings. -/
  save : m Nat := do
    match ← h.writeFile o.config Config.default.write with
    | .error e => report h (.settingsUnwritten o.config e)
    | .ok () =>
      h.say (utf8 "Wrote " ++ o.config ++ utf8 "\n")
      pure exitSuccess

/-! ## Watching -/

/-- Builds a module again and reports a problem, if there is one. -/
def BuildJob.rebuild (h : Host m) (job : BuildJob) : m Unit := do
  match ← (job.build h).run with
  | .ok size => h.say (generatedLine job.output size)
  | .error p =>
    let _ ← report h p

/-- Builds a module and gets ready to build it again whenever its source changes. -/
def watch (load : SettingsReader) (h : Host m) (o : Options) (file : Bytes) :
    Attempt m BuildJob := do
  let c ← loadSettings load h o
  let job := jobOf o c file
  match ← h.stat (Path.directory (Path.clean file)) with
  | .error e => throw (.notWatched file e.cause)
  | .ok _ =>
    BuildJob.rebuild (m := m) h job
    h.say (utf8 "Watching " ++ file ++ utf8 " for changes (Ctrl-C to stop)\n")
    pure job

/-! ## Command lines -/

/-- How a command line ends: with a status, or with a job to repeat until the user stops
it. -/
inductive Ending where
  | exit (status : Nat)
  | watching (job : BuildJob)
  deriving DecidableEq, Repr

/-- The status of a finished attempt. -/
def finish (h : Host m) (t : Attempt m Unit) : m Ending := do
  match ← t.run with
  | .ok () => pure (.exit exitSuccess)
  | .error p => .exit <$> report h p

/-- The command of a name. -/
def Command.ofBytes? (name : Bytes) : Option Command :=
  if name = utf8 "build" then some .build
  else if name = utf8 "check" then some .check
  else if name = utf8 "dump" then some .dump
  else if name = utf8 "run" then some .run
  else if name = utf8 "eval" then some .eval
  else if name = utf8 "watch" then some .watch
  else if name = utf8 "init" then some .init
  else none

/-- What the operand of a command is. -/
def Command.operandName : Command → Bytes
  | .eval => utf8 "tree"
  | _ => utf8 "file"

/-- Ends a command whose command line makes no sense. -/
def refuse (h : Host m) (c : Command) (message : Bytes) : m Ending := do
  h.print .error (message ++ c.usage)
  pure (.exit exitFailure)

/-- Runs a command on its operand. -/
def Command.runOn (load : SettingsReader) (h : Host m) (c : Command) (o : Options)
    (operand : Bytes) : m Ending :=
  match c with
  | .build => finish h (Cli.build load h o operand)
  | .check => finish h (Cli.check load h o operand)
  | .dump => finish h (Cli.dump load h o operand)
  | .run => finish h (Cli.run load h o operand)
  | .eval => finish h (Cli.eval load h o operand)
  | .watch => do
    match ← (Cli.watch load h o operand).run with
    | .ok job => pure (.watching job)
    | .error p => .exit <$> report h p
  | .init => .exit <$> Cli.init h o

/-- Reads the flags and operands of a command and runs it. -/
def Command.start (load : SettingsReader) (h : Host m) (c : Command) (args : List Bytes) :
    m Ending :=
  match readFlags c {} none args with
  | .error e => refuse h c e.text
  | .ok (o, operands) =>
    match c, operands with
    | .init, [] => .exit <$> Cli.init h o
    | .init, _ => refuse h c (utf8 "Error: init takes no arguments\n")
    | c, [operand] => c.runOn load h o operand
    | c, _ =>
      refuse h c (utf8 "Error: expected exactly one " ++ c.operandName ++ utf8 " argument\n")

/-- Runs a command line under settings that are read in the given way. -/
def commandLineWith (load : SettingsReader) (h : Host m) (args : List Bytes) : m Ending := do
  match args with
  | [] =>
    h.print .error usage
    pure (.exit exitFailure)
  | name :: rest =>
    match Command.ofBytes? name with
    | some c => c.start load h rest
    | none =>
      if name = utf8 "version" then
        h.say (utf8 "jmm version " ++ compilerVersion ++ utf8 "\n")
        pure (.exit exitSuccess)
      else if name = utf8 "help" || name = utf8 "-h" || name = utf8 "--help" then
        h.print .error usage
        pure (.exit exitSuccess)
      else
        h.print .error (utf8 "Unknown command: " ++ name ++ utf8 "\n" ++ usage)
        pure (.exit exitFailure)

end TreeWat.Cli
