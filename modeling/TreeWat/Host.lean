import TreeWat.Files
import TreeWat.Text.Quoted
set_option autoImplicit false

/-!
# Host: what commands need of the machine

Commands read and write files, print, and run programs.  They do so through a `Host`, so
that one definition serves both the machine and its model.  `World` is the model: a file
system and what has been printed, as a value.  What its programs do is left open.
-/

namespace TreeWat

/-! ## Programs -/

/-- Why a program cannot be started. -/
inductive StartCause where
  /-- It cannot be reached. -/
  | file (cause : FileCause)
  /-- What is there cannot be run. -/
  | denied
  /-- An argument is longer than the machine takes. -/
  | longArgument
  deriving DecidableEq, Repr

/-- The wording of a cause. -/
def StartCause.text : StartCause → Bytes
  | .file cause => cause.text
  | .denied => utf8 "permission denied"
  | .longArgument => utf8 "argument list too long"

/-- Why a program did not succeed. -/
inductive ProgramError where
  | noCommand
  /-- No program has this name. -/
  | notFound (name : Bytes)
  /-- The name is that of a directory. -/
  | isDirectory (name : Bytes)
  | notStarted (path : Bytes) (cause : StartCause)
  | status (n : Nat)
  deriving DecidableEq, Repr

/-- What an error says. -/
def ProgramError.text : ProgramError → Bytes
  | .noCommand => utf8 "exec: no command"
  | .notFound name =>
    utf8 "exec: " ++ Text.quoted name ++ utf8 ": executable file not found in $PATH"
  | .isDirectory name => utf8 "exec: " ++ Text.quoted name ++ utf8 ": is a directory"
  | .notStarted path cause => utf8 "fork/exec " ++ path ++ utf8 ": " ++ cause.text
  | .status n => utf8 "exit status " ++ Bytes.ofNat n

/-! ## Operations -/

/-- Where text is printed. -/
inductive Stream where
  | output
  | error
  deriving DecidableEq, Repr

/-- The operations on files that commands and programs use. -/
structure FileOps (m : Type → Type) where
  /-- The content of a file. -/
  readFile : Bytes → m (Except FileError Bytes)
  /-- Writes a file at a path. -/
  writeFile : Bytes → Bytes → m (Except FileError Unit)
  /-- Makes a directory and those above it. -/
  makeDirs : Bytes → m (Except FileError Unit)
  /-- What a path stands for. -/
  stat : Bytes → m (Except FileError Entry)

/-- How programs are run: a name with arguments, and what is done with each text that the
program prints. -/
abbrev Runner (m : Type → Type) : Type :=
  (Stream → Bytes → m Unit) → List Bytes → m (Except ProgramError Unit)

/-- The operations that commands use. -/
structure Host (m : Type → Type) extends FileOps m where
  /-- Makes a directory of its own and gives its path. -/
  makeScratch : m Bytes
  /-- Removes a directory with everything in it. -/
  remove : Bytes → m Unit
  /-- Prints a text. -/
  print : Stream → Bytes → m Unit
  /-- Runs a program. -/
  execute : Runner m

namespace Host

variable {m : Type → Type} [Monad m]

/-- Prints on the output. -/
def say (h : Host m) (text : Bytes) : m Unit :=
  h.print .output text

/-- Prints a line on progress, if the user wants to see it. -/
def log (h : Host m) (verbose : Bool) (line : Bytes) : m Unit :=
  if verbose then h.say (line ++ utf8 "\n") else pure ()

end Host

/-- A machine as a value. -/
structure World where
  files : FileSystem
  /-- The path of the directory that `makeScratch` makes. -/
  scratch : Bytes
  /-- What has been printed. -/
  output : Bytes := []
  error : Bytes := []

namespace World

/-- Takes the outcome of an operation that changes files. -/
def update (w : World) : Except FileError FileSystem → Except FileError Unit × World
  | .ok fs => (.ok (), { w with files := fs })
  | .error e => (.error e, w)

/-- Prints a text. -/
def print (w : World) (s : Stream) (text : Bytes) : World :=
  match s with
  | .output => { w with output := w.output ++ text }
  | .error => { w with error := w.error ++ text }

/-- The operations on the files of the model. -/
def fileOps : FileOps (StateM World) where
  readFile path := fun w => (w.files.readFile path, w)
  writeFile path content := fun w => w.update (w.files.writeFile path content)
  makeDirs path := fun w => w.update (w.files.makeDirs (path.length + 1) path)
  stat path := fun w => (w.files.stat path, w)

/-- The operations on the model, with programs that run in the given way. -/
def hostWith (execute : Runner (StateM World)) : Host (StateM World) where
  toFileOps := fileOps
  makeScratch := fun w =>
    (w.scratch, { w with files := w.files.add w.scratch .directory })
  remove path := fun w => ((), { w with files := w.files.remove path })
  print s text := fun w => ((), w.print s text)
  execute := execute

end World

end TreeWat
