import TreeWat.Cli.Run
import TreeWat.Programs.Run
set_option autoImplicit false

/-!
# The program

Runs a command line on the machine.  Everything that is decided is decided in the
library: this module only carries out its file operations and prints.
-/

namespace TreeWat.Machine

/-- A path as the machine takes it. -/
def pathText (path : Bytes) : String :=
  (String.fromUTF8? ⟨path.toArray⟩).getD ""

/-- The cause that the machine reports. -/
def causeOf : IO.Error → FileCause
  | .inappropriateType _ code _ => if code = 21 then .isDirectory else .notDirectory
  | .alreadyExists .. => .notDirectory
  | .invalidArgument .. => .invalid
  | _ => .notFound

/-- Carries out an operation on a path and names the step if it fails. -/
def attempt {α : Type} (step : FileStep) (path : Bytes) (action : IO α) :
    IO (Except FileError α) := do
  try
    return .ok (← action)
  catch e =>
    return .error ⟨step, path, causeOf e⟩

/-- The content of a file on the machine. -/
def readFile (path : Bytes) : IO (Except FileError Bytes) := do
  match ← attempt .opening path (IO.FS.readBinFile (pathText path)) with
  | .ok content => return .ok content.toList
  | .error e => return .error (if e.cause = .isDirectory then { e with step := .reading } else e)

/-- What a path stands for on the machine. -/
def stat (path : Bytes) : IO (Except FileError Entry) := do
  match ← readFile path with
  | .ok content => return .ok (Programs.entryAt path content)
  | .error e =>
    if e.cause = .isDirectory then return .ok .directory
    else return .error { e with step := .stat }

/-- The stream of the machine. -/
def stream (s : Stream) : IO IO.FS.Stream :=
  match s with
  | .output => IO.getStdout
  | .error => IO.getStderr

/-- The operations on the files of the machine. -/
def fileOps : FileOps IO where
  readFile := readFile
  writeFile path content :=
    attempt .opening path (IO.FS.writeBinFile (pathText path) ⟨content.toArray⟩)
  makeDirs path := attempt .makeDirectory path (IO.FS.createDirAll (pathText path))
  stat := stat

/-- The operations of the machine. -/
def host : Host IO where
  toFileOps := fileOps
  makeScratch := do return (← IO.FS.createTempDir).toString.toUTF8.toList
  remove path := IO.FS.removeDirAll (pathText path)
  print s text := do
    let out ← stream s
    out.write ⟨text.toArray⟩
    out.flush
  execute := Programs.run fileOps

/-- Repeats a job whenever its source has changed, until the user stops the program. -/
partial def repeatJob (job : Cli.BuildJob) (seen : Option Bytes) : IO Unit := do
  IO.sleep 200
  let now := (← readFile job.file).toOption
  if now ≠ seen && now.isSome then
    job.rebuild host
  repeatJob job now

end TreeWat.Machine

open TreeWat

/-- Runs the command line of the program. -/
def main (args : List String) : IO UInt32 := do
  match ← Cli.commandLine Machine.host (args.map fun a => a.toUTF8.toList) with
  | .exit status => return status.toUInt32
  | .watching job =>
    Machine.repeatJob job (← Machine.readFile job.file).toOption
    return 0
