import TreeWat.Cli.Commands
import TreeWat.Programs.Run
set_option autoImplicit false

/-!
# Cli: running command lines

Command lines of a project whose settings are in a TOML file.  On the model they run the programs
of `World.host`, which stand in for those of a machine.
-/

namespace TreeWat.Cli

/-! ## Settings files -/

/-- The settings in a file that has been read, if its text is usable. -/
def settingsOf (path content : Bytes) : Except Problem Config :=
  match Config.load content with
  | .error .unreadable => .error (.settingsSyntax path)
  | .error (.broken b) => .error (.settingsBroken b)
  | .error (.invalid e) => .error (.settingsInvalid path e)
  | .ok c => .ok c

/-- Settings that this compiler satisfies. -/
def checkSettings (path : Bytes) (c : Config) : Except Problem Config :=
  match c.checkVersion with
  | .error e => .error (.settingsInvalid path e)
  | .ok () => .ok c

/-- The settings, given what reading their file gave. A project may have no file. -/
def settingsFrom (path : Bytes) : Except FileError Bytes → Except Problem Config
  | .ok content => (settingsOf path content).bind (checkSettings path)
  | .error e =>
    if e.cause = .notFound then checkSettings path Config.default
    else .error (.settingsUnreadable path e)

/-- Runs a command line. -/
def commandLine {m : Type → Type} [Monad m] (h : Host m) (args : List Bytes) : m Ending :=
  commandLineWith settingsFrom h args

end TreeWat.Cli
