import TreeWat.Programs.Tools
set_option autoImplicit false

/-!
# Programs: running

Runs scripts and programs.  A redirection decides where a channel of a command goes: to
a stream of the program that runs the script, into a file, or to the next command of a
pipeline.

These programs stand in for those of a machine.  The commands of the compiler know a
program only as what `Host.execute` runs; `World.host` is the model with these.
-/

namespace TreeWat.Programs

variable {m : Type → Type} [Monad m]

/-! ## Scripts -/

/-- Where a channel goes. -/
inductive Sink where
  | stream (s : Stream)
  | file (path : Bytes) (append : Bool)
  | next
  deriving DecidableEq, Repr

/-- Where the channels of a command come from and go to. -/
structure Channels where
  input : Bytes
  output : Sink
  error : Sink
  /-- Why the command cannot run. -/
  problem : Option Bytes := none

/-- Sets where a channel goes. -/
def Channels.redirect (c : Channels) (channel : Nat) (s : Sink) : Channels :=
  if channel = 1 then { c with output := s }
  else if channel = 2 then { c with error := s }
  else c

/-- Follows the redirections of a command, left to right. -/
def applyRedirects (h : FileOps m) (a : Arguments) (c : Channels) : List Redirect → m Channels
  | [] => pure c
  | r :: rest => do
    let target := Bytes.join (utf8 " ") (a.expand r.target)
    let c ← match r.kind with
      | .write => pure (c.redirect r.channel (.file target false))
      | .append => pure (c.redirect r.channel (.file target true))
      | .duplicate =>
        pure (c.redirect r.channel (if target = utf8 "2" then c.error else c.output))
      | .read =>
        match ← h.readFile target with
        | .ok content => pure { c with input := content }
        | .error _ => pure { c with problem := some (utf8 "cannot open " ++ target
            ++ utf8 ": No such file") }
    applyRedirects h a c rest

/-- What has been printed on one channel. -/
def Finished.on (f : Finished) (s : Stream) : Bytes :=
  (f.printed.filter fun p => p.1 = s).flatMap Prod.snd

/-- Writes what went into a file. -/
def fillFile (h : FileOps m) (s : Sink) (content : Bytes) : m Unit := do
  match s with
  | .file path append =>
    let old ← if append then h.readFile path else pure (.ok [])
    let _ ← h.writeFile path (old.toOption.getD [] ++ content)
  | _ => pure ()

/-- Where a channel goes. -/
def Channels.sink (c : Channels) : Stream → Sink
  | .output => c.output
  | .error => c.error

/-- Hands out what a command printed: the rest for the streams, and the input of the next
command. -/
def deliver (h : FileOps m) (c : Channels) (f : Finished) : m (Finished × Bytes) := do
  if c.output = c.error then fillFile h c.output (f.printed.flatMap Prod.snd)
  else do
    fillFile h c.output (f.on .output)
    fillFile h c.error (f.on .error)
  let seen := f.printed.filterMap fun p => match c.sink p.1 with
    | .stream s => some (s, p.2)
    | _ => none
  let next := f.printed.filter fun p => c.sink p.1 = .next
  pure (⟨seen, f.status⟩, next.flatMap Prod.snd)

/-- How a script stands: what it printed, the status so far, and whether it has ended. -/
structure ScriptState where
  printed : List (Stream × Bytes) := []
  status : Nat := 0
  hasEnded : Bool := false

/-- The line of a complaint of a script. -/
def complain (args : List Bytes) (text : Bytes) : Stream × Bytes :=
  (.error, args.headD (utf8 "sh") ++ utf8 ": 1: " ++ text ++ utf8 "\n")

/-- A program that is started from a script, or why none is. -/
def startInScript (h : FileOps m) (nested : List Bytes → m Finished) (args : List Bytes)
    (input name : Bytes) (words : List Bytes) : m Finished := do
  match ← h.stat name with
  | .ok (.program p) =>
    if p = utf8 "sh" then nested words
    else match tool? h false input p words with
      | some action => action
      | none => pure ⟨[complain args (name ++ utf8 ": not found")], 127⟩
  | .ok _ => pure ⟨[complain args (name ++ utf8 ": Permission denied")], 126⟩
  | .error e =>
    let cause := if e.cause = .nameTooLong then causeText e.cause else utf8 "not found"
    pure ⟨[complain args (name ++ utf8 ": " ++ cause)], 127⟩

/-- Runs one command, given its words.  `nested` runs the shell inside a script. -/
def runWords (h : FileOps m) (nested : List Bytes → m Finished) (args : List Bytes)
    (input : Bytes) (words : List Bytes) : m Finished :=
  match words with
  | [] => pure ⟨[], 0⟩
  | name :: rest =>
    if name.elem (byte '/') then startInScript h nested args input name rest
    else if name = utf8 "sh" then nested rest
    else match tool? h true input name rest with
      | some action => action
      | none => pure ⟨[complain args (name ++ utf8 ": not found")], 127⟩

/-- Runs the commands of a pipeline one after another. -/
def runCommands (h : FileOps m) (nested : List Bytes → m Finished) (args : List Bytes)
    (input : Bytes) (st : ScriptState) : List SimpleCommand → m ScriptState
  | [] => pure st
  | c :: rest => do
    let a : Arguments := ⟨args, st.status⟩
    let last : Sink := if rest.isEmpty then .stream .output else .next
    let channels ← applyRedirects h a ⟨input, last, .stream .error, none⟩ c.redirects
    let words := c.words.flatMap a.expand
    if words.head? = some (utf8 "exit") then
      let status := ((words.drop 1).head?.bind Bytes.toNat?).getD st.status
      pure { st with status := status % 256, hasEnded := rest.isEmpty }
    else
      let f ← match channels.problem with
        | some text => pure ⟨[complain args text], 2⟩
        | none => runWords h nested args channels.input words
      let (seen, next) ← deliver h channels f
      runCommands h nested args next
        { st with printed := st.printed ++ seen.printed, status := seen.status } rest

/-- Whether a pipeline runs. -/
def Connector.allows (c : Connector) (status : Nat) : Bool :=
  match c with
  | .always => true
  | .ifSuccess => status = 0
  | .ifFailure => status ≠ 0

/-- Runs the pipelines of a script. -/
def runPipelines (h : FileOps m) (nested : List Bytes → m Finished) (args : List Bytes)
    (st : ScriptState) : List Pipeline → m ScriptState
  | [] => pure st
  | p :: rest => do
    if st.hasEnded then pure st
    else if p.connector.allows st.status then
      runPipelines h nested args (← runCommands h nested args [] st p.commands) rest
    else runPipelines h nested args st rest

/-- Runs a script with the name it goes by and its arguments. -/
def runScript (h : FileOps m) (nested : List Bytes → m Finished) (script : Bytes)
    (args : List Bytes) : m Finished := do
  match readScript? script with
  | none => pure ⟨[complain args (utf8 "Syntax error")], 2⟩
  | some ps =>
    let st ← runPipelines h nested args {} ps
    pure ⟨st.printed, st.status⟩

/-- Runs `sh` on a script given as an argument or in a file.  `nested` runs the shell inside
the script. -/
def shell (h : FileOps m) (nested : List Bytes → m Finished) (args : List Bytes) :
    m Finished := do
  match args with
  | [] => pure ⟨[], 0⟩
  | first :: rest =>
    if first = utf8 "-c" then
      match rest with
      | [] => pure ⟨[(.error, utf8 "sh: 0: -c requires an argument\n")], 2⟩
      | script :: more => runScript h nested script more
    else
      match ← h.readFile first with
      | .ok script => runScript h nested script args
      | .error _ =>
        pure ⟨[(.error, utf8 "sh: 0: cannot open " ++ first ++ utf8 ": No such file\n")], 2⟩

/-- How deep shells may be nested. -/
def maxShells : Nat := 64

/-- Runs `sh`.  `depth` bounds the number of shells inside one another; none starts below
it. -/
def sh (h : FileOps m) : (depth : Nat) → List Bytes → m Finished
  | 0, _ => pure ⟨[], 127⟩
  | depth + 1, args => shell h (sh h depth) args

/-! ## Programs -/

/-- What a file of the machine is, given its path and its content: the files that programs
are read from are programs. -/
def entryAt (path content : Bytes) : Entry :=
  let names := Path.elements (Path.clean path)
  match names.getLast? with
  | some name =>
    if Path.isAbsolute path && FileSystem.programPlaces.contains names.dropLast
        && FileSystem.programNames.contains name then .program name
    else .file content
  | none => .file content

/-- The path of the program that a command names.  A name without a slash is looked for
among the programs of the machine. -/
def programPath (h : FileOps m) (name : Bytes) : m (Except ProgramError Bytes) := do
  if name.isEmpty then pure (.error .noCommand)
  else if name = utf8 "/" then pure (.error (.isDirectory name))
  else if name.elem (byte '/') then pure (.ok name)
  else
    let path := utf8 "/usr/bin/" ++ name
    match ← h.stat path with
    | .ok (.program _) => pure (.ok path)
    | _ => pure (.error (.notFound name))

/-- The length from which on an argument is too long. -/
def argumentLimit : Nat := 131072

/-- The program at a path, ready to run.  A zero byte is found first, then what is wrong
with the path, then what is wrong with the arguments. -/
def load (h : FileOps m) (path : Bytes) (args : List Bytes) :
    m (Except StartCause (m Finished)) := do
  if (path :: args).any (·.elem 0) then pure (.error (.file .invalid))
  else
    match ← h.stat path with
    | .error e => pure (.error (.file e.cause))
    | .ok (.program name) =>
      if (path :: args).any fun a => argumentLimit ≤ a.length then pure (.error .longArgument)
      else if name = utf8 "sh" then pure (.ok (sh h maxShells args))
      else pure ((tool? h false [] name args).elim (.error .denied) .ok)
    | .ok _ => pure (.error .denied)

/-- Runs a program; `emit` takes what it prints. -/
def run (h : FileOps m) (emit : Stream → Bytes → m Unit) (command : List Bytes) :
    m (Except ProgramError Unit) := do
  match command with
  | [] => pure (.error .noCommand)
  | name :: args =>
    match ← programPath h name with
    | .error e => pure (.error e)
    | .ok path =>
      match ← load h path args with
      | .error cause => pure (.error (.notStarted path cause))
      | .ok action =>
        let f ← action
        for (s, text) in f.printed do
          emit s text
        pure (if f.status = 0 then .ok () else .error (.status f.status))

end TreeWat.Programs

namespace TreeWat

/-- The operations on the model, with these programs. -/
def World.host : Host (StateM World) :=
  World.hostWith (Programs.run World.fileOps)

end TreeWat
