import TreeWat.Path
set_option autoImplicit false

/-!
# Files: a file system as a value

Directories and regular files under their places.  A place is the list of names from
the root down.  A path is looked up from the working directory, or from the root if it
is absolute, name by name: everything in front of the last name must be a directory
that exists.

Reading, writing and making directories follow the rules of a POSIX system, and their
errors say which operation failed on which path and why.  Of such a system the model leaves out
links, symbolic and hard, so that a file has one place; permissions; and failures of a device.
A write is whole, or it fails before anything has changed.
-/

namespace TreeWat

/-- Why an operation on a file fails. -/
inductive FileCause where
  | notFound
  | notDirectory
  | isDirectory
  /-- The path holds a zero byte. -/
  | invalid
  | nameTooLong
  /-- Something else is there already. -/
  | taken
  deriving DecidableEq, Repr

/-- The wording of a cause. -/
def FileCause.text : FileCause → Bytes
  | .notFound => utf8 "no such file or directory"
  | .notDirectory => utf8 "not a directory"
  | .isDirectory => utf8 "is a directory"
  | .invalid => utf8 "invalid argument"
  | .nameTooLong => utf8 "file name too long"
  | .taken => utf8 "file exists"

/-- The steps that can fail. -/
inductive FileStep where
  | opening
  | reading
  | stat
  | makeDirectory
  deriving DecidableEq, Repr

/-- The name of a step. -/
def FileStep.text : FileStep → Bytes
  | .opening => utf8 "open"
  | .reading => utf8 "read"
  | .stat => utf8 "stat"
  | .makeDirectory => utf8 "mkdir"

/-- A failed operation. -/
structure FileError where
  step : FileStep
  path : Bytes
  cause : FileCause
  deriving DecidableEq, Repr

/-- What an error says. -/
def FileError.text (e : FileError) : Bytes :=
  e.step.text ++ utf8 " " ++ e.path ++ utf8 ": " ++ e.cause.text

/-- Where a file is: the names from the root down. -/
abbrev Place : Type := List Bytes

/-- What is at a place. -/
inductive Entry where
  | file (content : Bytes)
  | directory
  /-- A program of the machine, known by its name. -/
  | program (name : Bytes)
  deriving DecidableEq, Repr

/-- A file system with a working directory. -/
structure FileSystem where
  /-- What has been put where; the first entry of a place counts. -/
  entries : List (Place × Entry)
  /-- The working directory. -/
  here : Place
  deriving Repr

namespace FileSystem

/-- The place of the working directory of a fresh file system. -/
def workPlace : Place := [utf8 "tmp", utf8 "work"]

/-- The directories that every machine has. -/
def systemDirectories : List Place :=
  [utf8 "tmp", utf8 "bin", utf8 "usr", utf8 "etc", utf8 "dev", utf8 "proc", utf8 "sys",
    utf8 "var", utf8 "lib", utf8 "sbin", utf8 "home", utf8 "root", utf8 "opt"].map ([·])
  ++ [[utf8 "usr", utf8 "bin"], [utf8 "usr", utf8 "lib"], [utf8 "usr", utf8 "sbin"]]

/-- The places of the directories that hold the programs of a machine. -/
def programPlaces : List Place :=
  [[utf8 "bin"], [utf8 "usr", utf8 "bin"]]

/-- The names of the programs of a machine. -/
def programNames : List Bytes :=
  [utf8 "sh", utf8 "cat", utf8 "true", utf8 "false", utf8 "echo", utf8 "printf", utf8 "cp",
    utf8 "touch", utf8 "test", utf8 "["]

/-- The programs of a machine at their places. -/
def programs : List (Place × Entry) :=
  programPlaces.flatMap fun p => programNames.map fun name => (p ++ [name], .program name)

/-- The file of a machine that is always empty. -/
def nullPlace : Place := [utf8 "dev", utf8 "null"]

/-- A file system with an empty working directory. -/
def empty : FileSystem :=
  ⟨(workPlace, .directory) :: (nullPlace, .file []) :: systemDirectories.map (·, .directory)
    ++ programs, workPlace⟩

/-- What is at a place; the root is a directory. -/
def at? (fs : FileSystem) (p : Place) : Option Entry :=
  if p.isEmpty then some .directory
  else (fs.entries.find? fun e => e.1 = p).map Prod.snd

/-- Puts an entry at a place, instead of what is there. -/
def put (fs : FileSystem) (p : Place) (e : Entry) : FileSystem :=
  { fs with entries := (p, e) :: fs.entries.filter fun x => x.1 ≠ p }

/-- Removes everything at and below a place. -/
def prune (fs : FileSystem) (p : Place) : FileSystem :=
  { fs with entries := fs.entries.filter fun x => !p.isPrefixOf x.1 }

/-! ## Looking up paths -/

/-- Goes down the names of a path.  What is gone through must be a directory; at the end
there may be anything or nothing. -/
def walk (fs : FileSystem) (p : Place) : List Bytes → Except FileCause Place
  | [] => .ok p
  | name :: rest =>
    match fs.at? p with
    | none => .error .notFound
    | some (.file _) | some (.program _) => .error .notDirectory
    | some .directory =>
      if 255 < name.length then .error .nameTooLong
      else if name = utf8 "." then fs.walk p rest
      else if name = utf8 ".." then fs.walk p.dropLast rest
      else fs.walk (p ++ [name]) rest

/-- The names of a path. A slash at its end asks for a directory. -/
def names (path : Bytes) : List Bytes :=
  Path.elements path ++ (if Bytes.endsWith path (utf8 "/") then [utf8 "."] else [])

/-- Where the search for a path starts. -/
def origin (fs : FileSystem) (path : Bytes) : Place :=
  if Path.isAbsolute path then [] else fs.here

/-- The place that a path names. -/
def locate (fs : FileSystem) (path : Bytes) : Except FileCause Place :=
  if path.isEmpty then .error .notFound
  else if path.elem 0 then .error .invalid
  else if 4096 ≤ path.length then .error .nameTooLong
  else fs.walk (fs.origin path) (names path)

/-! ## Operations -/

/-- What a path stands for. -/
def stat (fs : FileSystem) (path : Bytes) : Except FileError Entry :=
  match fs.locate path with
  | .error c => .error ⟨.stat, path, c⟩
  | .ok p =>
    match fs.at? p with
    | some e => .ok e
    | none => .error ⟨.stat, path, .notFound⟩

/-- The bytes that a program starts with. -/
def programMark : Bytes :=
  0x7F :: utf8 "ELF"

/-- The content of a file.  Of a program only the start is known. -/
def readFile (fs : FileSystem) (path : Bytes) : Except FileError Bytes :=
  match fs.stat path with
  | .error e => .error { e with step := .opening }
  | .ok (.file content) => .ok content
  | .ok (.program _) => .ok programMark
  | .ok .directory => .error ⟨.reading, path, .isDirectory⟩

/-- The place where a file can be written.  A path that ends in a slash can only name a
directory. -/
def locateForWriting (fs : FileSystem) (path : Bytes) : Except FileCause Place :=
  if Bytes.endsWith path (utf8 "/") then do
    let _ ← fs.walk (fs.origin path) (Path.elements path)
    .error .isDirectory
  else do
    let p ← fs.locate path
    if fs.at? p = some .directory then .error .isDirectory else .ok p

/-- Writes a file, in place of the one that is there. -/
def writeFile (fs : FileSystem) (path content : Bytes) : Except FileError FileSystem :=
  match fs.locateForWriting path with
  | .error c => .error ⟨.opening, path, c⟩
  | .ok p => .ok (if p = nullPlace then fs else fs.put p (.file content))

/-- Makes a single directory, unless there is one already. -/
def makeDir (fs : FileSystem) (path : Bytes) : Except FileError FileSystem :=
  match fs.locate path with
  | .error c => .error ⟨.makeDirectory, path, c⟩
  | .ok p =>
    match fs.at? p with
    | none => .ok (fs.put p .directory)
    | some .directory => .ok fs
    | some (.file _) | some (.program _) => .error ⟨.makeDirectory, path, .taken⟩

/-- Makes a directory and those above it that are missing.  `fuel` bounds the number of
names in the path. -/
def makeDirs (fs : FileSystem) (fuel : Nat) (path : Bytes) : Except FileError FileSystem :=
  match fuel with
  | 0 => .ok fs
  | fuel + 1 =>
    match fs.stat path with
    | .ok .directory => .ok fs
    | .ok (.file _) | .ok (.program _) => .error ⟨.makeDirectory, path, .notDirectory⟩
    | .error _ =>
      let parent := (path.reverse.dropWhile (· ≠ byte '/')).reverse.dropLast
      if parent.isEmpty then fs.makeDir path
      else do (← fs.makeDirs fuel parent).makeDir path

/-- Removes what a path stands for, with everything below it. -/
def remove (fs : FileSystem) (path : Bytes) : FileSystem :=
  match fs.locate path with
  | .error _ => fs
  | .ok p => fs.prune p

/-! ## Filling and listing -/

/-- Adds a file or a directory, with the directories it needs. -/
def add (fs : FileSystem) (path : Bytes) (e : Entry) : FileSystem :=
  let p := Path.resolve true (fs.origin path).reverse (Path.elements path)
  let above := (List.range p.length).map fun n => p.take n
  let fs := above.foldl (fun fs q => if (fs.at? q).isSome then fs else fs.put q .directory) fs
  fs.put p e

/-- The regular files below the working directory with their paths from there, in the
order of these. -/
def files (fs : FileSystem) : List (Bytes × Bytes) :=
  let below := fs.entries.filterMap fun (p, e) =>
    match e with
    | .file content =>
      if fs.here.isPrefixOf p then
        some (Bytes.join (utf8 "/") (p.drop fs.here.length), content)
      else none
    | .directory | .program _ => none
  below.mergeSort fun a b => !Bytes.less b.1 a.1

/-- The files that `before` does not have, or has with another content. -/
def changes (before after : FileSystem) : List (Bytes × Bytes) :=
  after.files.filter fun f => !before.files.contains f

end FileSystem

end TreeWat
