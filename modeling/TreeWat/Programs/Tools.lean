import TreeWat.Host
import TreeWat.Programs.Script
set_option autoImplicit false

/-!
# Programs: the tools a toolchain can name

An assembler or a runtime is a program with arguments.  The library runs a few small
programs itself: `sh` on scripts, `cat`, `cp`, `touch`, `echo`, `printf`, `test`, `true`
and `false`.  They stand in for those of a machine.  A program reads files through the
operations it is given and reports what it prints, in order, and its status; zero is success.
-/

namespace TreeWat.Programs

variable {m : Type → Type} [Monad m]

/-- What a program did: what it printed, in order, and its status. -/
structure Finished where
  printed : List (Stream × Bytes)
  status : Nat
  deriving Repr

/-- The system's wording of a cause. -/
def causeText : FileCause → Bytes
  | .notFound => utf8 "No such file or directory"
  | .notDirectory => utf8 "Not a directory"
  | .isDirectory => utf8 "Is a directory"
  | .invalid => utf8 "Invalid argument"
  | .nameTooLong => utf8 "File name too long"
  | .taken => utf8 "File exists"

/-! ## Printing -/

/-- The byte that a letter behind a backslash stands for. -/
def escapeOf? (c : UInt8) : Option UInt8 :=
  if c = byte 'n' then some 0x0A
  else if c = byte 't' then some 0x09
  else if c = byte 'r' then some 0x0D
  else if c = byte 'a' then some 0x07
  else if c = byte 'b' then some 0x08
  else if c = byte 'f' then some 0x0C
  else if c = byte 'v' then some 0x0B
  else if c = byte '\\' then some 0x5C
  else none

/-- Replaces escapes; `pending` says that a backslash stands in front. -/
def unescape (pending : Bool) : Bytes → Bytes
  | [] => if pending then utf8 "\\" else []
  | c :: rest =>
    if pending then
      match escapeOf? c with
      | some b => b :: unescape false rest
      | none => byte '\\' :: c :: unescape false rest
    else if c = byte '\\' then unescape true rest
    else c :: unescape false rest

/-- The line that `echo` prints. -/
def echoText (interprets : Bool) (args : List Bytes) : Bytes :=
  let (newline, words) := match args with
    | first :: rest => if first = utf8 "-n" then ([], rest) else (utf8 "\n", args)
    | [] => (utf8 "\n", args)
  let line := Bytes.join (utf8 " ") words
  (if interprets then unescape false line else line) ++ newline

/-- Fills the places of a format; `pending` says that a percent sign stands in front. -/
def fillFormat (pending : Bool) (args : List Bytes) : Bytes → Bytes
  | [] => if pending then utf8 "%" else []
  | c :: rest =>
    if pending then
      if c = byte '%' then c :: fillFormat false args rest
      else args.headD [] ++ fillFormat false args.tail rest
    else if c = byte '%' then fillFormat true args rest
    else c :: fillFormat false args rest

/-! ## Files -/

/-- Prints files one after another; input stands for a file named `-`. -/
def catFiles (h : FileOps m) (input : Bytes) : List Bytes → m Finished
  | [] => pure ⟨[], 0⟩
  | name :: rest => do
    let here ← if name = utf8 "-" then pure (Except.ok input) else h.readFile name
    let more ← catFiles h input rest
    pure <| match here with
      | .ok content => ⟨(.output, content) :: more.printed, more.status⟩
      | .error e =>
        ⟨(.error, utf8 "cat: " ++ name ++ utf8 ": " ++ causeText e.cause ++ utf8 "\n")
          :: more.printed, 1⟩

/-- Prints files, or the input if none is named. -/
def cat (h : FileOps m) (input : Bytes) (args : List Bytes) : m Finished :=
  let options := args.filter fun a => 2 ≤ a.length && a.head? = some (byte '-') && a ≠ utf8 "-u"
  match options.head? with
  | some option =>
    let complaint :=
      if Bytes.startsWith option (utf8 "--") then
        utf8 "cat: unrecognized option '" ++ option
      else utf8 "cat: invalid option -- '" ++ (option.drop 1).take 1
    pure ⟨[(.error, complaint ++ utf8 "'\nTry 'cat --help' for more information.\n")], 1⟩
  | none =>
    let names := args.filter fun a => a ≠ utf8 "-u"
    catFiles h input (if names.isEmpty then [utf8 "-"] else names)

/-- Copies a file to a path or into a directory. -/
def cp (h : FileOps m) (args : List Bytes) : m Finished := do
  match args with
  | [source, target] =>
    match ← h.readFile source with
    | .error e =>
      pure ⟨[(.error, utf8 "cp: cannot stat '" ++ source ++ utf8 "': " ++ causeText e.cause
        ++ utf8 "\n")], 1⟩
    | .ok content =>
      let target' := match ← h.stat target with
        | .ok .directory => Path.join target (Path.base source)
        | _ => target
      match ← h.writeFile target' content with
      | .ok () => pure ⟨[], 0⟩
      | .error e =>
        pure ⟨[(.error, utf8 "cp: cannot create regular file '" ++ target' ++ utf8 "': "
          ++ causeText e.cause ++ utf8 "\n")], 1⟩
  | _ => pure ⟨[(.error, utf8 "cp: missing file operand\n")], 1⟩

/-- Makes the files that do not exist. -/
def touch (h : FileOps m) : List Bytes → m Finished
  | [] => pure ⟨[], 0⟩
  | name :: rest => do
    let made ← match ← h.stat name with
      | .ok _ => pure (Except.ok ())
      | .error _ => h.writeFile name []
    let more ← touch h rest
    pure <| match made with
      | .ok () => more
      | .error e =>
        ⟨(.error, utf8 "touch: cannot touch '" ++ name ++ utf8 "': " ++ causeText e.cause
          ++ utf8 "\n") :: more.printed, 1⟩

/-- Whether a condition on files or strings holds. -/
def testCondition (h : FileOps m) (args : List Bytes) : m Bool := do
  match args with
  | [a] => pure !a.isEmpty
  | [op, a] =>
    if op = utf8 "-z" then pure a.isEmpty
    else if op = utf8 "-n" then pure !a.isEmpty
    else if op = utf8 "!" then pure a.isEmpty
    else
      let found ← h.stat a
      pure <| match found with
        | .ok .directory => op = utf8 "-e" || op = utf8 "-d"
        | .ok (.file content) =>
          op = utf8 "-e" || op = utf8 "-f" || (op = utf8 "-s" && !content.isEmpty)
            || op = utf8 "-r"
        | .ok (.program _) => [utf8 "-e", utf8 "-f", utf8 "-s", utf8 "-r", utf8 "-x"].contains op
        | .error _ => false
  | [a, op, b] =>
    pure (if op = utf8 "!=" then a ≠ b else op = utf8 "=" && a = b)
  | _ => pure false

/-- The program of a name; `none` if there is no such program here.  `inScript` says that a
script runs it, whose `echo` reads escapes. -/
def tool? (h : FileOps m) (inScript : Bool) (input name : Bytes) (args : List Bytes) :
    Option (m Finished) :=
  if name = utf8 "true" || (inScript && name = utf8 ":") then some (pure ⟨[], 0⟩)
  else if name = utf8 "false" then some (pure ⟨[], 1⟩)
  else if name = utf8 "echo" then some (pure ⟨[(.output, echoText inScript args)], 0⟩)
  else if name = utf8 "printf" then
    some (pure ⟨[(.output, fillFormat false args.tail (unescape false (args.headD [])))], 0⟩)
  else if name = utf8 "cat" then some (cat h input args)
  else if name = utf8 "cp" then some (cp h args)
  else if name = utf8 "touch" then some (touch h args)
  else if name = utf8 "test" then
    some do pure ⟨[], if ← testCondition h args then 0 else 1⟩
  else if name = utf8 "[" then
    some do pure ⟨[], if ← testCondition h args.dropLast then 0 else 1⟩
  else none

end TreeWat.Programs
