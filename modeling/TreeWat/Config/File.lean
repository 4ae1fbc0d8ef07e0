import TreeWat.Config.Basic
import TreeWat.Toml.Defined
set_option autoImplicit false

/-!
# Config: the settings file

Reading a settings file changes the default settings line by line.  Keys are matched
without regard to case, keys that name no setting are ignored, and a value of the
wrong type makes the file unreadable.  Below a heading that names no setting, nothing
is looked at.

Two mistakes end the reading at once, whatever follows in the file: to give a setting a
moment, which none can hold, and to open a table inside a setting.
-/

namespace TreeWat.Config

/-- A key in small letters.  Two capitals outside ASCII have an ASCII small letter. -/
def foldKey : Bytes → Bytes
  | [] => []
  | 0xC4 :: 0xB0 :: r => byte 'i' :: foldKey r
  | 0xE2 :: 0x84 :: 0xAA :: r => byte 'k' :: foldKey r
  | b :: r => Bytes.lowerByte b :: foldKey r

/-- What a key names. -/
inductive Setting where
  | requires
  | debug
  | dir
  | assembler
  | runtime
  deriving DecidableEq, Repr

/-- The tables of a settings file and the settings in each. -/
def tables : List (Bytes × List (Bytes × Setting)) :=
  [(utf8 "compiler", [(utf8 "requires", .requires), (utf8 "debug", .debug)]),
    (utf8 "output", [(utf8 "dir", .dir)]),
    (utf8 "toolchain", [(utf8 "assembler", .assembler), (utf8 "runtime", .runtime)])]

/-- What a place of the settings holds. -/
inductive Holder where
  | text
  | flag
  | list
  /-- A table with the given name. -/
  | table (name : Bytes)
  deriving DecidableEq, Repr

/-- What a setting holds. -/
def Setting.holder : Setting → Holder
  | .requires => .text
  | .debug => .flag
  | .dir => .text
  | .assembler => .list
  | .runtime => .list

/-- What a path leads to. -/
inductive Target where
  /-- The root of the file. -/
  | root
  /-- A table. -/
  | table (name : Bytes)
  | setting (s : Setting)
  /-- Something inside a setting, which has no parts. -/
  | inside (s : Setting)
  /-- Nothing that is looked at. -/
  | unknown
  deriving DecidableEq, Repr

/-- What a path leads to. -/
def target : List Bytes → Target
  | [] => .root
  | t :: rest =>
    match tables.lookup (foldKey t) with
    | none => .unknown
    | some settings =>
      match rest with
      | [] => .table (foldKey t)
      | k :: more =>
        match settings.lookup (foldKey k) with
        | none => .unknown
        | some s => if more.isEmpty then .setting s else .inside s

/-! ## Mistakes -/

/-- A mistake that ends the reading of a file at once. -/
inductive Breakage where
  /-- A moment was given to something that cannot hold it. -/
  | moment (kind : Toml.MomentKind) (holder : Holder)
  /-- A table was opened inside something that has no parts. -/
  | part (holder : Holder)
  deriving DecidableEq, Repr

/-- How a message names a kind of moment. -/
def momentName : Toml.MomentKind → Bytes
  | .instant => utf8 "time.Time"
  | .dateTime => utf8 "toml.LocalDateTime"
  | .date => utf8 "toml.LocalDate"
  | .time => utf8 "toml.LocalTime"

/-- A word with its first letter as a capital. -/
def capitalized : Bytes → Bytes
  | [] => []
  | b :: r => (if byte 'a' ≤ b && b ≤ byte 'z' then b - 32 else b) :: r

/-- How a message names what a place holds. -/
def Holder.name : Holder → Bytes
  | .text => utf8 "string"
  | .flag => utf8 "bool"
  | .list => utf8 "[]string"
  | .table name => utf8 "config." ++ capitalized name ++ utf8 "Config"

/-- What a breakage says. -/
def Breakage.text : Breakage → Bytes
  | .moment kind holder =>
    utf8 "reflect.Set: value of type " ++ momentName kind ++ utf8 " is not assignable to type "
      ++ holder.name
  | .part holder => utf8 "unhandled part: " ++ holder.name

/-- Why a line of a settings file cannot be taken in. -/
inductive Refusal where
  /-- A key is defined twice, or a value has the wrong type. -/
  | malformed
  | broken (b : Breakage)
  deriving DecidableEq, Repr

/-- A required part of a line. -/
def required {α : Type} : Option α → Except Refusal α
  | some a => .ok a
  | none => .error .malformed

/-! ## Values -/

/-- Refuses a value for a place that holds something else. -/
def refuse {α : Type} (holder : Holder) : Toml.Value → Except Refusal α
  | .moment m => .error (if m.isValid then .broken (.moment m.kind holder) else .malformed)
  | _ => .error .malformed

/-- The strings of an array of strings. -/
def strings : List Toml.Value → Except Refusal (List Bytes)
  | [] => .ok []
  | v :: rest =>
    match v with
    | .string s => (strings rest).map (s :: ·)
    | v => refuse .text v

/-- Gives a setting a value of its type. -/
def set (c : Config) (s : Setting) (v : Toml.Value) : Except Refusal Config :=
  match s, v with
  | .requires, .string t => .ok { c with requires := t }
  | .debug, .boolean b => .ok { c with debug := b }
  | .dir, .string t => .ok { c with dir := t }
  | .assembler, .array items => (strings items).map fun ts => { c with assembler := ts }
  | .runtime, .array items => (strings items).map fun ts => { c with runtime := ts }
  | s, v => refuse s.holder v

mutual

/-- Assigns a value to a path. -/
def assign (c : Config) (path : List Bytes) (v : Toml.Value) : Except Refusal Config :=
  match target path with
  | .setting s => c.set s v
  | .table name =>
    match v with
    | .table entries => assignAll c path entries
    | v => refuse (.table name) v
  | .inside _ => .error .malformed
  | .unknown => .ok c
  | .root => .error .malformed

/-- Assigns the entries of a table. -/
def assignAll (c : Config) (path : List Bytes) :
    List (List Bytes × Toml.Value) → Except Refusal Config
  | [] => .ok c
  | (key, v) :: rest =>
    match assign c (path ++ key) v with
    | .ok c' => assignAll c' path rest
    | .error e => .error e

end

/-! ## Lines -/

/-- The state of reading a file. -/
structure Progress where
  config : Config
  defined : Toml.Defined
  /-- Whether the heading in force names no setting. -/
  skipping : Bool

/-- The list a setting holds, if it holds one. -/
def listOf (c : Config) : Setting → Option (List Bytes)
  | .assembler => some c.assembler
  | .runtime => some c.runtime
  | _ => none

/-- The part of a setting that a heading reaches: of a list its last item, so an empty
list has none. -/
def reach (c : Config) (s : Setting) : Except Refusal Holder :=
  match c.listOf s with
  | none => .ok s.holder
  | some [] => .error .malformed
  | some _ => .ok .text

/-- Takes in one line. -/
def Progress.entry (p : Progress) : Toml.Entry → Except Refusal Progress
  | .pair key v =>
    if p.skipping then .ok p
    else do
      let defined ← required (p.defined.pair? key v)
      let config ← p.config.assign (p.defined.current ++ key) v
      .ok ⟨config, defined, false⟩
  | .heading key => do
    let defined ← required (p.defined.heading? key)
    match target key with
    | .unknown => .ok ⟨p.config, defined, true⟩
    | .inside s => .error (.broken (.part (← p.config.reach s)))
    | .setting s => do
      let _ ← p.config.reach s
      .ok ⟨p.config, defined, false⟩
    | _ => .ok ⟨p.config, defined, false⟩
  | .arrayHeading key => do
    let (defined, first) ← required (p.defined.arrayHeading? key)
    match target key with
    | .unknown => .ok ⟨p.config, defined, true⟩
    | .inside s => .error (.broken (.part (← p.config.reach s)))
    | .setting s => do
      let items ← required (p.config.listOf s)
      let items := if first then [] else items
      let config ← p.config.set s (.array ((items ++ [[]]).map .string))
      .ok ⟨config, defined, false⟩
    | _ => .error .malformed

/-- The settings a file describes.  A breakage counts even if a later line is
malformed. -/
def parse (s : Bytes) : Except Refusal Config := do
  let document := Toml.read s
  let p ← document.entries.foldlM Progress.entry ⟨default, .initial, false⟩
  if document.isComplete then .ok p.config else .error .malformed

/-! ## Writing -/

/-- Whether a string can be written without escapes. -/
def isPlain (s : Bytes) : Bool :=
  s.all fun b => !(b == 0x27 || b == byte '\n' || b == byte '\r' || Toml.isForbidden b)

/-- A character of a string in double quotes. -/
def writeByte (b : UInt8) : Bytes :=
  if b = byte '\\' then utf8 "\\\\"
  else if b = byte '"' then utf8 "\\\""
  else if b = 0x08 then utf8 "\\b"
  else if b = 0x0C then utf8 "\\f"
  else if b = byte '\n' then utf8 "\\n"
  else if b = byte '\r' then utf8 "\\r"
  else if b = byte '\t' then utf8 "\\t"
  else if Toml.isForbidden b then utf8 "\\u00" ++ Bytes.ofHex true 2 b.toNat
  else [b]

/-- A string: in single quotes if it can be written so, else in double quotes. -/
def writeString (s : Bytes) : Bytes :=
  if isPlain s then utf8 "'" ++ s ++ utf8 "'"
  else utf8 "\"" ++ s.flatMap writeByte ++ utf8 "\""

/-- An array of strings on one line. -/
def writeStrings (ss : List Bytes) : Bytes :=
  utf8 "[" ++ Bytes.join (utf8 ", ") (ss.map writeString) ++ utf8 "]"

/-- The settings file with these settings. -/
def write (c : Config) : Bytes :=
  utf8 "[compiler]\nrequires = " ++ writeString c.requires
    ++ utf8 "\ndebug = " ++ (if c.debug then utf8 "true" else utf8 "false")
    ++ utf8 "\n\n[output]\ndir = " ++ writeString c.dir
    ++ utf8 "\n\n[toolchain]\nassembler = " ++ writeStrings c.assembler
    ++ utf8 "\nruntime = " ++ writeStrings c.runtime ++ utf8 "\n"

/-! ## Loading -/

/-- Why a settings file cannot be used. -/
inductive LoadError where
  /-- The file is not in the notation, or a value has the wrong type. -/
  | unreadable
  | broken (b : Breakage)
  | invalid (e : ConfigError)
  deriving DecidableEq, Repr

/-- Reads and validates the text of a settings file. -/
def load (s : Bytes) : Except LoadError Config :=
  match parse s with
  | .error .malformed => .error .unreadable
  | .error (.broken b) => .error (.broken b)
  | .ok c =>
    match c.validate with
    | .error e => .error (.invalid e)
    | .ok () => .ok c

end TreeWat.Config
