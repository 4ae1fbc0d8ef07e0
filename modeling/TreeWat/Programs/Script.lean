import TreeWat.Text.Bytes
set_option autoImplicit false

/-!
# Programs: command scripts

The part of the shell's language that one-line tools are written in: simple commands
with quotes, parameters and redirections, joined by pipes, `;`, `&&` and `||`.

A script is cut into tokens byte by byte, and tokens are grouped into pipelines.  The shell
stands in for that of a machine: no command of the compiler knows of it.
-/

namespace TreeWat.Programs

/-! ## Tokens -/

/-- A piece of a word. -/
inductive WordPart where
  | byte (b : UInt8)
  /-- Something was quoted here, so the word counts even if it is empty. -/
  | mark
  | parameter (name : Bytes) (isQuoted : Bool)
  deriving DecidableEq, Repr

/-- How a redirection uses its target. -/
inductive RedirectKind where
  | read
  | write
  | append
  /-- The target is the number of another channel. -/
  | duplicate
  deriving DecidableEq, Repr

/-- A token of a script. -/
inductive Token where
  | word (parts : List WordPart)
  | redirect (channel : Nat) (kind : RedirectKind)
  | separator
  | and
  | or
  | pipe
  /-- Something outside this part of the language. -/
  | foreign
  deriving DecidableEq, Repr

/-- Where in a script a byte stands. -/
inductive Mode where
  | plain
  | single
  | double
  | escape (inDouble : Bool)
  | dollar (inDouble : Bool)
  | name (inDouble : Bool) (read : Bytes)
  | brace (inDouble : Bool) (read : Bytes)
  | comment
  /-- Behind the first byte of an operator, with the channel in front of it. -/
  | operator (b : UInt8) (channel : Option Nat)
  deriving DecidableEq, Repr

/-- A script that is being cut: tokens and the open word, both last first. -/
structure Lexer where
  tokens : List Token := []
  word : Option (List WordPart) := none
  mode : Mode := .plain
  deriving Repr

namespace Lexer

/-- Adds a piece to the open word. -/
def push (l : Lexer) (p : WordPart) : Lexer :=
  { l with word := some (p :: l.word.getD []) }

/-- Ends the open word. -/
def endWord (l : Lexer) : Lexer :=
  match l.word with
  | none => l
  | some parts => { l with tokens := .word parts.reverse :: l.tokens, word := none }

/-- Ends the open word and adds a token. -/
def emit (l : Lexer) (t : Token) : Lexer :=
  let l := l.endWord
  { l with tokens := t :: l.tokens, mode := .plain }

/-- Goes on in another mode. -/
def enter (l : Lexer) (mode : Mode) : Lexer :=
  { l with mode }

/-- Starts an operator.  A word of one digit in front of an angle bracket is a
channel. -/
def startOperator (l : Lexer) (b : UInt8) : Lexer :=
  match l.word with
  | some [.byte d] =>
    if Bytes.isDigit d && (b = byte '<' || b = byte '>') then
      { l with word := none, mode := .operator b (some (d.toNat - 48)) }
    else l.endWord.enter (.operator b none)
  | _ => l.endWord.enter (.operator b none)

/-- A byte outside quotes. -/
def stepPlain (l : Lexer) (b : UInt8) : Lexer :=
  let l := l.enter .plain
  if b = byte ' ' || b = byte '\t' then l.endWord
  else if b = byte '\n' || b = byte ';' then l.emit .separator
  else if b = 0x27 then (l.push .mark).enter .single
  else if b = byte '"' then (l.push .mark).enter .double
  else if b = byte '\\' then l.enter (.escape false)
  else if b = byte '$' then l.enter (.dollar false)
  else if b = byte '#' && l.word.isNone then l.enter .comment
  else if b = byte '&' || b = byte '|' || b = byte '<' || b = byte '>' then l.startOperator b
  else if b = byte '(' || b = byte ')' || b = byte '`' then l.emit .foreign
  else l.push (.byte b)

/-- A byte between double quotes. -/
def stepDouble (l : Lexer) (b : UInt8) : Lexer :=
  let l := l.enter .double
  if b = byte '"' then l.enter .plain
  else if b = byte '\\' then l.enter (.escape true)
  else if b = byte '$' then l.enter (.dollar true)
  else l.push (.byte b)

/-- A byte in or outside double quotes. -/
def stepBase (l : Lexer) (inDouble : Bool) (b : UInt8) : Lexer :=
  if inDouble then l.stepDouble b else l.stepPlain b

/-- The mode in or outside double quotes. -/
def baseMode (inDouble : Bool) : Mode :=
  if inDouble then .double else .plain

/-- A byte behind a backslash. -/
def stepEscape (l : Lexer) (inDouble : Bool) (b : UInt8) : Lexer :=
  let l := l.enter (baseMode inDouble)
  if b = byte '\n' then l
  else if !inDouble then (l.push .mark).push (.byte b)
  else if b = byte '$' || b = byte '"' || b = byte '\\' || b = byte '`' then l.push (.byte b)
  else (l.push (.byte (byte '\\'))).push (.byte b)

/-- A byte behind a dollar sign. -/
def stepDollar (l : Lexer) (inDouble : Bool) (b : UInt8) : Lexer :=
  if Bytes.isDigit b || (utf8 "@*#?$!-").elem b then
    (l.push (.parameter [b] inDouble)).enter (baseMode inDouble)
  else if Bytes.isLetter b || b = byte '_' then l.enter (.name inDouble [b])
  else if b = 0x7B then l.enter (.brace inDouble [])
  else (l.push (.byte (byte '$'))).stepBase inDouble b

/-- The operator of two bytes, if they make one. -/
def operatorOfTwo? (a b : UInt8) (channel : Option Nat) : Option Token :=
  if a = byte '&' && b = byte '&' then some .and
  else if a = byte '|' && b = byte '|' then some .or
  else if a = byte '>' && b = byte '>' then some (.redirect (channel.getD 1) .append)
  else if a = byte '>' && b = byte '|' then some (.redirect (channel.getD 1) .write)
  else if a = byte '>' && b = byte '&' then some (.redirect (channel.getD 1) .duplicate)
  else if a = byte '<' && (b = byte '&' || b = byte '<') then some .foreign
  else none

/-- The operator of one byte. -/
def operatorOfOne (a : UInt8) (channel : Option Nat) : Token :=
  if a = byte '|' then .pipe
  else if a = byte '>' then .redirect (channel.getD 1) .write
  else if a = byte '<' then .redirect (channel.getD 0) .read
  else .foreign

/-- Takes one byte. -/
def step (l : Lexer) (b : UInt8) : Lexer :=
  match l.mode with
  | .plain => l.stepPlain b
  | .double => l.stepDouble b
  | .single => if b = 0x27 then l.enter .plain else l.push (.byte b)
  | .escape inDouble => l.stepEscape inDouble b
  | .dollar inDouble => l.stepDollar inDouble b
  | .name inDouble read =>
    if Bytes.isLetter b || Bytes.isDigit b || b = byte '_' then
      l.enter (.name inDouble (read ++ [b]))
    else (l.push (.parameter read inDouble)).stepBase inDouble b
  | .brace inDouble read =>
    if b = 0x7D then (l.push (.parameter read inDouble)).enter (baseMode inDouble)
    else l.enter (.brace inDouble (read ++ [b]))
  | .comment => if b = byte '\n' then l.stepPlain b else l
  | .operator a channel =>
    match operatorOfTwo? a b channel with
    | some t => l.emit t
    | none => (l.emit (operatorOfOne a channel)).stepPlain b

/-- The tokens of a script; `none` if a quote is open at its end. -/
def finish? (l : Lexer) : Option (List Token) :=
  match l.mode with
  | .plain => some l.endWord.tokens.reverse
  | .comment => some l.tokens.reverse
  | .escape false => some (l.push (.byte (byte '\\'))).endWord.tokens.reverse
  | .dollar false => some (l.push (.byte (byte '$'))).endWord.tokens.reverse
  | .name false read => some (l.push (.parameter read false)).endWord.tokens.reverse
  | .operator a channel => some (l.emit (operatorOfOne a channel)).tokens.reverse
  | _ => none

end Lexer

/-- The tokens of a script. -/
def tokens? (script : Bytes) : Option (List Token) :=
  (script.foldl Lexer.step {}).finish?

/-! ## Pipelines -/

/-- A redirection of a channel. -/
structure Redirect where
  channel : Nat
  kind : RedirectKind
  target : List WordPart
  deriving Repr

/-- A simple command. -/
structure SimpleCommand where
  words : List (List WordPart) := []
  redirects : List Redirect := []
  deriving Repr

/-- When a pipeline runs, given the outcome of what is in front of it. -/
inductive Connector where
  | always
  | ifSuccess
  | ifFailure
  deriving DecidableEq, Repr

/-- Commands whose outputs are the next one's input. -/
structure Pipeline where
  connector : Connector
  commands : List SimpleCommand
  deriving Repr

/-- A script that is being grouped; lists are last first. -/
structure Grouping where
  finished : List Pipeline := []
  connector : Connector := .always
  commands : List SimpleCommand := []
  command : SimpleCommand := {}

namespace Grouping

/-- Ends the open command. -/
def endCommand (g : Grouping) : Grouping :=
  if g.command.words.isEmpty && g.command.redirects.isEmpty then g
  else { g with commands := g.command :: g.commands, command := {} }

/-- Ends the open pipeline; the next one runs as the connector says. -/
def endPipeline (g : Grouping) (next : Connector) : Grouping :=
  let g := g.endCommand
  if g.commands.isEmpty then g
  else { finished := ⟨g.connector, g.commands.reverse⟩ :: g.finished, connector := next }

/-- Adds a word to the open command. -/
def addWord (g : Grouping) (parts : List WordPart) : Grouping :=
  { g with command := { g.command with words := g.command.words ++ [parts] } }

/-- Adds a redirection to the open command. -/
def addRedirect (g : Grouping) (r : Redirect) : Grouping :=
  { g with command := { g.command with redirects := g.command.redirects ++ [r] } }

/-- Takes tokens; `none` outside this part of the language. -/
def take? (g : Grouping) : List Token → Option Grouping
  | [] => some (g.endPipeline .always)
  | .word parts :: rest => (g.addWord parts).take? rest
  | .redirect channel kind :: .word parts :: rest =>
    (g.addRedirect ⟨channel, kind, parts⟩).take? rest
  | .redirect .. :: _ => none
  | .separator :: rest => (g.endPipeline .always).take? rest
  | .and :: rest => (g.endPipeline .ifSuccess).take? rest
  | .or :: rest => (g.endPipeline .ifFailure).take? rest
  | .pipe :: rest => g.endCommand.take? rest
  | .foreign :: _ => none

end Grouping

/-- The pipelines of a script. -/
def readScript? (script : Bytes) : Option (List Pipeline) := do
  let g ← Grouping.take? {} (← tokens? script)
  some g.finished.reverse

/-! ## Parameters -/

/-- What parameters stand for. -/
structure Arguments where
  /-- The name of the script and its arguments. -/
  values : List Bytes
  /-- How the last command ended. -/
  status : Nat
  deriving Repr

/-- The value of a parameter. -/
def Arguments.value (a : Arguments) (name : Bytes) : Bytes :=
  if name = utf8 "?" then Bytes.ofNat a.status
  else if name = utf8 "#" then Bytes.ofNat (a.values.length - 1)
  else if name = utf8 "@" || name = utf8 "*" then Bytes.join (utf8 " ") (a.values.drop 1)
  else match Bytes.toNat? name with
    | some n => a.values.getD n []
    | none => []

/-- A byte of an expanded word, or a cut between two fields. -/
inductive Expanded where
  | byte (b : UInt8)
  | mark
  | cut
  deriving DecidableEq, Repr

/-- Puts a cut between the values of a list. -/
def expandAll : List Bytes → List Expanded
  | [] => []
  | [v] => .mark :: v.map .byte
  | v :: vs => .mark :: v.map .byte ++ .cut :: expandAll vs

/-- What a piece of a word stands for. Outside quotes, blanks in a value are cuts. -/
def Arguments.expandPart (a : Arguments) : WordPart → List Expanded
  | .byte b => [.byte b]
  | .mark => [.mark]
  | .parameter name true =>
    if name = utf8 "@" then expandAll (a.values.drop 1)
    else .mark :: (a.value name).map .byte
  | .parameter name false =>
    (a.value name).map fun b =>
      if b = byte ' ' || b = byte '\t' || b = byte '\n' then .cut else .byte b

/-- The fields between cuts, empty ones without a mark left out. -/
def fieldsOf (current : Option Bytes) : List Expanded → List Bytes
  | [] => current.toList
  | .byte b :: rest => fieldsOf (some (current.getD [] ++ [b])) rest
  | .mark :: rest => fieldsOf (some (current.getD [])) rest
  | .cut :: rest => current.toList ++ fieldsOf none rest

/-- The fields that a word stands for. -/
def Arguments.expand (a : Arguments) (parts : List WordPart) : List Bytes :=
  fieldsOf none (parts.flatMap a.expandPart)

end TreeWat.Programs
