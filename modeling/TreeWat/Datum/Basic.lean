import TreeWat.Location
set_option autoImplicit false

/-!
# Datum: the bracket notation

Trees and test expectations are written in one notation: symbols, integers and
double-quoted strings; lists in round brackets, which may carry metadata; and
maps from symbols to data in braces.  `Datum` is one such value with the location
where it starts, and `Datum.print` writes it back on one line.

Keys stand beside their values in a second list, in order.  A surplus key or value
has no partner and is neither printed nor found.
-/

namespace TreeWat

/-- The three sorts of data without parts. -/
inductive AtomSort where
  | symbol
  | string
  | integer
  deriving DecidableEq, Repr, Inhabited

/-- One value of the notation. -/
inductive Datum where
  /-- A symbol, a string without its quotes and escapes, or the digits of an integer. -/
  | atom (sort : AtomSort) (loc : Location) (text : Bytes)
  /-- A list with its metadata. -/
  | list (loc : Location) (metaKeys : List Bytes) (metaValues : List Datum)
      (items : List Datum)
  /-- A map. -/
  | map (loc : Location) (keys : List Bytes) (values : List Datum)
  /-- A value of a sort the notation does not know. -/
  | foreign (loc : Location) (sort : Int)
  deriving Repr, Inhabited

namespace Datum

/-- Where the datum starts. -/
def loc : Datum → Location
  | .atom _ l _ => l
  | .list l _ _ _ => l
  | .map l _ _ => l
  | .foreign l _ => l

/-- Whether the datum is a symbol, a string or an integer. -/
def isAtom : Datum → Bool
  | .atom .. => true
  | _ => false

/-- Whether the datum is a symbol. -/
def isSymbol : Datum → Bool
  | .atom .symbol .. => true
  | _ => false

/-- The value beside the first occurrence of `key`. -/
def entry? (key : Bytes) : List Bytes → List Datum → Option Datum
  | k :: ks, v :: vs => if k = key then some v else entry? key ks vs
  | _, _ => none

/-- The metadata stored under `key`. -/
def metadata? (d : Datum) (key : Bytes) : Option Datum :=
  match d with
  | .list _ keys values _ => entry? key keys values
  | _ => none

/-! ## Printing -/

/-- The characters of a string between its quotes: a quote or a backslash gets a
backslash. -/
def escapeString : Bytes → Bytes
  | [] => []
  | b :: r =>
    if b = byte '"' ∨ b = byte '\\' then byte '\\' :: b :: escapeString r
    else b :: escapeString r

/-- A string in its quotes. -/
def printString (s : Bytes) : Bytes :=
  byte '"' :: escapeString s ++ [byte '"']

mutual

/-- The datum on one line.  Metadata comes first in its list. -/
def print : Datum → Bytes
  | .atom .string _ s => printString s
  | .atom _ _ s => s
  | .list _ keys values items =>
    if keys.isEmpty then byte '(' :: printItems false items ++ [byte ')']
    else utf8 "(^\x7b" ++ printEntries true keys values ++ utf8 "\x7d"
      ++ printItems true items ++ [byte ')']
  | .map _ keys values => utf8 "\x7b" ++ printEntries true keys values ++ utf8 "\x7d"
  | .foreign _ sort => utf8 "<node type " ++ Bytes.ofInt sort ++ utf8 ">"

/-- Items with a blank between them, and one in front unless they come first. -/
def printItems (spaced : Bool) : List Datum → Bytes
  | [] => []
  | d :: r => (if spaced then utf8 " " else []) ++ print d ++ printItems true r

/-- Entries with a comma between them. -/
def printEntries (first : Bool) (keys : List Bytes) : List Datum → Bytes
  | [] => []
  | v :: vs =>
    match keys with
    | [] => []
    | k :: ks =>
      (if first then [] else utf8 ", ") ++ k ++ utf8 ": " ++ print v
        ++ printEntries false ks vs

end

end Datum

end TreeWat
