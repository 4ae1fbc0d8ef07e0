import TreeWat.Text.Bytes
set_option autoImplicit false

/-!
# Toml: dates and times

A moment is a date, a time, or both, and with both there may be a distance from
universal time.  A text that starts like one is taken as far as its bytes allow; which
of the four kinds it is depends on the marks in it.  Whether it names a moment that
exists is a second question, answered by `Moment.isValid`.
-/

namespace TreeWat.Toml

/-- The kinds of moments. -/
inductive MomentKind where
  /-- A date and a time, with a distance from universal time. -/
  | instant
  | dateTime
  | date
  | time
  deriving DecidableEq, Repr

/-- A moment as it is written. -/
structure Moment where
  kind : MomentKind
  text : Bytes
  deriving DecidableEq, Repr

/-! ## Extent -/

/-- How many bytes a moment takes, and which marks are among them. -/
structure MomentMarks where
  length : Nat := 0
  hasDate : Bool := false
  hasTime : Bool := false
  hasZone : Bool := false
  deriving DecidableEq, Repr

/-- One more byte in front. -/
def MomentMarks.next (m : MomentMarks) : MomentMarks :=
  { m with length := m.length + 1 }

/-- Reads the bytes of a moment from its byte number `i` on.  One blank may stand in it if
a digit follows; that digit and the byte behind it, `skip` bytes in all, are taken as they
are. -/
def scanMoment (i skip : Nat) (spaced : Bool) : Bytes → MomentMarks
  | [] => {}
  | b :: r =>
    match skip with
    | k + 1 => (scanMoment (i + 1) k spaced r).next
    | 0 =>
      if Bytes.isDigit b then (scanMoment (i + 1) 0 spaced r).next
      else if b = byte '-' then
        let m := (scanMoment (i + 1) 0 spaced r).next
        { m with hasDate := true, hasZone := m.hasZone || 8 ≤ i }
      else if (utf8 "Tt:.").elem b then
        { (scanMoment (i + 1) 0 spaced r).next with hasTime := true }
      else if (utf8 "+Zz").elem b then
        { (scanMoment (i + 1) 0 spaced r).next with hasZone := true }
      else if b = byte ' ' && !spaced && (r.head?.map Bytes.isDigit).getD false then
        { (scanMoment (i + 1) 2 true r).next with hasTime := true }
      else {}

/-- The kind of a moment with these marks. -/
def MomentMarks.kind (m : MomentMarks) : MomentKind :=
  if !m.hasTime then .date
  else if !m.hasDate then .time
  else if m.hasZone then .instant
  else .dateTime

/-- Whether a text starts like a date or a time. -/
def startsMoment (s : Bytes) : Bool :=
  let digits := (s.takeWhile Bytes.isDigit).length
  3 ≤ s.length
    && ((digits = 2 && s[2]? = some (byte ':')) || (digits = 4 && s[4]? = some (byte '-')))

/-- Takes a moment off the front of a text. -/
def readMoment (s : Bytes) : Moment × Bytes :=
  let m := scanMoment 0 0 false s
  (⟨m.kind, s.take m.length⟩, s.drop m.length)

/-! ## Validity -/

/-- A number of exactly `width` digits at the front of a text. -/
def readDigits? (width : Nat) (s : Bytes) : Option (Nat × Bytes) :=
  let digits := s.take width
  if digits.length = width && digits.all Bytes.isDigit then
    some (Bytes.digitsValue digits, s.drop width)
  else none

/-- Whether a year has a leap day. -/
def isLeapYear (year : Nat) : Bool :=
  year % 4 == 0 && (year % 100 != 0 || year % 400 == 0)

/-- How many days a month has; none, if there is no such month. -/
def daysIn (year month : Nat) : Nat :=
  if month = 2 then (if isLeapYear year then 29 else 28)
  else if [4, 6, 9, 11].contains month then 30
  else if 1 ≤ month && month ≤ 12 then 31
  else 0

/-- Drops a date that exists. -/
def dropDate? (s : Bytes) : Option Bytes := do
  let (year, s) ← readDigits? 4 s
  let (month, s) ← readDigits? 2 (← Bytes.after? (utf8 "-") s)
  let (day, s) ← readDigits? 2 (← Bytes.after? (utf8 "-") s)
  if 1 ≤ day && day ≤ daysIn year month then some s else none

/-- Drops the fraction of a second, which has at least one digit. -/
def dropFraction? (s : Bytes) : Option Bytes :=
  match Bytes.after? (utf8 ".") s with
  | none => some s
  | some r =>
    if (r.head?.map Bytes.isDigit).getD false then some (r.dropWhile Bytes.isDigit) else none

/-- Drops a time that exists; a minute may have sixty-one seconds. -/
def dropTime? (s : Bytes) : Option Bytes := do
  let (hour, s) ← readDigits? 2 s
  let (minute, s) ← readDigits? 2 (← Bytes.after? (utf8 ":") s)
  let (second, s) ← readDigits? 2 (← Bytes.after? (utf8 ":") s)
  if hour ≤ 23 && minute ≤ 59 && second ≤ 60 then dropFraction? s else none

/-- Drops a date and a time with a mark between them. -/
def dropDateTime? (s : Bytes) : Option Bytes := do
  match ← dropDate? s with
  | [] => none
  | b :: r => if (utf8 "Tt ").elem b then dropTime? r else none

/-- Drops a distance from universal time. -/
def dropZone? (s : Bytes) : Option Bytes :=
  match s with
  | [] => none
  | b :: r =>
    if b = byte 'Z' || b = byte 'z' then some r
    else if b = byte '+' || b = byte '-' then do
      let (hours, r) ← readDigits? 2 r
      let (minutes, r) ← readDigits? 2 (← Bytes.after? (utf8 ":") r)
      if hours ≤ 23 && minutes ≤ 59 then some r else none
    else none

/-- Whether a moment exists. -/
def Moment.isValid (m : Moment) : Bool :=
  let rest := match m.kind with
    | .instant => (dropDateTime? m.text).bind dropZone?
    | .dateTime => dropDateTime? m.text
    | .date => dropDate? m.text
    | .time => dropTime? m.text
  rest == some []

end TreeWat.Toml
