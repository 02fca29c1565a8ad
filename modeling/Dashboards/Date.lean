import Dashboards.Shape.Scalar
import Dashboards.Text.Octets

/-!
# Dates

A reporting window runs from one calendar day to another. A day is read from `YYYY-MM-DD`, from a
date and a time that is midnight, or from a time stamp that falls on midnight.
-/

namespace Dashboards

/-- A day of the Gregorian calendar. -/
structure Date where
  year : Nat
  month : Nat
  day : Nat
  deriving DecidableEq, Repr

namespace Date

/-- A number with at least so many digits. -/
def padded (width n : Nat) : String :=
  let ds := toString n
  String.ofList (List.replicate (width - ds.length) '0') ++ ds

/-- `YYYY-MM-DD`. -/
def text (d : Date) : String := s!"{padded 4 d.year}-{padded 2 d.month}-{padded 2 d.day}"

def isLeap (year : Nat) : Bool := year % 4 == 0 && (year % 100 != 0 || year % 400 == 0)

/-- The number of days of a month, and nothing for a number that is no month. -/
def daysIn? (year month : Nat) : Option Nat :=
  match month with
  | 1 | 3 | 5 | 7 | 8 | 10 | 12 => some 31
  | 4 | 6 | 9 | 11 => some 30
  | 2 => some (if isLeap year then 29 else 28)
  | _ => none

/-- The day that lies so many days after 1970-01-01, by cycles of 400 years from 1 March 0. -/
def ofEpochDay (n : Int) : Date :=
  let z := n + 719468
  let era := z.fdiv 146097
  let doe := (z - era * 146097).toNat
  let yoe := (doe - doe / 1460 + doe / 36524 - doe / 146096) / 365
  let doy := doe - (365 * yoe + yoe / 4 - yoe / 100)
  let mp := (5 * doy + 2) / 153
  let month := if mp < 10 then mp + 3 else mp - 9
  let year := (yoe : Int) + era * 400 + (if month ≤ 2 then 1 else 0)
  ⟨year.toNat, month, doy - (153 * mp + 2) / 5 + 1⟩

/-! ## Reading -/

/-- A natural number written by exactly these characters. -/
def digits? (cs : List Char) : Option Nat :=
  if cs.all Char.isDigit then some (Json.digitsValue cs) else none

/-- The number in the characters from `start` on, or the given complaint. -/
def field (cs : List Char) (start width : Nat) (complaint : String) : Except String Nat :=
  match digits? ((cs.drop start).take width) with
  | some n => .ok n
  | none => .error complaint

def separator (cs : List Char) (at_ : Nat) (c : Char) (complaint : String) : Except String Unit :=
  if cs[at_]? = some c then .ok () else .error complaint

/-- The day at the front of a text. -/
def ofFront (cs : List Char) : Except String Date := do
  if cs.length < 10 then throw "input is too short"
  let year ← field cs 0 4 "invalid character in year"
  separator cs 4 '-' "invalid date separator, expected `-`"
  let month ← field cs 5 2 "invalid character in month"
  separator cs 7 '-' "invalid date separator, expected `-`"
  let day ← field cs 8 2 "invalid character in day"
  match daysIn? year month with
  | none => throw "month value is outside expected range of 1-12"
  | some most =>
    if day < 1 ∨ most < day then throw "day value is outside expected range"
    else pure ⟨year, month, day⟩

/-- Checks the offset from universal time at the end of a time. -/
def checkOffset (cs : List Char) : Except String Unit :=
  match cs with
  | [] | ['Z'] | ['z'] => .ok ()
  | sign :: rest => do
    if sign ∈ ['Z', 'z'] then throw "unexpected extra characters at the end of the input"
    if sign ∉ ['+', '-'] then throw "invalid timezone sign"
    let hours ← field rest 0 2 "invalid timezone hour"
    if rest.length < 2 then throw "input is too short"
    let after := rest.drop 2
    let minutes := if after.head? = some ':' then after.drop 1 else after
    let m ← field minutes 0 2 "invalid timezone minute"
    if minutes.length < 2 then throw "input is too short"
    if 59 < m then throw "timezone minute value is outside expected range of 0-59"
    if 24 * 60 ≤ hours * 60 + m then throw "timezone offset must be less than 24 hours"
    if 2 < minutes.length then throw "unexpected extra characters at the end of the input"

/-- Reads the time of day at the front of a text and says whether it is midnight. -/
def isMidnight (cs : List Char) : Except String Bool := do
  if cs.length < 5 then throw "input is too short"
  let hour ← field cs 0 2 "invalid character in hour"
  if 23 < hour then throw "hour value is outside expected range of 0-23"
  separator cs 2 ':' "invalid time separator, expected `:`"
  let minute ← field cs 3 2 "invalid character in minute"
  if 59 < minute then throw "minute value is outside expected range of 0-59"
  if cs[5]? ≠ some ':' then
    checkOffset (cs.drop 5)
    return hour = 0 ∧ minute = 0
  if cs.length < 8 then throw "input is too short"
  let second ← field cs 6 2 "invalid character in second"
  if 59 < second then throw "second value is outside expected range of 0-59"
  match cs.drop 8 with
  | mark :: rest =>
    if mark = '.' ∨ mark = ',' then
      let fraction := rest.takeWhile Char.isDigit
      if fraction.isEmpty then throw "second fraction value is missing digits"
      checkOffset (rest.drop fraction.length)
      return hour = 0 ∧ minute = 0 ∧ second = 0 ∧ (fraction.take 6).all (· = '0')
    else
      checkOffset (mark :: rest)
      return hour = 0 ∧ minute = 0 ∧ second = 0
  | [] => return hour = 0 ∧ minute = 0 ∧ second = 0

/-! ## Time stamps -/

/-- A number of seconds, or of milliseconds where it is large, and of microseconds besides. -/
structure Stamp where
  whole : Int
  micros : Nat

/-- The largest magnitude of a time stamp that counts seconds. -/
def watershed : Nat := 20000000000

/-- The largest magnitude of the whole part of a time stamp in a text. -/
def stampBound : Nat := 9223372036854775807

def tooEarly : Shape.Cause :=
  .unreadableDate "dates before 0000 are not supported as unix timestamps"

def tooLate : Shape.Cause :=
  .unreadableDate "dates after 9999 are not supported as unix timestamps"

/-- The start of the year 0 and the end of the year 9999, in seconds since the start of 1970. -/
def secondsWithin : Int × Int := (-62167219200, 253402300799)

/-- The day on which a time stamp falls if it is midnight. -/
def ofStamp (s : Stamp) : Shape.Checked Date :=
  let (seconds, micros) : Int × Nat :=
    if s.whole.natAbs ≤ watershed then (s.whole, s.micros)
    else (s.whole.fdiv 1000, s.micros + (s.whole.fmod 1000).toNat * 1000)
  let seconds := seconds + (micros / 1000000 : Nat)
  if seconds < secondsWithin.1 then Shape.fail tooEarly
  else if secondsWithin.2 < seconds then Shape.fail tooLate
  else if seconds.fmod 86400 = 0 ∧ micros % 1000000 = 0 then .good (ofEpochDay (seconds.fdiv 86400))
  else Shape.fail .dateWithTime

/-- The time stamp next to a number of seconds, to the microsecond. -/
def Stamp.ofRat (r : Rat) : Stamp :=
  let fraction := if 0 ≤ r then r - r.floor else r.ceil - r
  ⟨r.floor, ((fraction * 1000000 + 1 / 2).floor).toNat⟩

/-- The time stamp that a text stands for: a sign, digits and perhaps a point with more digits. -/
def stamp? (cs : List Char) : Option Stamp :=
  let (negative, body) : Bool × List Char :=
    match cs with
    | '-' :: rest => (true, rest)
    | '+' :: rest => (false, rest)
    | cs => (false, cs)
  let (digits, rest) := Json.splitDigits body
  let whole := Json.digitsValue digits
  let signed (n : Int) (micros : Nat) : Stamp := ⟨if negative then -n else n, micros⟩
  if digits.isEmpty || stampBound < whole then none
  else
    match rest with
    | [] => some (signed whole 0)
    | '.' :: fraction =>
      let parts := Json.digitsValue fraction
      let unit := Nat.pow 10 fraction.length
      -- The whole part is rounded down, also below zero.
      let floor := if negative && parts ≠ 0 then whole + 1 else whole
      if fraction.all Char.isDigit then
        some (signed floor ((2 * 1000000 * parts + unit) / (2 * unit)))
      else none
    | _ => none

/-- The day of a point of the number line. -/
def ofPoint : Extended → Shape.Checked Date
  | .finite r => ofStamp (.ofRat r)
  | .below => Shape.fail tooEarly
  | .above => Shape.fail tooLate
  | .undefined => Shape.fail (.unreadableDate "NaN values not permitted")

/-! ## Values -/

/-- The day that a text stands for, given by its bytes. -/
def ofBytes (cs : List Char) : Shape.Checked Date :=
  match ofFront cs, stamp? cs with
  | .ok d, _ =>
    if cs.length = 10 then .good d
    else if cs[10]? ∈ ['T', 't', ' ', '_'].map some then
      match isMidnight (cs.drop 11) with
      | .ok true => .good d
      | .ok false => Shape.fail .dateWithTime
      | .error reason => Shape.fail (.unreadableDate reason)
    else Shape.fail (.unreadableDate "invalid datetime separator, expected `T`, `t`, `_` or space")
  | .error _, some s => ofStamp s
  | .error reason, none => Shape.fail (.unreadableDate reason)

def read : Shape.Reader Date
  | .str s => (Shape.encodable s).refine fun s => ofBytes ((Octets.ofText s).map Char.ofNat)
  | .num (.int n) =>
    -- An integer without a nearest float is no time stamp.
    match Shape.floatOfInt? n with
    | some _ => ofStamp ⟨n, 0⟩
    | none => Shape.fail .notDate
  | .num n => ofPoint n.exact
  | _ => Shape.fail .notDate

end Date

/-- A reporting window, both days included. -/
structure DateRange where
  first : Date
  last : Date
  deriving DecidableEq, Repr

namespace DateRange

def read : Shape.Reader DateRange :=
  Shape.record "DateRange" fun ms =>
    DateRange.mk <$> Shape.required ms "start" Date.read <*> Shape.required ms "end" Date.read

def toValue (r : DateRange) : Value :=
  .obj [("start", .str r.first.text), ("end", .str r.last.text)]

end DateRange

end Dashboards
