import RouteCatalog.Text.Quoted

/-!
# Dates and times

Days of the calendar from year 1 to year 9999, and times on such a day to the microsecond, perhaps
with an offset from universal time. A written timestamp is either a day alone or a day and a time.

Whether a text has the form of a timestamp is decided first; that its numbers name a day and a time
that exist is a second question, with faults of its own.
-/

namespace RouteCatalog.Yaml

/-- A day. -/
structure Date where
  year : Nat
  month : Nat
  day : Nat
  deriving DecidableEq

/-- A time on a day. -/
structure Time where
  date : Date
  hour : Nat
  minute : Nat
  second : Nat
  micro : Nat
  /-- The offset from universal time, in minutes. -/
  offset : Option Int
  deriving DecidableEq

namespace Timestamp

/-- Why the numbers of a timestamp name nothing. -/
inductive Fault
  | year (year : Nat)
  | month
  | day
  | hour
  | minute
  | second
  /-- The offset is a day or more. -/
  | offset (minutes : Int)
  deriving DecidableEq

/-- The length of a time span as days and seconds, as messages write it. -/
def spanText (minutes : Int) : Text :=
  let days := Int.fdiv minutes 1440
  let seconds := Int.fmod minutes 1440 * 60
  let daysText : Text := if days = 0 then [] else "days=" ++ Text.ofInt days
  let secondsText : Text := if seconds = 0 then [] else "seconds=" ++ Text.ofInt seconds
  let parts := [daysText, secondsText].filter (!·.isEmpty)
  let span : Text := if parts.isEmpty then "0" else Text.join ", " parts
  "datetime.timedelta(" ++ span ++ ")"

def Fault.message : Fault → Text
  | .year n => "year " ++ Text.ofNat n ++ " is out of range"
  | .month => "month must be in 1..12"
  | .day => "day is out of range for month"
  | .hour => "hour must be in 0..23"
  | .minute => "minute must be in 0..59"
  | .second => "second must be in 0..59"
  | .offset minutes =>
    "offset must be a timedelta strictly between -timedelta(hours=24) and timedelta(hours=24), not "
      ++ spanText minutes ++ "."

def isLeap (year : Nat) : Bool := year % 4 = 0 && (year % 100 ≠ 0 || year % 400 = 0)

def daysIn (year month : Nat) : Nat :=
  if month = 2 then (if isLeap year then 29 else 28)
  else if month = 4 || month = 6 || month = 9 || month = 11 then 30
  else 31

/-- The day with the given numbers, if there is one. -/
def date (year month day : Nat) : Except Fault Date :=
  if year = 0 then .error (.year year)
  else if month = 0 || 12 < month then .error .month
  else if day = 0 || daysIn year month < day then .error .day
  else .ok ⟨year, month, day⟩

/-- The time with the given numbers, if there is one. -/
def time (year month day hour minute second micro : Nat) (offset : Option Int) :
    Except Fault Time := do
  match offset with
  | some minutes => if 1440 ≤ minutes.natAbs then .error (.offset minutes)
  | none => pure ()
  let date ← date year month day
  if 23 < hour then .error .hour
  if 59 < minute then .error .minute
  if 59 < second then .error .second
  return ⟨date, hour, minute, second, micro, offset⟩

/-! ## Written timestamps -/

/-- The written numbers of a time of day. -/
structure Clock where
  hour : Nat
  minute : Nat
  second : Nat
  micro : Nat
  offset : Option Int

/-- The written numbers of a timestamp. -/
structure Written where
  year : Nat
  month : Nat
  day : Nat
  /-- The month and the day have two digits each. -/
  twoDigits : Bool
  clock : Option Clock

/-- Between `least` and `most` ASCII digits at the front of a text, as many as there are: their
value, their number, and the rest. -/
def digits? (least most : Nat) (t : Text) : Option (Nat × Nat × Text) :=
  let found := (t.take most).takeWhile CodePoint.isAsciiDigit
  if found.length < least then none
  else some (Numeral.value 10 (found.map fun c ↦ c.toNat - 0x30), found.length,
    t.drop found.length)

/-- A blank or a tab. -/
def isSpace (c : CodePoint) : Bool := c = ' ' || c = '\t'

/-- A fraction of a second, in microseconds; digits beyond the sixth are dropped. -/
def fraction (t : Text) : Nat × Text :=
  match t with
  | [] => (0, [])
  | c :: rest =>
    if c = '.' then
      let found := rest.takeWhile CodePoint.isAsciiDigit
      let kept := found.take 6
      (Numeral.value 10 (kept.map fun c ↦ c.toNat - 0x30) * Nat.pow 10 (6 - kept.length),
        rest.drop found.length)
    else (0, t)

/-- An offset that ends the text; an empty text has none. -/
def offset? (t : Text) : Option (Option Int) :=
  if t.isEmpty then some none
  else match t.dropWhile isSpace with
    | [] => none
    | c :: rest =>
      if c = 'Z' then (if rest.isEmpty then some (some 0) else none)
      else if c = '+' || c = '-' then do
        let (hours, _, rest) ← digits? 1 2 rest
        let (minutes, rest) ←
          if Text.startsWith ":" rest then
            (digits? 2 2 (rest.drop 1)).map fun (n, _, rest) ↦ (n, rest)
          else some (0, rest)
        let total : Int := hours * 60 + minutes
        if rest.isEmpty then some (some (if c = '-' then -total else total)) else none
      else none

/-- The time of day after a day. -/
def clock? (t : Text) : Option Clock := do
  let t ←
    match t with
    | [] => none
    | c :: rest =>
      if c = 'T' || c = 't' then some rest
      else if isSpace c then some (rest.dropWhile isSpace)
      else none
  let (hour, _, t) ← digits? 1 2 t
  let t ← Text.dropLiteral? ":" t
  let (minute, _, t) ← digits? 2 2 t
  let t ← Text.dropLiteral? ":" t
  let (second, _, t) ← digits? 2 2 t
  let (micro, t) := fraction t
  let offset ← offset? t
  return ⟨hour, minute, second, micro, offset⟩

def withoutLineFeed (t : Text) : Text := if t.getLast? = some '\n' then t.dropLast else t

/-- The numbers of a text that has the form of a timestamp. A line feed may end it. -/
def written? (t : Text) : Option Written := do
  let t := withoutLineFeed t
  let (year, _, t) ← digits? 4 4 t
  let t ← Text.dropLiteral? "-" t
  let (month, monthWidth, t) ← digits? 1 2 t
  let t ← Text.dropLiteral? "-" t
  let (day, dayWidth, t) ← digits? 1 2 t
  let twoDigits := monthWidth = 2 && dayWidth = 2
  if t.isEmpty then return ⟨year, month, day, twoDigits, none⟩
  else return ⟨year, month, day, twoDigits, some (← clock? t)⟩

/-- The text is taken for a timestamp where it stands without a tag: a day alone needs a month and a
day of two digits. -/
def isPlain (t : Text) : Bool :=
  match written? t with
  | some w => w.twoDigits || w.clock.isSome
  | none => false

/-! ## Instants -/

def dayNumber (d : Date) : Nat :=
  let past := d.year - 1
  365 * past + past / 4 - past / 100 + past / 400 +
    (List.range (d.month - 1)).foldr (fun m days ↦ daysIn d.year (m + 1) + days) 0 + (d.day - 1)

/-- The microseconds from the first day of year 1 to a time, by its own clock. -/
def microseconds (t : Time) : Nat :=
  (((dayNumber t.date * 24 + t.hour) * 60 + t.minute) * 60 + t.second) * 1000000 + t.micro

/-- Two times are the same instant. A time without an offset is comparable only with its like. -/
def sameInstant (a b : Time) : Bool :=
  match a.offset, b.offset with
  | some m, some n =>
    (microseconds a : Int) - m * 60000000 = (microseconds b : Int) - n * 60000000
  | none, none => a = b
  | _, _ => false

end Timestamp

/-! ## Texts -/

def Date.text (d : Date) : Text :=
  Text.padded 4 d.year ++ "-" ++ Text.padded 2 d.month ++ "-" ++ Text.padded 2 d.day

def offsetText : Option Int → Text
  | none => []
  | some minutes =>
    let sign : Text := if minutes < 0 then "-" else "+"
    sign ++ Text.padded 2 (minutes.natAbs / 60) ++ ":" ++ Text.padded 2 (minutes.natAbs % 60)

/-- The text of a time, with a separator between the day and the time of day. -/
def Time.text (separator : Text) (t : Time) : Text :=
  let micro : Text := if t.micro = 0 then [] else "." ++ Text.padded 6 t.micro
  t.date.text ++ separator ++ Text.padded 2 t.hour ++ ":" ++ Text.padded 2 t.minute ++ ":" ++
    Text.padded 2 t.second ++ micro ++ offsetText t.offset

def Date.literal (d : Date) : Text :=
  "datetime.date(" ++ Text.join ", " ([d.year, d.month, d.day].map Text.ofNat) ++ ")"

def Time.literal (t : Time) : Text :=
  let required := [t.date.year, t.date.month, t.date.day, t.hour, t.minute]
  let seconds :=
    if t.micro ≠ 0 then [t.second, t.micro] else if t.second ≠ 0 then [t.second] else []
  let zone : List Text :=
    match t.offset with
    | none => []
    | some 0 => ["tzinfo=datetime.timezone.utc"]
    | some minutes => ["tzinfo=datetime.timezone(" ++ Timestamp.spanText minutes ++ ")"]
  "datetime.datetime(" ++ Text.join ", " ((required ++ seconds).map Text.ofNat ++ zone) ++ ")"

end RouteCatalog.Yaml
