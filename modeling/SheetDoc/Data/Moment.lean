namespace SheetDoc

/-- A time of day. Its offset from the common time is in minutes. -/
structure TimeOfDay where
  hour : Nat
  minute : Nat
  second : Nat
  micro : Nat
  offset? : Option Int
  deriving DecidableEq, Repr

structure Moment where
  year : Nat
  month : Nat
  day : Nat
  time? : Option TimeOfDay
  deriving DecidableEq, Repr

namespace Moment

def isLeapYear (year : Nat) : Bool := year % 4 == 0 && (year % 100 != 0 || year % 400 == 0)

def daysOfMonth (year month : Nat) : Nat :=
  if month = 2 then if isLeapYear year then 29 else 28
  else if month = 4 ∨ month = 6 ∨ month = 9 ∨ month = 11 then 30
  else 31

def minutesOfDay : Nat := 24 * 60

/-- Whether the calendar has the moment. -/
def exists? (m : Moment) : Bool :=
  0 < m.year && 0 < m.month && m.month ≤ 12 && 0 < m.day && m.day ≤ daysOfMonth m.year m.month &&
    m.time?.all fun t =>
      t.hour < 24 && t.minute < 60 && t.second < 60 &&
        t.offset?.all fun offset => offset.natAbs < minutesOfDay

def numberOf (digits : List Char) : Nat :=
  digits.foldl (fun n c => n * 10 + (c.toNat - '0'.toNat)) 0

/-- A number of `least` to `most` digits, as many as there are. -/
def number? (least most : Nat) (s : List Char) : Option (Nat × List Char) :=
  let digits := (s.take most).takeWhile (·.isDigit)
  if least ≤ digits.length then some (numberOf digits, s.drop digits.length) else none

def expect? (c : Char) : List Char → Option (List Char)
  | d :: r => if d = c then some r else none
  | [] => none

def isSpace (c : Char) : Bool := c == ' ' || c == '\t'

/-- The digits of a fraction of a second, cut or filled up to six. -/
def fraction (s : List Char) : Nat × List Char :=
  match s with
  | '.' :: r =>
    let digits := r.takeWhile (·.isDigit)
    (numberOf (digits.take 6 ++ List.replicate (6 - digits.length) '0'), r.drop digits.length)
  | _ => (0, s)

/-- The offset at the end of a time. -/
def zone? (s : List Char) : Option (Option Int) :=
  match s.dropWhile isSpace with
  | [] => if s.isEmpty then some none else none
  | ['Z'] => some (some 0)
  | sign :: r => do
    guard (sign = '+' ∨ sign = '-')
    let (hours, r) ← number? 1 2 r
    let (minutes, r) ← if r.isEmpty then pure (0, []) else expect? ':' r >>= number? 2 2
    guard r.isEmpty
    let offset : Int := hours * 60 + minutes
    return some (if sign = '-' then -offset else offset)

def timeOfDay? (s : List Char) : Option TimeOfDay := do
  let (hour, s) ← number? 1 2 s
  let (minute, s) ← expect? ':' s >>= number? 2 2
  let (second, s) ← expect? ':' s >>= number? 2 2
  let (micro, s) := fraction s
  return ⟨hour, minute, second, micro, ← zone? s⟩

/-- A day, with a time behind a letter T or blanks, or without one. -/
def read? (s : List Char) : Option Moment := do
  let (year, s) ← number? 4 4 s
  let (month, s) ← expect? '-' s >>= number? 1 2
  let (day, s) ← expect? '-' s >>= number? 1 2
  match s with
  | [] => return ⟨year, month, day, none⟩
  | c :: r =>
    let timed ←
      if c = 'T' ∨ c = 't' then timeOfDay? r
      else if isSpace c then timeOfDay? (r.dropWhile isSpace)
      else none
    return ⟨year, month, day, some timed⟩

/-- A day alone is only taken for one when its month and its day have two digits. -/
def isPlain (s : List Char) : Bool := (read? s).any fun m => m.time?.isSome || s.length == 10

def padded (width n : Nat) : String :=
  let digits := Nat.toDigits 10 n
  String.ofList (List.replicate (width - digits.length) '0' ++ digits)

def offsetText (offset : Int) : String :=
  (if offset < 0 then "-" else "+") ++ padded 2 (offset.natAbs / 60) ++ ":" ++
    padded 2 (offset.natAbs % 60)

def TimeOfDay.text (t : TimeOfDay) : String :=
  padded 2 t.hour ++ ":" ++ padded 2 t.minute ++ ":" ++ padded 2 t.second ++
    (if t.micro = 0 then "" else "." ++ padded 6 t.micro) ++
    (match t.offset? with | some offset => offsetText offset | none => "")

def text (m : Moment) : String :=
  padded 4 m.year ++ "-" ++ padded 2 m.month ++ "-" ++ padded 2 m.day ++
    (match m.time? with | some t => " " ++ TimeOfDay.text t | none => "")

/-- An offset as days and seconds, of which only the days may be below zero. -/
def offsetLiteral (offset : Int) : String :=
  if offset = 0 then "datetime.timezone.utc"
  else
    let days := if offset < 0 then "days=-1, " else ""
    let seconds := (if offset < 0 then offset + minutesOfDay else offset) * 60
    "datetime.timezone(datetime.timedelta(" ++ days ++ "seconds=" ++ toString seconds ++ "))"

/-- Seconds are left out when they are zero, and so are their fractions. -/
def literal (m : Moment) : String :=
  let day := [m.year, m.month, m.day].map toString
  match m.time? with
  | none => "datetime.date(" ++ ", ".intercalate day ++ ")"
  | some t =>
    let seconds := if t.micro = 0 then if t.second = 0 then [] else [t.second]
      else [t.second, t.micro]
    let zone := match t.offset? with
      | some offset => ["tzinfo=" ++ offsetLiteral offset]
      | none => []
    let parts := day ++ ([t.hour, t.minute] ++ seconds).map toString ++ zone
    "datetime.datetime(" ++ ", ".intercalate parts ++ ")"

end Moment

end SheetDoc
