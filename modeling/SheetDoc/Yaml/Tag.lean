import SheetDoc.Binary64.Reading
import SheetDoc.Data.Moment
import SheetDoc.Text.Lines
import SheetDoc.Text.Search
import SheetDoc.Yaml.Digits

namespace SheetDoc.Yaml

inductive Tag
  | null
  | bool
  | int
  | float
  | text
  | moment
  | sequence
  | mapping
  /-- The key whose value is merged into its mapping. -/
  | merge
  /-- The key of the value that a mapping has as a scalar. -/
  | default
  /-- A tag that no value can be made for. -/
  | unknown
  deriving DecidableEq, Repr

namespace Tag

/-- What stands before the names of the tags that the format defines. -/
def space : String := "tag:yaml.org,2002:"

def ofName? : List (String × Tag) :=
  [("null", null), ("bool", bool), ("int", int), ("float", float), ("str", text),
    ("timestamp", moment), ("seq", sequence), ("map", mapping), ("merge", merge),
    ("value", default)]

/-- The tag with a full name. -/
def ofText (name : String) : Tag :=
  ((ofName?.find? fun e => space ++ e.1 == name).map (·.2)).getD unknown

def truthWords : List String :=
  ["yes", "Yes", "YES", "true", "True", "TRUE", "on", "On", "ON",
    "no", "No", "NO", "false", "False", "FALSE", "off", "Off", "OFF"]

def nullWords : List String := ["", "~", "null", "Null", "NULL"]

def notANumberWords : List String := [".nan", ".NaN", ".NAN"]

def infiniteWords : List String := [".inf", ".Inf", ".INF"]

def dropSign (s : List Char) : List Char := (Binary64.takeSign s).2

/-- At least one character, all of them digits of a base or low lines. -/
def areDigits (base : Nat) (s : List Char) : Bool :=
  !s.isEmpty && s.all fun c => isDigitOf base c || c == '_'

/-- Decimal digits, of which the first is no low line. -/
def startsAsDigits (s : List Char) : Bool := s.head?.any (·.isDigit) && areDigits 10 s

/-- A part below sixty, as minutes and seconds are. -/
def isSixtieth (s : List Char) : Bool :=
  match s with
  | [c] => c.isDigit
  | [c, d] => '0' ≤ c && c ≤ '5' && d.isDigit
  | _ => false

/-- A number followed by parts below sixty, with colons between them. -/
def isSexagesimal (s : List Char) : Bool :=
  match Text.splitOn ':' s with
  | first :: part :: parts => startsAsDigits first && (part :: parts).all isSixtieth
  | _ => false

def isWhole (s : List Char) : Bool :=
  match dropSign s with
  | '0' :: 'b' :: r => areDigits 2 r
  | '0' :: 'x' :: r => areDigits 16 r
  | ['0'] => true
  | '0' :: r => areDigits 8 r
  | r => startsAsDigits r || isSexagesimal r

/-- An exponent with its sign, or nothing. -/
def isExponent : List Char → Bool
  | [] => true
  | e :: sign :: r =>
    (e == 'e' || e == 'E') && (sign == '-' || sign == '+') && !r.isEmpty && r.all (·.isDigit)
  | _ => false

/-- What may follow the point of a number. -/
def isFraction (s : List Char) : Bool :=
  isExponent (s.dropWhile fun c => c.isDigit || c == '_')

def isReal (s : List Char) : Bool :=
  match s with
  | '.' :: r =>
    (r.head?.any (·.isDigit) && isFraction r) || notANumberWords.contains (String.ofList s)
  | _ =>
    match Text.breakAt? '.' (dropSign s) with
    | some (whole, fraction) =>
      (startsAsDigits whole && isFraction fraction) ||
        (isSexagesimal whole && fraction.all fun c => c.isDigit || c == '_')
    | none => false

/-- An infinite number, with a sign or without one. -/
def isInfinite (s : List Char) : Bool := infiniteWords.contains (String.ofList (dropSign s))

/-- The tag of a plain scalar. -/
def ofPlain (text : String) : Tag :=
  let s := text.toList
  if truthWords.contains text then bool
  else if isReal s || isInfinite s then float
  else if isWhole s then int
  else if text == "<<" then merge
  else if nullWords.contains text then null
  else if Moment.isPlain s then moment
  else if text == "=" then default
  else Tag.text

end Tag

end SheetDoc.Yaml
