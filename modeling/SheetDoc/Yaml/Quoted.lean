import SheetDoc.Text.Surrogate
import SheetDoc.Yaml.Cursor
import SheetDoc.Yaml.Digits
import SheetDoc.Yaml.Fault

namespace SheetDoc.Yaml.Quoted

/-- Escapes of one character. -/
def simpleEscape? : Char → Option Char
  | '0' => some (Char.ofNat 0)
  | 'a' => some (Char.ofNat 7)
  | 'b' => some (Char.ofNat 8)
  | 't' => some '\t'
  | '\t' => some '\t'
  | 'n' => some '\n'
  | 'v' => some (Char.ofNat 11)
  | 'f' => some (Char.ofNat 12)
  | 'r' => some '\r'
  | 'e' => some (Char.ofNat 27)
  | ' ' => some ' '
  | '"' => some '"'
  | '\\' => some '\\'
  | '/' => some '/'
  | 'N' => some (Char.ofNat 0x85)
  | '_' => some (Char.ofNat 0xA0)
  | 'L' => some (Char.ofNat 0x2028)
  | 'P' => some (Char.ofNat 0x2029)
  | _ => none

/-- How many hexadecimal digits follow the letter of an escape. -/
def codeLength? : Char → Option Nat
  | 'x' => some 2
  | 'u' => some 4
  | 'U' => some 8
  | _ => none

/-- The character with the code that an escape names. -/
def charOfCode (code : Nat) : Except Fault Char :=
  if code < 0x110000 then .ok (Text.charOfCode code)
  else if code < 0x80000000 then .error .unreadable
  else .error .codeTooLarge

/-- The character of an escape behind its backslash, and the length of the escape. -/
def escape : List Char → Except Fault (Char × Nat)
  | [] => .error .malformed
  | c :: r =>
    match simpleEscape? c, codeLength? c with
    | some d, _ => .ok (d, 1)
    | none, some n =>
      let digits := r.take n
      if digits.length = n && digits.all isHexDigit then do
        return (← charOfCode (digitsValue 16 digits), n + 1)
      else .error .malformed
    | none, none => .error .malformed

/-- The line breaks among blanks. No mark of a document may stand at the beginning of a line. -/
def breaksFrom (c : Cursor) (breaks : List Char) : List Char → Except Fault (List Char × Cursor)
  | [] => .ok (breaks, c)
  | d :: r =>
    if c.atDocumentMark then .error .malformed
    else if isBreak d then breaksFrom c.step (breaks ++ [breakChar d]) r
    else if isSpaceOrTab d then breaksFrom c.step breaks r
    else .ok (breaks, c)

/-- The scalar from a place behind its opening quote on, with the place behind the closing one. -/
def textFrom (double : Bool) : (fuel : Nat) → Cursor → Except Fault (List Char × Cursor)
  | 0, _ => .error .malformed
  | fuel + 1, c =>
    let more (text : List Char) (next : Cursor) : Except Fault (List Char × Cursor) := do
      let (rest, last) ← textFrom double fuel next
      return (text ++ rest, last)
    match c.rest with
    | [] => .error .malformed
    | '\'' :: '\'' :: _ => if double then more ['\''] c.step else more ['\''] (c.forward 2)
    | '\\' :: r =>
      if !double then more ['\\'] c.step
      else if atBreak r then do
        let next := c.forward 2
        let (breaks, next) ← breaksFrom next [] next.rest
        more breaks next
      else do
        let (d, length) ← escape r
        more [d] (c.forward (length + 1))
    | d :: _ =>
      if d == if double then '"' else '\'' then .ok ([], c.step)
      else if isBlank d then do
        let (spaces, next) := c.span isSpaceOrTab
        if atBreak next.rest then
          let (breaks, next) ← breaksFrom next [] next.rest
          more (foldedBreaks breaks) next
        else more spaces next
      else more [d] c.step

/-- The scalar that begins with the quote at a place. -/
def read (double : Bool) (c : Cursor) : Except Fault (List Char × Cursor) :=
  textFrom double (c.rest.length + 1) c.step

end SheetDoc.Yaml.Quoted
