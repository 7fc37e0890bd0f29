import SheetDoc.Yaml.Cursor
import SheetDoc.Yaml.Digits
import SheetDoc.Yaml.Fault

namespace SheetDoc.Yaml.BlockScalar

/-- What becomes of the line breaks at the end of a scalar. -/
inductive Chomping
  | strip
  | clip
  | keep
  deriving DecidableEq

structure Header where
  chomping : Chomping
  /-- How much deeper than the enclosing block the lines stand; without it, the first line
  shows. -/
  deeper? : Option Nat

def chomping? : List Char → Option Chomping
  | '+' :: _ => some .keep
  | '-' :: _ => some .strip
  | _ => none

/-- A digit other than zero, if there is a digit. -/
def deeper (s : List Char) : Except Fault (Option Nat) :=
  match s with
  | c :: _ =>
    if !c.isDigit then .ok none
    else if c = '0' then .error .malformed
    else .ok (some (digitValue c))
  | [] => .ok none

/-- The header behind the bar or the angle: a sign and a digit in either order. -/
def header (c : Cursor) : Except Fault (Header × Cursor) := do
  let early := chomping? c.rest
  let c := if early.isSome then c.step else c
  let digit ← deeper c.rest
  let c := if digit.isSome then c.step else c
  let late := if early.isNone && digit.isSome then chomping? c.rest else none
  let c := if late.isSome then c.step else c
  if !atSpaceOrEnd c.rest then .error .malformed
  else return ({ chomping := (early.or late).getD .clip, deeper? := digit }, c)

/-- Only a comment may follow on the line of the header. -/
def endOfLine (c : Cursor) : Except Fault Cursor :=
  let c := c.skipSpaces
  let c := if c.rest.head? = some '#' then c.skipLine else c
  if atBreakOrEnd c.rest then .ok c.step else .error .malformed

/-- Line breaks in front of the first line, and the greatest column that their spaces reach. -/
def indentationFrom (c : Cursor) (breaks : List Char) (column : Nat) :
    List Char → List Char × Nat × Cursor
  | [] => (breaks, column, c)
  | d :: r =>
    if d == ' ' then indentationFrom c.step breaks (max column c.step.column) r
    else if isBreak d then indentationFrom c.step (breaks ++ [breakChar d]) column r
    else (breaks, column, c)

/-- The line breaks in front of the next line that stands at the column. -/
def breaksFrom (column : Nat) (c : Cursor) (breaks : List Char) : List Char → List Char × Cursor
  | [] => (breaks, c)
  | d :: r =>
    if d == ' ' && c.column < column then breaksFrom column c.step breaks r
    else if isBreak d then breaksFrom column c.step (breaks ++ [breakChar d]) r
    else (breaks, c)

/-- The text of the last line break and of the breaks after it, as far as it stays. -/
def ending (chomping : Chomping) (last breaks : List Char) : List Char :=
  match chomping with
  | .strip => []
  | .clip => last
  | .keep => last ++ breaks

/-- The lines from a place on, in front of which the breaks stand. -/
def linesFrom (folded : Bool) (chomping : Chomping) (column : Nat) :
    (fuel : Nat) → (breaks : List Char) → Cursor → List Char × Cursor
  | 0, _, c => ([], c)
  | fuel + 1, breaks, c =>
    let (line, lineEnd) := c.span fun d => !isBreak d
    let last := (lineEnd.rest.head?.map breakChar).toList
    let (after, next) := breaksFrom column lineEnd.step [] lineEnd.step.rest
    if next.column = column && !next.rest.isEmpty then
      let joined := folded && last == ['\n'] && !c.rest.head?.any isSpaceOrTab &&
        !next.rest.head?.any isSpaceOrTab
      let between := if !joined then last else if after.isEmpty then [' '] else []
      let (more, place) := linesFrom folded chomping column fuel after next
      (breaks ++ line ++ between ++ more, place)
    else (breaks ++ line ++ ending chomping last after, next)

/-- The scalar at its bar or angle, inside a block at the indentation. -/
def read (folded : Bool) (indent : Int) (c : Cursor) : Except Fault (List Char × Cursor) := do
  let (header, c) ← header c.step
  let c ← endOfLine c
  let least := (max 1 (indent + 1)).toNat
  let (column, breaks, first) :=
    match header.deeper? with
    | some deeper =>
      let column := least + deeper - 1
      (column, breaksFrom column c [] c.rest)
    | none =>
      let (breaks, reached, first) := indentationFrom c [] 0 c.rest
      (max least reached, breaks, first)
  if first.column = column && !first.rest.isEmpty then
    return linesFrom folded header.chomping column (first.rest.length + 1) breaks first
  else return (ending header.chomping [] breaks, first)

end SheetDoc.Yaml.BlockScalar
