import SheetDoc.Block.Basic
import SheetDoc.Text.Blank
import SheetDoc.Text.Search

namespace SheetDoc

abbrev Line := List Char

def lineMarker : Line := ['/', '/', '/']

def posterMarker : Line := ['/', '/', '/', '/']

def blockOpen : Line := ['/', '*', '*']

def blockClose : Line := ['*', '/']

inductive CommentStyle
  | lines
  | poster
  | block
  deriving DecidableEq, Repr

/-- The style of the documentation comment that a line opens. An empty block comment opens none. -/
def commentStyle? (line : Line) : Option CommentStyle :=
  let body := Text.trimLeft line
  if Text.startsWith posterMarker body then some .poster
  else if Text.startsWith lineMarker body then some .lines
  else if Text.startsWith blockOpen body && !Text.startsWith ['/', '*', '*', '/'] body then
    some .block
  else none

def dropSpace : Line → Line
  | ' ' :: r => r
  | s => s

/-- The text after the marker of a line and one space. -/
def dropMarker (line : Line) : Line :=
  let body := Text.trimLeft line
  dropSpace (body.drop (if Text.startsWith posterMarker body then 4 else 3))

/-- A line of four or more slashes and nothing else. -/
def isDelimiter (line : Line) : Bool :=
  let body := Text.trim line
  body.all (· == '/') && Text.startsWith posterMarker body

/-- The lines of a comment without markers, and how many lines after the first it takes up. -/
structure CommentLines where
  text : List Line
  more : Nat

def readLines (first : Line) (rest : List Line) : CommentLines :=
  let run := rest.takeWhile fun l => commentStyle? l == some .lines
  { text := (first :: run).map dropMarker, more := run.length }

/-- Collects the lines of a poster after the first one. A delimited poster runs over all comment
lines and takes its closing delimiter along; another one runs over poster lines only. -/
def posterLines (delimited : Bool) : List Line → CommentLines
  | [] => ⟨[], 0⟩
  | l :: r =>
    let body := Text.trimLeft l
    if !Text.startsWith lineMarker body then ⟨[], 0⟩
    else if isDelimiter l then ⟨[], if delimited then 1 else 0⟩
    else if !delimited && !Text.startsWith posterMarker body then ⟨[], 0⟩
    else
      let run := posterLines delimited r
      ⟨dropMarker l :: run.text, run.more + 1⟩

def readPoster (first : Line) (rest : List Line) : CommentLines :=
  let delimited := isDelimiter first
  let run := posterLines delimited rest
  { text := if delimited then run.text else dropMarker first :: run.text, more := run.more }

/-- How many lines it takes to reach the end of a block comment; an open one takes all. -/
def linesToClose : List Line → Nat
  | [] => 0
  | l :: r => if Text.occurs blockClose l then 1 else linesToClose r + 1

/-- A line inside a block comment without its gutter. -/
def dropGutter (line : Line) : Line :=
  let body := Text.cutBefore blockClose (Text.trimLeft line)
  Text.trimRight (dropSpace (match body with | '*' :: r => r | s => s))

def dropBlankEnd (ls : List Line) : List Line := (ls.reverse.dropWhile Text.allBlank).reverse

def readBlock (first : Line) (rest : List Line) : CommentLines :=
  let opened := (Text.trimLeft first).drop blockOpen.length
  let more := if Text.occurs blockClose opened then 0 else linesToClose rest
  let head := Text.trimRight (dropSpace (Text.cutBefore blockClose opened))
  { text := dropBlankEnd (head :: (rest.take more).map dropGutter), more := more }

def CommentStyle.read : CommentStyle → Line → List Line → CommentLines
  | lines => readLines
  | poster => readPoster
  | block => readBlock

/-- A line of code without its comment. Slashes after a colon belong to an address, and then the
whole line stays. -/
def withoutComment (line : Line) : Line :=
  let code := Text.cutBefore ['/', '/'] line
  if code.getLast? = some ':' then line else code

/-- The lines of a construct: up to the line that closes its body, or that ends its statement. -/
def constructLines (depth : Int) (opened : Bool) : List Line → List Line
  | [] => []
  | l :: r =>
    let code := withoutComment l
    let depth := depth + code.count '\x7b' - code.count '\x7d'
    let opened := opened || code.contains '\x7b'
    if depth ≤ 0 && (opened || code.contains ';') then [l]
    else l :: constructLines depth opened r

/-- The lines of the construct after a comment, and how many blank lines stand before it. A
comment documents nothing when another comment follows it. -/
def constructAfter? (rest : List Line) : Option (Nat × List Line) :=
  match rest.dropWhile Text.allBlank with
  | [] => none
  | head :: tail =>
    let body := Text.trimLeft head
    if Text.startsWith ['/', '/'] body || Text.startsWith ['/', '*'] body then none
    else some ((rest.takeWhile Text.allBlank).length, constructLines 0 false (head :: tail))

/-- Adds the construct that follows a comment; `number` is the first line after the comment. -/
def Block.withCode (block : Block) (number : Nat) (rest : List Line) : Block :=
  match constructAfter? rest with
  | none => block
  | some (blanks, code) =>
    { block with
      code := String.ofList (Text.unlines code)
      codeStart := some (number + blanks : Nat)
      codeEnd := some ((number + blanks + code.length : Nat) - 1) }

theorem Block.commentStart_withCode (b : Block) (number : Nat) (rest : List Line) :
    (b.withCode number rest).commentStart = b.commentStart := by
  unfold withCode
  split <;> rfl

theorem Block.poster_withCode (b : Block) (number : Nat) (rest : List Line) :
    (b.withCode number rest).poster = b.poster := by
  unfold withCode
  split <;> rfl

theorem Block.comment_withCode (b : Block) (number : Nat) (rest : List Line) :
    (b.withCode number rest).comment = b.comment := by
  unfold withCode
  split <;> rfl

/-- The blocks of the given lines, the first of which has the given number. The code after a
comment is scanned again, since comments may stand inside it. -/
def scanLines (number : Nat) : List Line → List Block
  | [] => []
  | line :: rest =>
    match commentStyle? line with
    | none => scanLines (number + 1) rest
    | some style =>
      let found := style.read line rest
      let after := rest.drop found.more
      let next := number + 1 + found.more
      let block : Block :=
        { comment := String.ofList (Text.unlines found.text), code := "", commentStart := number
          poster := style == .poster }
      (if style == .poster then block else block.withCode next after) :: scanLines next after
termination_by ls => ls.length

/-- The documentation blocks of a stylesheet in order. Lines count from one. -/
def scanBlocks (text : String) : List Block :=
  scanLines 1 (Text.lines (Text.unifyLineEnds text.toList))

end SheetDoc
