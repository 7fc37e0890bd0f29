import SheetDoc.Text.Search

namespace SheetDoc.Yaml

def isBreak (c : Char) : Bool :=
  c == '\n' || c.toNat == 0x85 || c.toNat == 0x2028 || c.toNat == 0x2029

/-- What a line break is inside a scalar. The separators of lines and paragraphs stay as they
are. -/
def breakChar (c : Char) : Char := if c.toNat = 0x85 then '\n' else c

def isSpaceOrTab (c : Char) : Bool := c == ' ' || c == '\t'

/-- A mark of the byte order has no width. -/
def isOrderMark (c : Char) : Bool := c.toNat == 0xFEFF

def isBlank (c : Char) : Bool := isSpaceOrTab c || isBreak c

def atBreak (s : List Char) : Bool := s.head?.any isBreak

def atBreakOrEnd (s : List Char) : Bool := s.head?.all isBreak

/-- A blank, a line break or the end of the text. -/
def atBlankOrEnd (s : List Char) : Bool := s.head?.all isBlank

/-- As before, but a tab does not count. -/
def atSpaceOrEnd (s : List Char) : Bool := s.head?.all fun c => c == ' ' || isBreak c

/-- The letters of names: of anchors, of directives and of the handles of tags. -/
def isNameChar (c : Char) : Bool :=
  c.isAlphanum || c == '-' || c == '_'

/-- The text from a place on. -/
structure Cursor where
  rest : List Char
  index : Nat := 0
  line : Nat := 0
  column : Nat := 0

namespace Cursor

/-- Moves over one character. -/
def step (c : Cursor) : Cursor :=
  match c.rest with
  | [] => c
  | d :: r =>
    if isBreak d then ⟨r, c.index + 1, c.line + 1, 0⟩
    else ⟨r, c.index + 1, c.line, if isOrderMark d then c.column else c.column + 1⟩

def forward (c : Cursor) : Nat → Cursor
  | 0 => c
  | n + 1 => c.step.forward n

/-- The characters at a place that satisfy `p`, and the place behind them. -/
def span (p : Char → Bool) (c : Cursor) : List Char × Cursor :=
  let taken := c.rest.takeWhile p
  (taken, c.forward taken.length)

def skipSpaces (c : Cursor) : Cursor := (c.span (· == ' ')).2

/-- Moves to the next line break. -/
def skipLine (c : Cursor) : Cursor := (c.span fun d => !isBreak d).2

/-- A mark of a document's start or end stands at the beginning of a line. -/
def atMark (mark : List Char) (c : Cursor) : Bool :=
  c.column == 0 && Text.startsWith mark c.rest && atBlankOrEnd (c.rest.drop 3)

def atStartMark (c : Cursor) : Bool := c.atMark ['-', '-', '-']

def atEndMark (c : Cursor) : Bool := c.atMark ['.', '.', '.']

def atDocumentMark (c : Cursor) : Bool := c.atStartMark || c.atEndMark

def gapsFrom (comment broken : Bool) (c : Cursor) : List Char → Cursor × Bool
  | [] => (c, broken)
  | d :: r =>
    if isBreak d then gapsFrom false true c.step r
    else if comment || d == '#' then gapsFrom true broken c.step r
    else if d == ' ' then gapsFrom false broken c.step r
    else (c, broken)

/-- Skips spaces, comments and line breaks, and tells whether a line break was among them. -/
def skipGaps (c : Cursor) : Cursor × Bool := gapsFrom false false c c.rest

end Cursor

/-- What line breaks stand for inside a flowing scalar: one line feed is a space, after other
breaks the first line feed goes. -/
def foldedBreaks : List Char → List Char
  | [] => []
  | first :: others =>
    if first ≠ '\n' then first :: others else if others.isEmpty then [' '] else others

end SheetDoc.Yaml
