import SheetDoc.Yaml.Cursor

namespace SheetDoc.Yaml.Plain

def isFlowIndicator (c : Char) : Bool :=
  c == ',' || c == '[' || c == ']' || c == '\x7b' || c == '\x7d'

/-- A colon ends a plain scalar when it can be followed by a value. -/
def isValueMark (flow : Bool) (c : Char) (after : List Char) : Bool :=
  c == ':' && (atBlankOrEnd after || flow && after.head?.any isFlowIndicator)

/-- Whether a plain scalar can begin with the first of the characters. -/
def startsHere (flow : Bool) : List Char → Bool
  | [] => false
  | c :: r =>
    if c == '-' then !atBlankOrEnd r
    else if c == '?' || c == ':' then !flow && !atBlankOrEnd r
    else
      !(isBlank c || isFlowIndicator c || c.toNat == 0x60 ||
        ['#', '&', '*', '!', '|', '>', '\'', '"', '%', '@'].contains c)

/-- The characters up to the next blank or indicator. -/
def word (flow : Bool) : List Char → List Char
  | [] => []
  | c :: r =>
    if isBlank c || isValueMark flow c r || flow && (isFlowIndicator c || c == '?') then []
    else c :: word flow r

/-- What separates two words of a scalar. -/
structure Gap where
  /-- What it stands for in the scalar, empty when the scalar cannot go on. -/
  text : List Char
  broken : Bool
  after : Cursor

/-- The line breaks among spaces. A mark of a document ends the search. -/
def breaksFrom (c : Cursor) (breaks : List Char) : List Char → List Char × Cursor
  | [] => (breaks, c)
  | d :: r =>
    if c.atDocumentMark then (breaks, c)
    else if isBreak d then breaksFrom c.step (breaks ++ [breakChar d]) r
    else if d == ' ' then breaksFrom c.step breaks r
    else (breaks, c)

def gap (c : Cursor) : Gap :=
  let (spaces, after) := c.span (· == ' ')
  if atBreak after.rest then
    let (breaks, after) := breaksFrom after [] after.rest
    ⟨if after.atDocumentMark then [] else foldedBreaks breaks, true, after⟩
  else ⟨spaces, false, after⟩

/-- The words from a place on. -/
def wordsFrom (flow : Bool) (indent : Int) :
    (fuel : Nat) → (between : Gap) → List Char × Gap
  | 0, between => ([], between)
  | fuel + 1, between =>
    let first := word flow between.after.rest
    if first.isEmpty then ([], between)
    else
      let next := gap (between.after.forward first.length)
      let ends := next.text.isEmpty || next.after.rest.head? == some '#' ||
        !flow && (next.after.column : Int) < indent
      if ends then (between.text ++ first, next)
      else
        let (more, last) := wordsFrom flow indent fuel next
        (between.text ++ first ++ more, last)

/-- The scalar at a place, with what follows it. Its lines stand at least at the indentation. -/
def read (flow : Bool) (indent : Int) (c : Cursor) : List Char × Gap :=
  wordsFrom flow indent (c.rest.length + 1) ⟨[], false, c⟩

end SheetDoc.Yaml.Plain
