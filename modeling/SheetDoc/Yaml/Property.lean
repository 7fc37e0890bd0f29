import SheetDoc.Text.Utf8
import SheetDoc.Yaml.Cursor
import SheetDoc.Yaml.Digits
import SheetDoc.Yaml.Fault
import SheetDoc.Yaml.Token

namespace SheetDoc.Yaml

/-- A name of at least one letter. -/
def readName (c : Cursor) : Except Fault (String × Cursor) :=
  let (name, after) := c.span isNameChar
  if name.isEmpty then .error .malformed else .ok (String.ofList name, after)

/-- The name behind the mark of an anchor or an alias. -/
def readAnchor (c : Cursor) : Except Fault (String × Cursor) := do
  let (name, after) ← readName c.step
  let closed := after.rest.head?.all fun d =>
    isBlank d || d.toNat == 0x60 || ['?', ':', ',', ']', '\x7d', '%', '@'].contains d
  if closed then return (name, after) else .error .malformed

def isTagChar (c : Char) : Bool :=
  c.isAlphanum || ['-', ';', '/', '?', ':', '@', '&', '=', '+', '$', ',', '_', '.', '!', '~', '*',
    '\'', '(', ')', '[', ']', '%'].contains c

/-- The bytes of percent escapes in a row, and what follows them. -/
def percentBytes : List Char → Except Fault (List UInt8 × List Char)
  | '%' :: a :: b :: r =>
    if isHexDigit a && isHexDigit b then do
      let (bytes, rest) ← percentBytes r
      return (UInt8.ofNat (digitsValue 16 [a, b]) :: bytes, rest)
    else .error .malformed
  | '%' :: _ => .error .malformed
  | s => .ok ([], s)

/-- Percent escapes stand for the bytes of characters. -/
def unescapeTag : (fuel : Nat) → List Char → Except Fault (List Char)
  | 0, _ => .error .malformed
  | _, [] => .ok []
  | fuel + 1, '%' :: r => do
    let (bytes, rest) ← percentBytes ('%' :: r)
    match Text.utf8DecodeFrom 0 bytes with
    | .ok text => return text ++ (← unescapeTag fuel rest)
    | .error _ => .error .malformed
  | fuel + 1, c :: r => do return c :: (← unescapeTag fuel r)

/-- The suffix of a tag, or what a handle expands to. -/
def readSuffix (c : Cursor) : Except Fault (String × Cursor) := do
  let (text, after) := c.span isTagChar
  if text.isEmpty then .error .malformed
  else return (String.ofList (← unescapeTag (text.length + 1) text), after)

/-- A handle: an exclamation mark, or a name between two of them, which may be empty. -/
def readHandle (c : Cursor) : Except Fault (String × Cursor) :=
  match c.rest with
  | '!' :: r =>
    if r.head? = some ' ' then .ok (String.singleton '!', c.step)
    else
      let (name, after) := c.step.span isNameChar
      match after.rest with
      | '!' :: _ => .ok (String.ofList ('!' :: name ++ ['!']), after.step)
      | _ => .error .malformed
  | _ => .error .malformed

/-- Whether an exclamation mark stands in the tag that begins here. -/
def hasHandle (s : List Char) : Bool :=
  (s.takeWhile fun c => c != ' ' && !isBreak c).contains '!'

/-- The handle and the suffix of a tag. -/
def readTag (c : Cursor) : Except Fault (Token × Cursor) := do
  let (token, after) ←
    match c.step.rest with
    | '<' :: _ => do
      let (suffix, after) ← readSuffix (c.forward 2)
      if after.rest.head? = some '>' then pure (Token.tag none suffix, after.step)
      else .error .malformed
    | r =>
      if atBlankOrEnd r then pure (Token.tag none (String.singleton '!'), c.step)
      else do
        let (handle, after) ←
          if hasHandle r then readHandle c else pure (String.singleton '!', c.step)
        let (suffix, after) ← readSuffix after
        pure (Token.tag (some handle) suffix, after)
  if atSpaceOrEnd after.rest then return (token, after) else .error .malformed

def readNumber (c : Cursor) : Except Fault (Nat × Cursor) :=
  let (digits, after) := c.span (·.isDigit)
  if digits.isEmpty then .error .malformed else .ok (digitsValue 10 digits, after)

/-- The version behind its name: two numbers with a point between them. -/
def readVersion (c : Cursor) : Except Fault (Directive × Cursor) := do
  let (major, c) ← readNumber c.skipSpaces
  if c.rest.head? != some '.' then .error .malformed
  else
    let (_, c) ← readNumber c.step
    if atSpaceOrEnd c.rest then return (.version major, c) else .error .malformed

/-- A handle and what it expands to. -/
def readExpansion (c : Cursor) : Except Fault (Directive × Cursor) := do
  let (name, c) ← readHandle c.skipSpaces
  if c.rest.head? != some ' ' then .error .malformed
  else
    let (expansion, c) ← readSuffix c.skipSpaces
    if atSpaceOrEnd c.rest then return (.handle name expansion, c) else .error .malformed

/-- A directive takes the whole line. One of an unknown name is passed over. -/
def readDirective (c : Cursor) : Except Fault (Directive × Cursor) := do
  let (name, c) ← readName c.step
  if !atSpaceOrEnd c.rest then .error .malformed
  else
    let (directive, c) ←
      if name = "YAML" then readVersion c
      else if name = "TAG" then readExpansion c
      else pure (.other, c.skipLine)
    let c := c.skipSpaces
    let c := if c.rest.head? = some '#' then c.skipLine else c
    if atBreakOrEnd c.rest then return (directive, c.step) else .error .malformed

end SheetDoc.Yaml
