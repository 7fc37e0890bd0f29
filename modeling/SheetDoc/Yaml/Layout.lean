import SheetDoc.Assoc
import SheetDoc.Yaml.BlockScalar
import SheetDoc.Yaml.Plain
import SheetDoc.Yaml.Property
import SheetDoc.Yaml.Quoted

namespace SheetDoc.Yaml

/-- What may turn out to be a key: the number of its first token and its place. In a block, what
stands at the indentation must be one. -/
structure KeyPlace where
  number : Nat
  required : Bool
  index : Nat
  line : Nat
  column : Nat

/-- No key is longer than this. -/
def longestKey : Nat := 1024

/-- A place in the text with the tokens before it. Columns open and close the blocks, and a value mark
turns what stands before it on its line into a key, if that was short enough. -/
structure Layout where
  cursor : Cursor
  /-- The latest token is the first. -/
  tokens : List Token := []
  count : Nat := 0
  /-- How many flow collections are open. -/
  flow : Nat := 0
  /-- The column of the innermost block. -/
  indent : Int := -1
  /-- The columns of the blocks around it. -/
  outer : List Int := []
  /-- Whether a key may begin here. -/
  keyAllowed : Bool := true
  /-- What may be a key, one for each number of open flow collections. -/
  keys : Assoc Nat KeyPlace := []

namespace Layout

def inBlock (l : Layout) : Bool := l.flow == 0

def emit (l : Layout) (token : Token) : Layout :=
  { l with tokens := token :: l.tokens, count := l.count + 1 }

/-- Puts a token before the one with the number. -/
def insert (l : Layout) (number : Nat) (token : Token) : Layout :=
  let later := l.tokens.take (l.count - number)
  { l with
    tokens := later ++ token :: l.tokens.drop (l.count - number), count := l.count + 1 }

/-- Whether a key can still be completed here. -/
def isOpen (l : Layout) (k : KeyPlace) : Bool :=
  k.line == l.cursor.line && l.cursor.index - k.index ≤ longestKey

/-- Gives up the keys that cannot be completed any more. -/
def dropStale (l : Layout) : Except Fault Layout :=
  if l.keys.any fun e => e.2.required && !l.isOpen e.2 then .error .malformed
  else .ok { l with keys := l.keys.filter fun e => l.isOpen e.2 }

/-- Gives up the key of the innermost collection. -/
def dropKey (l : Layout) : Except Fault Layout :=
  if (l.keys.get? l.flow).any (·.required) then .error .malformed
  else .ok { l with keys := l.keys.erase l.flow }

/-- What begins here may be a key. -/
def saveKey (l : Layout) : Except Fault Layout :=
  if !l.keyAllowed then .ok l
  else do
    let l ← l.dropKey
    let place : KeyPlace :=
      { number := l.count, required := l.inBlock && l.indent == l.cursor.column
        index := l.cursor.index, line := l.cursor.line, column := l.cursor.column }
    return { l with keys := l.keys.set l.flow place }

/-- The blocks that stand deeper than a column are closed: how many, and what is left. -/
def closed (column : Int) : (indent : Int) → (outer : List Int) → Nat × Int × List Int
  | indent, [] => (0, indent, [])
  | indent, next :: outer =>
    if column < indent then
      let (n, rest) := closed column next outer
      (n + 1, rest)
    else (0, indent, next :: outer)

def unwind (l : Layout) (column : Int) : Layout :=
  if !l.inBlock then l
  else
    let (n, indent, outer) := closed column l.indent l.outer
    { l with
      tokens := List.replicate n .blockEnd ++ l.tokens, count := l.count + n
      indent := indent, outer := outer }

/-- Opens a block at a column that is deeper than the innermost one, before the token with the
number. -/
def openBlock (l : Layout) (column number : Nat) (token : Token) : Layout :=
  if l.inBlock && l.indent < column then
    { l.insert number token with indent := column, outer := l.indent :: l.outer }
  else l

def moveTo (l : Layout) (c : Cursor) : Layout := { l with cursor := c }

/-- A token of one character. -/
def mark (l : Layout) (token : Token) : Layout := (l.emit token).moveTo l.cursor.step

def allowKey (l : Layout) (allowed : Bool) : Layout := { l with keyAllowed := allowed }

/-- A directive or a mark of a document closes all blocks. -/
def betweenDocuments (l : Layout) : Except Fault Layout := do
  return (← (l.unwind (-1)).dropKey).allowKey false

def documentMark (l : Layout) (token : Token) : Except Fault Layout := do
  let l ← l.betweenDocuments
  return (l.emit token).moveTo (l.cursor.forward 3)

def flowStart (l : Layout) (token : Token) : Except Fault Layout := do
  let l ← l.saveKey
  return ({ l with flow := l.flow + 1 }.allowKey true).mark token

def flowEnd (l : Layout) (token : Token) : Except Fault Layout := do
  let l ← l.dropKey
  return ({ l with flow := l.flow - 1 }.allowKey false).mark token

def flowEntry (l : Layout) : Except Fault Layout := do
  return (← (l.allowKey true).dropKey).mark .flowEntry

def blockEntry (l : Layout) : Except Fault Layout :=
  if l.inBlock && !l.keyAllowed then .error .malformed
  else do
    let l := l.openBlock l.cursor.column l.count .blockSequenceStart
    return (← (l.allowKey true).dropKey).mark .blockEntry

def keyMark (l : Layout) : Except Fault Layout :=
  if l.inBlock && !l.keyAllowed then .error .malformed
  else do
    let l := l.openBlock l.cursor.column l.count .blockMappingStart
    return (← (l.allowKey l.inBlock).dropKey).mark .key

/-- A value mark completes the key before it, if there is one. -/
def valueMark (l : Layout) : Except Fault Layout :=
  match l.keys.get? l.flow with
  | some k =>
    let l := { l with keys := l.keys.erase l.flow }
    let l := (l.insert k.number .key).openBlock k.column k.number .blockMappingStart
    .ok ((l.allowKey false).mark .value)
  | none =>
    if l.inBlock && !l.keyAllowed then .error .malformed
    else
      let l := l.openBlock l.cursor.column l.count .blockMappingStart
      .ok ((l.allowKey l.inBlock).mark .value)

/-- A token that may begin a key. -/
def keyStart (l : Layout) (read : Cursor → Except Fault (Token × Cursor)) :
    Except Fault Layout := do
  let l ← l.saveKey
  let (token, after) ← read l.cursor
  return ((l.allowKey false).emit token).moveTo after

def blockScalar (l : Layout) (folded : Bool) : Except Fault Layout := do
  let l ← (l.allowKey true).dropKey
  let (text, after) ← BlockScalar.read folded l.indent l.cursor
  return (l.emit (.scalar false (String.ofList text))).moveTo after

def quoted (l : Layout) (double : Bool) : Except Fault Layout :=
  l.keyStart fun c => do
    let (text, after) ← Quoted.read double c
    return (.scalar false (String.ofList text), after)

/-- A key may begin after a plain scalar when a line break ended it. -/
def plain (l : Layout) : Except Fault Layout := do
  let l ← l.saveKey
  let (text, last) := Plain.read (!l.inBlock) (l.indent + 1) l.cursor
  return ((l.allowKey last.broken).emit (.scalar true (String.ofList text))).moveTo last.after

/-- The token at the cursor, of which the text begins with `c`. -/
def token (l : Layout) (c : Char) (r : List Char) : Except Fault Layout :=
  let spaced := !l.inBlock || atBlankOrEnd r
  match c with
  | '[' => l.flowStart .flowSequenceStart
  | '\x7b' => l.flowStart .flowMappingStart
  | ']' => l.flowEnd .flowSequenceEnd
  | '\x7d' => l.flowEnd .flowMappingEnd
  | ',' => l.flowEntry
  | '*' => l.keyStart fun c => do
    let (name, after) ← readAnchor c
    return (.aliasOf name, after)
  | '&' => l.keyStart fun c => do
    let (name, after) ← readAnchor c
    return (.anchor name, after)
  | '!' => l.keyStart readTag
  | '\'' => l.quoted false
  | '"' => l.quoted true
  | c =>
    if c == '-' && atBlankOrEnd r then l.blockEntry
    else if c == '?' && spaced then l.keyMark
    else if c == ':' && spaced then l.valueMark
    else if (c == '|' || c == '>') && l.inBlock then l.blockScalar (c == '>')
    else if Plain.startsHere (!l.inBlock) (c :: r) then l.plain
    else .error .malformed

/-- The closing bracket of no collection, which ends all reading. -/
def isStray (l : Layout) (c : Char) : Bool := l.inBlock && (c == ']' || c == '\x7d')

/-- The next token, none at the end of the text. -/
def next (l : Layout) : Except Fault (Option Layout) := do
  let (cursor, broken) := l.cursor.skipGaps
  let l := { l with cursor := cursor, keyAllowed := l.keyAllowed || broken && l.inBlock }
  let l := (← l.dropStale).unwind cursor.column
  match cursor.rest with
  | [] => return none
  | c :: r =>
    if c == '%' && cursor.column == 0 then
      let l ← l.betweenDocuments
      let (directive, after) ← readDirective cursor
      return some ((l.emit (.directive directive)).moveTo after)
    else if cursor.atStartMark then return some (← l.documentMark .documentStart)
    else if cursor.atEndMark then return some (← l.documentMark .documentEnd)
    else if l.isStray c then .error .malformed
    else return some (← l.token c r)

/-- All blocks end with the text. -/
def finish (l : Layout) : Except Fault Layout := do
  let (cursor, _) := l.cursor.skipGaps
  (← ({ l with cursor := cursor }).dropStale).betweenDocuments

/-- The tokens before the first one that may still become a key. -/
def settled (l : Layout) : List Token :=
  let least := (l.keys.map (·.2.number)).foldl min l.count
  (l.tokens.drop (l.count - least)).reverse

end Layout

/-- The tokens of a text. When they end with a fault, a reader that comes so far meets it. -/
structure Tokens where
  tokens : List Token
  fault? : Option Fault

namespace Tokens

def ofLayout : (fuel : Nat) → Layout → Tokens
  | 0, l => ⟨l.settled, some .malformed⟩
  | fuel + 1, l =>
    match l.dropStale with
    | .error fault => ⟨l.settled, some fault⟩
    | .ok l =>
      match l.next with
      | .error fault => ⟨l.settled, some fault⟩
      | .ok (some next) => ofLayout fuel next
      | .ok none =>
        match l.finish with
        | .error fault => ⟨l.settled, some fault⟩
        | .ok last => ⟨last.tokens.reverse, none⟩

/-- A mark of the byte order may stand in front. Each token takes a character at least. -/
def ofText (text : List Char) : Tokens :=
  let start : Cursor := { rest := text }
  let start := if text.head?.any isOrderMark then start.step else start
  ofLayout (text.length + 1) { cursor := start }

end Tokens

end SheetDoc.Yaml
