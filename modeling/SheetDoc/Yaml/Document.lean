import SheetDoc.Yaml.Node

namespace SheetDoc.Yaml

namespace Reader

/-- The handles that are known without a directive. -/
def usualHandles : Assoc String String := [("!", "!"), ("!!", Tag.space)]

/-- The directives before a document. The version is given once and is a first one, and no handle
is given twice. -/
def directives (versioned : Bool) (handles : Assoc String String) :
    (fuel : Nat) → Reader (Assoc String String)
  | 0 => throw .malformed
  | fuel + 1 => do
    match ← peek with
    | some (.directive what) =>
      skip
      match what with
      | .version major =>
        if versioned || major != 1 then throw .malformed
        directives true handles fuel
      | .handle name expansion =>
        if handles.has name then throw .malformed
        directives versioned (handles.set name expansion) fuel
      | .other => directives versioned handles fuel
    | _ => return handles

def skipEnds : (fuel : Nat) → Reader Unit
  | 0 => throw .malformed
  | fuel + 1 => do if ← take .documentEnd then skipEnds fuel

/-- A document behind its start mark may be empty. -/
def markedDocument (fuel : Nat) : Reader Node := do
  let handles ← directives false [] fuel
  modify fun r => { r with handles := usualHandles.filter (fun e => !handles.has e.1) ++ handles }
  if !(← take .documentStart) then throw .malformed
  match ← peek with
  | none | some (.directive _) | some .documentStart | some .documentEnd => return empty
  | some _ => node .block fuel

/-- Nothing but end marks may follow a document. -/
def noMore (fuel : Nat) : Reader Unit := do
  skipEnds fuel
  match ← peek with
  | none => return ()
  | some _ =>
    let _ ← directives false [] fuel
    let _ ← peek
    throw .malformed

/-- The single document, none in an empty text. -/
def document (fuel : Nat) : Reader (Option Node) := do
  match ← peek with
  | none => return none
  | some (.directive _) | some .documentStart =>
    let node ← markedDocument fuel
    noMore fuel
    return some node
  | some _ =>
    modify fun r => { r with handles := usualHandles }
    let node ← node .block fuel
    noMore fuel
    return some node

end Reader

/-- Characters that a text may hold: no control characters but those that lay it out. -/
def isAllowed (c : Char) : Bool :=
  let n := c.toNat
  n == 9 || n == 10 || n == 13 || (0x20 ≤ n && n ≤ 0x7E) || n == 0x85 ||
    (0xA0 ≤ n && n ≤ 0xFFFD) || 0x10000 ≤ n

/-- The node of a text, none when it is empty. No token opens more than a few nested readings. -/
def Node.ofText (text : List Char) : Except Fault (Option Node) :=
  if !text.all isAllowed then .error .malformed
  else
    let input := Tokens.ofText text
    (Reader.document (4 * input.tokens.length + 8)).run' { input := input }

end SheetDoc.Yaml
