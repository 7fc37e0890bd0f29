import SheetDoc.Yaml.Layout
import SheetDoc.Yaml.Tag

namespace SheetDoc.Yaml

inductive Node
  | scalar (tag : Tag) (text : String)
  | sequence (tag : Tag) (items : List Node)
  /-- What is merged stands before the entries of its own. There are no entries when a merge key
  has a value that cannot be merged. -/
  | mapping (tag : Tag) (entries? : Option (List (Node × Node)))
  /-- An alias inside the value that it names. -/
  | cycle
  deriving Inhabited

namespace Node

def tag : Node → Tag
  | scalar tag _ => tag
  | sequence tag _ => tag
  | mapping tag _ => tag
  | cycle => .unknown

/-- The entries of a mapping. -/
def entries? : Node → Option (List (Node × Node))
  | mapping _ entries? => entries?
  | _ => none

/-- The entries that a merge key adds: of one mapping, or of several, the last one first. -/
def merged? : Node → Option (List (Node × Node))
  | sequence _ items => do return (← items.mapM entries?).reverse.flatten
  | node => node.entries?

/-- A mapping with the given entries. -/
def ofEntries (tag : Tag) (entries : List (Node × Node)) : Node :=
  let (merges, own) := entries.partition fun e => e.1.tag == .merge
  .mapping tag do return (← merges.mapM fun (_, value) => value.merged?).flatten ++ own

end Node

/-- Tokens to be read, with what was said before them. -/
structure Reading where
  input : Tokens
  /-- Values by their anchors, none while the value is still open. -/
  anchors : Assoc String (Option Node) := []
  handles : Assoc String String := []
  /-- How many collections are open. -/
  depth : Nat := 0

/-- A reader of tokens. -/
abbrev Reader (α : Type) := StateT Reading (Except Fault) α

namespace Reader

/-- The next token, none at the end. -/
def peek : Reader (Option Token) := do
  let input := (← get).input
  match input.tokens, input.fault? with
  | t :: _, _ => return some t
  | [], none => return none
  | [], some fault => throw fault

def skip : Reader Unit := modify fun r =>
  { r with input := { r.input with tokens := r.input.tokens.drop 1 } }

/-- Takes the next token if it is the given one. -/
def take (token : Token) : Reader Bool := do
  if (← peek) = some token then
    skip
    return true
  else return false

def setAnchor (anchor? : Option String) (node? : Option Node) : Reader Unit :=
  match anchor? with
  | none => return ()
  | some name => modify fun r => { r with anchors := r.anchors.set name node? }

/-- The value that an alias names. -/
def aliased (name : String) : Reader Node := do
  match (← get).anchors.get? name with
  | some (some node) => return node
  | some none => return .cycle
  | none => throw .malformed

/-- No collections are nested deeper than this. -/
def deepest : Nat := 488

/-- Reads what stands inside a collection. -/
def nested {α : Type} (inside : Reader α) : Reader α := do
  let depth := (← get).depth
  if deepest ≤ depth then throw .endless
  modify fun r => { r with depth := depth + 1 }
  let value ← inside
  modify fun r => { r with depth := depth }
  return value

def anchor? : Reader (Option String) := do
  match ← peek with
  | some (.anchor name) =>
    skip
    return some name
  | _ => return none

/-- A tag with its handle expanded. -/
def tag? : Reader (Option String) := do
  match ← peek with
  | some (.tag handle? suffix) =>
    skip
    match handle? with
    | none => return some suffix
    | some handle =>
      match (← get).handles.get? handle with
      | some expansion => return some (expansion ++ suffix)
      | none => throw .malformed
  | _ => return none

/-- An anchor and a tag in either order. -/
def properties : Reader (Option String × Option String) := do
  match ← anchor? with
  | some name => return (some name, ← tag?)
  | none =>
    let tag ← tag?
    if tag.isNone then return (none, none) else return (← anchor?, tag)

/-- Whether the form of a plain scalar shows its tag. -/
def isOpenTag (tag? : Option String) : Bool := tag?.all (· == "!")

/-- The tag of a scalar. -/
def scalarTag (tag? : Option String) (plain : Bool) (text : String) : Tag :=
  match tag? with
  | none => if plain then Tag.ofPlain text else .text
  | some name => if isOpenTag tag? then Tag.ofPlain text else Tag.ofText name

def collectionTag (usual : Tag) (tag? : Option String) : Tag :=
  if isOpenTag tag? then usual else (tag?.map Tag.ofText).getD usual

def empty : Node := .scalar (Tag.ofPlain "") ""

/-- Where a node stands, which decides what may begin it. -/
inductive Place
  | flow
  | block
  /-- The value of a block mapping may be a sequence without an indentation of its own. -/
  | blockValue
  deriving DecidableEq

mutual

def node (place : Place) : (fuel : Nat) → Reader Node
  | 0 => throw .malformed
  | fuel + 1 => do
    match ← peek with
    | some (.aliasOf name) =>
      skip
      aliased name
    | _ =>
      let (anchor?, tag?) ← properties
      let known := (← get).anchors
      if anchor?.any known.has then throw .malformed
      content place anchor? tag? fuel

/-- The node behind its properties. Without a value they stand for an empty scalar. -/
def content (place : Place) (anchor? tag? : Option String) : (fuel : Nat) → Reader Node
  | 0 => throw .malformed
  | fuel + 1 => do
    let sequence (items : Reader (List Node)) : Reader Node := do
      setAnchor anchor? none
      let node := Node.sequence (collectionTag .sequence tag?) (← nested items)
      setAnchor anchor? (some node)
      return node
    let mapping (entries : Reader (List (Node × Node))) : Reader Node := do
      setAnchor anchor? none
      let node := Node.ofEntries (collectionTag .mapping tag?) (← nested entries)
      setAnchor anchor? (some node)
      return node
    let scalar (plain : Bool) (text : String) : Reader Node := do
      let node := Node.scalar (scalarTag tag? plain text) text
      setAnchor anchor? (some node)
      return node
    match ← peek with
    | some .blockEntry =>
      if place = .blockValue then sequence (blockItems false fuel)
      else if anchor?.isSome || tag?.isSome then scalar true ""
      else throw .malformed
    | some (.scalar plain text) =>
      skip
      scalar plain text
    | some .flowSequenceStart =>
      skip
      sequence (flowItems true fuel)
    | some .flowMappingStart =>
      skip
      mapping (flowEntries true fuel)
    | some .blockSequenceStart =>
      if place = .flow then throw .malformed
      skip
      sequence (blockItems true fuel)
    | some .blockMappingStart =>
      if place = .flow then throw .malformed
      skip
      mapping (blockEntries fuel)
    | _ => if anchor?.isSome || tag?.isSome then scalar true "" else throw .malformed

/-- The node behind a mark, empty when one of the given tokens follows. -/
def nodeUnless (closing : List Token) (place : Place) : (fuel : Nat) → Reader Node
  | 0 => throw .malformed
  | fuel + 1 => do
    match ← peek with
    | some token => if closing.contains token then return empty else node place fuel
    | none => node place fuel

/-- The node behind a value mark, empty without one. -/
def valueUnless (closing : List Token) (place : Place) : (fuel : Nat) → Reader Node
  | 0 => throw .malformed
  | fuel + 1 => do
    if ← take .value then nodeUnless closing place fuel else return empty

/-- The items of a block sequence, which ends with its block if it has one. -/
def blockItems (hasBlock : Bool) : (fuel : Nat) → Reader (List Node)
  | 0 => throw .malformed
  | fuel + 1 => do
    if ← take .blockEntry then
      let closing := if hasBlock then [.blockEntry, .blockEnd]
        else [.blockEntry, .key, .value, .blockEnd]
      let item ← nodeUnless closing .block fuel
      return item :: (← blockItems hasBlock fuel)
    else if !hasBlock then return []
    else if ← take .blockEnd then return []
    else throw .malformed

def blockEntries : (fuel : Nat) → Reader (List (Node × Node))
  | 0 => throw .malformed
  | fuel + 1 => do
    let closing : List Token := [.key, .value, .blockEnd]
    if ← take .key then
      let key ← nodeUnless closing .blockValue fuel
      let value ← valueUnless closing .blockValue fuel
      return (key, value) :: (← blockEntries fuel)
    else if ← take .blockEnd then return []
    else throw .malformed

/-- The items of a flow sequence. A key among them makes a mapping of one entry. -/
def flowItems (first : Bool) : (fuel : Nat) → Reader (List Node)
  | 0 => throw .malformed
  | fuel + 1 => do
    let closing : List Token := [.flowEntry, .flowSequenceEnd]
    if ← take .flowSequenceEnd then return []
    if !first then
      if !(← take .flowEntry) then throw .malformed
    if ← take .key then
      let key ← nodeUnless (.value :: closing) .flow fuel
      let value ← valueUnless closing .flow fuel
      return Node.ofEntries .mapping [(key, value)] :: (← flowItems false fuel)
    else if ← take .flowSequenceEnd then return []
    else
      let item ← node .flow fuel
      return item :: (← flowItems false fuel)

/-- The entries of a flow mapping. A node that is not marked as a key has no value. -/
def flowEntries (first : Bool) : (fuel : Nat) → Reader (List (Node × Node))
  | 0 => throw .malformed
  | fuel + 1 => do
    let closing : List Token := [.flowEntry, .flowMappingEnd]
    if ← take .flowMappingEnd then return []
    if !first then
      if !(← take .flowEntry) then throw .malformed
    if ← take .key then
      let key ← nodeUnless (.value :: closing) .flow fuel
      let value ← valueUnless closing .flow fuel
      return (key, value) :: (← flowEntries false fuel)
    else if ← take .flowMappingEnd then return []
    else
      let key ← node .flow fuel
      return (key, empty) :: (← flowEntries false fuel)

end

end Reader

end SheetDoc.Yaml
