import SheetDoc.Tag.Basic
import SheetDoc.Text.Blank

namespace SheetDoc

/-- What the tag's value does to the record. -/
inductive ValueRule
  /-- The trimmed value is stored under the tag's name. -/
  | extra
  /-- The value is added, as it is, to the list under the tag's name. -/
  | extraList
  /-- The trimmed value takes the place of the field. -/
  | field
  /-- The trimmed value is added to the field. -/
  | fieldList
  | refuse
  | giveUp

/-- What a step without an input of its own comes to. -/
inductive StepRule
  | value (value : Data)
  | giveUp (words : String)
  /-- Reports how many users the record has. -/
  | usedBy

structure Custom where
  name : String
  aliases : List String := []
  multiple : Bool := true
  allowedOn : Option (List String) := none
  field : Option Field := none
  parse : Option ValueRule := none
  autofill : Option StepRule := none
  fallback : Option StepRule := none
  resolve : Option StepRule := none

namespace Custom

/-- The field of a rule that needs one. -/
def fieldOf (c : Custom) : Except Misuse Field :=
  match c.field with
  | some f => .ok f
  | none => .error .noFieldGiven

/-- Stores a value under the tag's name. -/
def putExtra (c : Custom) (value : String) (r : Record) : Except Misuse Record :=
  match r.strayValue? .extra with
  | some v => .error (.noItems v.shape)
  | none => .ok { r with extra := r.extra.set c.name (.text value) }

/-- Adds a value to the list under the tag's name. -/
def addExtra (c : Custom) (value : String) (r : Record) : Except Misuse Record :=
  match r.strayValue? .extra with
  | some v => .error (.noPart v.shape "setdefault")
  | none =>
    match (r.extra.get? c.name).getD (.list []) with
    | .list items => .ok { r with extra := r.extra.set c.name (.list (items ++ [.text value])) }
    | other => .error (.noPart other.shape "append")

def applyValue (c : Custom) (rule : ValueRule) (raw : String) (r : Record) :
    Except Failure Record :=
  match rule with
  | .extra => do c.putExtra (Text.trimmed raw) r
  | .extraList => do c.addExtra raw r
  | .field => do r.assign (← c.fieldOf) (.text (Text.trimmed raw))
  | .fieldList => do r.append (← c.fieldOf) (.text (Text.trimmed raw))
  | .refuse => .error (.tag (.refused ("bad " ++ Text.trimmed raw)))
  | .giveUp => .error (.gaveUp ("crash " ++ Text.trimmed raw))

def usersMessage (r : Record) : Except Misuse String := do
  let name ← r.readName
  let users ← r.read .usedBy
  match users.length? with
  | some count => .ok (name ++ " used by " ++ toString count)
  | none => .error (.noLength users.shape)

def fill (rule : StepRule) (r : Record) : Except Failure Value :=
  match rule with
  | .value value => .ok (.ofData value)
  | .giveUp words => .error (.gaveUp words)
  | .usedBy => do return .texts [← usersMessage r]

/-- The messages of a resolve step: a list of them, or the characters of a text. -/
def messages (rule : StepRule) (r : Record) : Except Failure (List String) :=
  match rule with
  | .value value =>
    if value.truthy then
      match value.elements? with
      | some items => .ok (items.map Data.plainText)
      | none => .error (.misuse (.notIterable value.shape))
    else .ok []
  | .giveUp words => .error (.gaveUp words)
  | .usedBy => do return [← usersMessage r]

def toAnnotation (c : Custom) : Tag where
  name := c.name
  parse := c.parse.map c.applyValue
  autofill := c.autofill.map fill
  fallback := c.fallback.map fill
  resolve := c.resolve.map fun rule _ r => (r, messages rule r)
  field := c.field
  aliases := c.aliases
  multiple := c.multiple
  allowedOn := c.allowedOn

end Custom

end SheetDoc
