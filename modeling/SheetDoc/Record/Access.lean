import SheetDoc.Failure
import SheetDoc.Record.Basic
import SheetDoc.Text.Search

namespace SheetDoc

/-- Appends the entries that are not there yet, one after another. -/
def mergeNew {α : Type} (same : α → α → Bool) (current new : List α) : List α :=
  new.foldl (fun found e => if found.any (same e) then found else found ++ [e]) current

namespace Record

/-- The field holds a value of its own type again. -/
def settle (f : Field) (r : Record) : Record := { r with strays := r.strays.erase f }

def setStray (f : Field) (stray : Stray) (r : Record) : Record :=
  { r with strays := r.strays.set f stray }

/-- What is there instead of a value of the field's type. -/
def strayValue? (r : Record) (f : Field) : Option Value :=
  match r.strays.get? f with
  | some (.value v) => some v
  | _ => none

/-- The values of a list field behind those of its type. -/
def tail (r : Record) (f : Field) : List Item :=
  match r.strays.get? f with
  | some (.tail items) => items
  | _ => []

/-- The context, of which a part is asked for. -/
def contextFor (r : Record) (part : String) : Except Misuse Context :=
  match r.strayValue? .context with
  | some v => .error (.noPart v.shape part)
  | none => .ok r.context

def readName (r : Record) : Except Misuse String := (r.contextFor "name").map (·.name)

def readKind (r : Record) : Except Misuse Kind := (r.contextFor "type").map (·.kind)

def readPath (r : Record) : Except Misuse String :=
  match r.strayValue? .file with
  | some v => .error (.noPart v.shape "path")
  | none => .ok r.file.path

/-- What a record can do. A tag may put a value in its place. -/
def abilities : List String := ["ref", "has", "to_dict"]

def canDo (r : Record) (ability : String) : Except Misuse Unit :=
  match r.strayValue? (.other ability) with
  | some v => .error (.notCallable v.shape)
  | none => .ok ()

/-- A reference to a record, asked of the record itself. -/
def refer (r : Record) : Except Misuse Reference := do
  r.canDo "ref"
  let _ ← r.contextFor "type"
  return r.reference

/-- Whether a word stands in a text; the empty one stands in any. -/
def standsIn (word text : String) : Bool := word = "" || Text.occurs word.toList text.toList

/-- Whether a word is among the tags that the comment sets. In a text it is when it occurs. -/
def marks (r : Record) (tag : String) : Except Misuse Bool :=
  match r.strayValue? .tags with
  | none => .ok (r.has tag)
  | some (.data (.scalar (.text s))) => .ok (standsIn tag s)
  | some v => .error (.notContainer v.shape)

/-- Whether the comment sets a tag, asked of the record itself. -/
def sets (r : Record) (tag : String) : Except Misuse Bool := do
  r.canDo "has"
  r.marks tag

/-- What is met when the values of a list field are asked for one of their parts, behind those
that are of its type. -/
def flaw (r : Record) (f : Field) (part : String) : Except Misuse Unit :=
  match r.strays.get? f with
  | none => .ok ()
  | some stray =>
    let items? := match stray with
      | .value v => v.items?
      | .tail items => some items
    match items?, stray with
    | some [], _ => .ok ()
    | some (item :: _), _ => .error (.noPart item.shape part)
    | none, .value v => .error (.notIterable v.shape)
    | none, .tail _ => .ok ()

/-- Whether a value can be added to a field. -/
def holdsList (r : Record) (f : Field) : Except Misuse Unit :=
  match r.strayValue? f with
  | some v => .error (.noPart v.shape "append")
  | none => .ok ()

/-- Adds to a list field. A value of its own type is added by `own`, unless the list goes on with
other ones. -/
def adding (f : Field) (item : Item) (own : Record → Record) (r : Record) :
    Except Misuse Record := do
  r.holdsList f
  match r.tail f with
  | [] => return own r
  | others => return r.setStray f (.tail (others ++ [item]))

/-- What follows from other fields. -/
def derived : List String := ["name", "context_type", "line"]

def ofLine (line : Int) : Value := .data (.int line)

/-- What orders a record within a file, which is not a line where a tag has set one that is not. -/
def lineValue (r : Record) : Value :=
  match r.context.lineStart, r.strayValue? .commentLine with
  | none, some v => v
  | _, _ => ofLine r.line

def readOther (r : Record) (name : String) : Except Misuse Value :=
  if name = "name" then do return .text (← r.readName)
  else if name = "context_type" then do return .text (← r.readKind).word
  else if name = "line" then do
    let _ ← r.contextFor "line_start"
    return r.lineValue
  else if abilities.contains name then .ok .ability
  else .error (.noField name)

/-- The value of a field, as far as it is of the field's type. -/
def own (r : Record) : Field → Except Misuse Value
  | .context => .ok (.context r.context)
  | .file => .ok (.file r.file)
  | .description => .ok (.text r.description)
  | .commentLine => .ok (ofLine r.commentLine)
  | .uid => .ok (ofLine r.uid)
  | .group => .ok (.texts r.group)
  | .groupDescription => .ok (.ofOption r.groupDescription)
  | .access => .ok (.ofOption r.access)
  | .deprecated => .ok (.ofOption r.deprecated)
  | .since => .ok (.list (r.since.map .since))
  | .author => .ok (.texts r.authors)
  | .link => .ok (.list (r.links.map .link))
  | .see => .ok (.list (r.sees.map .see))
  | .todo => .ok (.texts r.todos)
  | .type => .ok (.texts r.types)
  | .ignore => .ok (.texts r.ignored)
  | .parameter => .ok (.list (r.parameters.map .parameter))
  | .property => .ok (.list (r.properties.map .property))
  | .returns => .ok ((r.returns.map .returns).getD .null)
  | .content => .ok (.ofOption r.content)
  | .output => .ok (.ofOption r.output)
  | .throw => .ok (.texts r.throws)
  | .sample => .ok (.list (r.examples.map .sample))
  | .aliasOf => .ok (.texts r.aliases)
  | .aliased => .ok (.list (r.aliased.map .reference))
  | .require => .ok (.list (r.requires.map .require))
  | .usedBy => .ok (.list (r.usedBy.map .ofUsage))
  | .unknown =>
    .ok (.data (.map (r.unknown.map fun e => (.text e.1, .list (e.2.map .text)))))
  | .extra => .ok (.data (.map (r.extra.map fun e => (.text e.1, e.2))))
  | .tags => .ok (.texts r.tags)
  | .other name => r.readOther name

/-- The value of a field. -/
def read (r : Record) (f : Field) : Except Misuse Value :=
  match r.strays.get? f with
  | none => r.own f
  | some (.value v) => .ok v
  | some (.tail others) => do
    match ← r.own f with
    | .list items => return .list (items ++ others)
    | value => return value

/-- Puts a list into a field: the values of its type, and behind them the rest. -/
def setList {α : Type} (f : Field) (own? : Item → Option α) (put : List α → Record → Record)
    (items : List Item) (r : Record) : Record :=
  match Item.span own? items with
  | (found, []) => (put found r).settle f
  | (found, others) => (put found r).setStray f (.tail others)

/-- Puts a value into a field of texts. -/
def setTexts (f : Field) (put : List String → Record → Record) (v : Value) (r : Record) : Record :=
  match v with
  | .list items => setList f Item.text? put items r
  | .data (.scalar (.text s)) =>
    (put (s.toList.map String.singleton) r).setStray f (.value v)
  | _ => (put [] r).setStray f (.value v)

/-- Puts a value into a field of entries. -/
def setEntries {α : Type} (f : Field) (own? : Item → Option α) (put : List α → Record → Record)
    (v : Value) (r : Record) : Record :=
  match v with
  | .list items => setList f own? put items r
  | _ => (put [] r).setStray f (.value v)

/-- Puts a value into a field of one text that may be missing. -/
def setOption (f : Field) (put : Option String → Record → Record) (v : Value) (r : Record) :
    Record :=
  match v with
  | .data (.scalar .null) => (put none r).settle f
  | .data (.scalar (.text s)) => (put (some s) r).settle f
  | _ => (put none r).setStray f (.value v)

/-- Puts a value into a field of one value: `put?` does when the value is of the field's type. -/
def setOwn (f : Field) (put? : Value → Option (Record → Record)) (v : Value) (r : Record) :
    Record :=
  match put? v with
  | some put => (put r).settle f
  | none => r.setStray f (.value v)

def contextPut? : Value → Option (Record → Record)
  | .context c => some fun r => { r with context := c }
  | _ => none

def filePut? : Value → Option (Record → Record)
  | .file f => some fun r => { r with file := f }
  | _ => none

def textPut? (put : String → Record → Record) : Value → Option (Record → Record)
  | .data (.scalar (.text s)) => some (put s)
  | _ => none

def linePut? (put : Int → Record → Record) : Value → Option (Record → Record)
  | .data (.scalar (.int n)) => some (put n)
  | _ => none

def returnsPut? : Value → Option (Record → Record)
  | .returns e => some fun r => { r with returns := some e }
  | .data (.scalar .null) => some fun r => { r with returns := none }
  | _ => none

/-- Puts a value into a field in place of what it holds. -/
def assign (r : Record) (f : Field) (v : Value) : Except Misuse Record :=
  match f with
  | .context => .ok (r.setOwn f contextPut? v)
  | .file => .ok (r.setOwn f filePut? v)
  | .description => .ok (r.setOwn f (textPut? fun s r => { r with description := s }) v)
  | .commentLine => .ok (r.setOwn f (linePut? fun n r => { r with commentLine := n }) v)
  | .uid => .ok (r.setOwn f (linePut? fun n r => { r with uid := n }) v)
  | .group => .ok (r.setTexts f (fun l r => { r with group := l }) v)
  | .groupDescription => .ok (r.setOption f (fun s r => { r with groupDescription := s }) v)
  | .access => .ok (r.setOption f (fun s r => { r with access := s }) v)
  | .deprecated => .ok (r.setOption f (fun s r => { r with deprecated := s }) v)
  | .since => .ok (r.setEntries f Item.since? (fun l r => { r with since := l }) v)
  | .author => .ok (r.setTexts f (fun l r => { r with authors := l }) v)
  | .link => .ok (r.setEntries f Item.link? (fun l r => { r with links := l }) v)
  | .see => .ok (r.setEntries f Item.see? (fun l r => { r with sees := l }) v)
  | .todo => .ok (r.setTexts f (fun l r => { r with todos := l }) v)
  | .type => .ok (r.setTexts f (fun l r => { r with types := l }) v)
  | .ignore => .ok (r.setTexts f (fun l r => { r with ignored := l }) v)
  | .parameter => .ok (r.setEntries f Item.parameter? (fun l r => { r with parameters := l }) v)
  | .property => .ok (r.setEntries f Item.property? (fun l r => { r with properties := l }) v)
  | .returns => .ok (({ r with returns := none } : Record).setOwn f returnsPut? v)
  | .content => .ok (r.setOption f (fun s r => { r with content := s }) v)
  | .output => .ok (r.setOption f (fun s r => { r with output := s }) v)
  | .throw => .ok (r.setTexts f (fun l r => { r with throws := l }) v)
  | .sample => .ok (r.setEntries f Item.sample? (fun l r => { r with examples := l }) v)
  | .aliasOf => .ok (r.setTexts f (fun l r => { r with aliases := l }) v)
  | .aliased => .ok (r.setEntries f Item.reference? (fun l r => { r with aliased := l }) v)
  | .require => .ok (r.setEntries f Item.require? (fun l r => { r with requires := l }) v)
  | .usedBy => .ok (r.setEntries f Item.usage? (fun l r => { r with usedBy := l }) v)
  | .unknown => .ok (({ r with unknown := [] } : Record).setStray f (.value v))
  | .extra => .ok (({ r with extra := [] } : Record).setStray f (.value v))
  | .tags => .ok (r.setTexts f (fun l r => { r with tags := l }) v)
  | .other name =>
    if derived.contains name then .error (.notSettable name) else .ok (r.setStray f (.value v))

/-- Adds a value at the end of a list field. -/
def append (r : Record) (f : Field) (item : Item) : Except Misuse Record := do
  match ← r.read f with
  | .list items => r.assign f (.list (items ++ [item]))
  | v => .error (.noPart v.shape "append")

/-- Merges a value into a field: lists take the values they do not have, one value is only taken
when there is none. -/
def fill (r : Record) (f : Field) (v : Value) : Except Misuse Record := do
  match ← r.read f with
  | .list items =>
    match v.items? with
    | some new => r.assign f (.list (mergeNew Item.same items new))
    | none => .error (.notIterable v.shape)
  | .data (.scalar .null) => r.assign f v
  | _ => return r

/-- Takes over a field from another record, where that has something in it. -/
def inherit (r : Record) (f : Field) (source : Record) : Except Misuse Record := do
  let v ← source.read f
  if v.isVoid then return r else r.fill f v

end Record

end SheetDoc
