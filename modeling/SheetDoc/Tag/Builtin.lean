import SheetDoc.Tag.Basic
import SheetDoc.Tag.Value
import SheetDoc.Code.Uses
import SheetDoc.Config.Basic

namespace SheetDoc

/-- Puts what a reader makes of the raw text on the record. It goes there last, so a refused value
leaves no trace. -/
def storing {α : Type} (read : String → Except TagFault α)
    (put : α → Record → Except Misuse Record) (raw : String) (r : Record) : Except Failure Record :=
  match read raw with
  | .ok value => (put value r).mapError .misuse
  | .error fault => .error (.tag fault)

/-- Puts a value in place of what the field holds. -/
def setting {α : Type} (f : Field) (put : α → Record → Record) (value : α) (r : Record) :
    Except Misuse Record :=
  .ok ((put value r).settle f)

/-- Adds a value to what the field holds. -/
def listing {α : Type} (f : Field) (item : α → Item) (put : α → Record → Record) (value : α)
    (r : Record) : Except Misuse Record :=
  r.adding f (item value) (put value)

/-- Stores the trimmed value, whatever it is. -/
def storingText (put : String → Record → Except Misuse Record) :
    String → Record → Except Failure Record :=
  storing (fun raw => .ok (Text.trimmed raw)) put

/-- Looks first whether the field takes a value, and at the value afterwards. -/
def askingFirst (f : Field) (parse : String → Record → Except Failure Record) (raw : String)
    (r : Record) : Except Failure Record := do
  r.holdsList f
  parse raw r

namespace Tag

def publicWord : String := "public"

def privateWord : String := "private"

/-- Whether the private prefix marks the name of a record; an empty one marks none. -/
def isPrivateName (mark : Data) (r : Record) : Except Misuse Bool :=
  if mark.truthy then do
    let name ← r.readName
    match mark with
    | .scalar (.text s) => .ok (Text.startsWith s.toList name.toList)
    | other => .error (.prefixNotText other.shape)
  else .ok false

/-- The access level for a value; `auto` goes by the name of the record. -/
def accessLevel (mark : Data) (raw : String) (r : Record) : Except Failure String :=
  let value := Text.lowered (Text.trimmed raw)
  if value = "auto" then do
    return if ← isPrivateName mark r then privateWord else publicWord
  else if value = publicWord ∨ value = privateWord then .ok value
  else .error (.tag (.notAnAccessLevel (Text.trimmed raw)))

def access (c : Config) : Tag where
  name := "access"
  parse := some fun raw r => do
    let level ← accessLevel c.privatePrefix raw r
    return ({ r with access := some level }).settle .access
  fallback := some fun _ => .ok (.text publicWord)
  field := some .access
  multiple := false

def parseAlias (raw : String) (r : Record) : Except Failure Record :=
  match readAlias raw with
  | .error fault => .error (.tag fault)
  | .ok name => do
    if name = (← r.readName) then .error (.tag (.ownAlias name))
    else
      (r.adding .aliasOf (.text name) fun r => { r with aliases := r.aliases ++ [name] }).mapError
        .misuse

def aliasOf : Tag where
  name := "alias"
  parse := some parseAlias
  field := some .aliasOf

def author : Tag where
  name := "author"
  parse := some (askingFirst .author (storing (requiredValue "author")
    (listing .author .text fun v r => { r with authors := r.authors ++ [v] })))
  field := some .author

def content : Tag where
  name := "content"
  parse := some (storingText (setting .content fun v r => { r with content := some v }))
  autofill := some fun r => do
    let context ← r.contextFor "code"
    return if takesContent context.code then .text "" else .null
  field := some .content
  multiple := false
  allowedOn := some [Kind.mixin.word]

def deprecated : Tag where
  name := "deprecated"
  parse := some (storingText (setting .deprecated fun v r => { r with deprecated := some v }))
  field := some .deprecated
  multiple := false

def sample : Tag where
  name := "example"
  parse := some (storing readExample
    (listing .sample .sample fun e r => { r with examples := r.examples ++ [e] }))
  field := some .sample

def group (c : Config) : Tag where
  name := "group"
  parse := some (storing (requiredValue "group")
    (setting .group fun v r => { r with group := [Text.lowered v] }))
  fallback := some fun _ => .ok (.texts [c.defaultGroup])
  field := some .group
  multiple := false

def groupDescription : Tag where
  name := "groupDescription"
  parse := some (storing (requiredValue "groupDescription")
    (setting .groupDescription fun v r => { r with groupDescription := some v }))
  field := some .groupDescription
  multiple := false

def ignore : Tag where
  name := "ignore"
  parse := some (storingText
    (listing .ignore .text fun v r => { r with ignored := r.ignored ++ [v] }))
  field := some .ignore

def link : Tag where
  name := "link"
  parse := some (storing readLink
    (listing .link .link fun l r => { r with links := r.links ++ [l] }))
  field := some .link
  aliases := ["source"]

/-- A name without spaces. -/
def readName (raw : String) : Except TagFault String := do
  let value ← requiredValue "name" raw
  if value.toList.contains ' ' then .error (.nameWithSpace value) else return value

/-- Overrides the name inferred from the code. -/
def rename : Tag where
  name := "name"
  parse := some (storing readName fun v r => do
    let context ← r.contextFor "name"
    return { r with context := { context with name := v } })
  multiple := false

def output : Tag where
  name := "output"
  parse := some (storingText (setting .output fun v r => { r with output := some v }))
  field := some .output
  aliases := ["outputs"]
  multiple := false
  allowedOn := some [Kind.mixin.word]

def parseParameter (raw : String) (r : Record) : Except Failure Record :=
  match readTypedEntry "parameter" raw with
  | .error fault => .error (.tag fault)
  | .ok e =>
    if r.parameters.any (·.name = e.name) then .error (.tag (.repeatedParameter e.name))
    else do
      r.flaw .parameter "name"
      let p : Parameter := ⟨e.name, e.type, e.description, e.value⟩
      r.adding .parameter (.parameter p) fun r => { r with parameters := r.parameters ++ [p] }

def parameter : Tag where
  name := "parameter"
  parse := some parseParameter
  field := some .parameter
  aliases := ["param", "arg", "argument"]
  allowedOn := some [Kind.function.word, Kind.mixin.word]

def property : Tag where
  name := "property"
  parse := some (storing (readTypedEntry "property") fun e r =>
    let p : Property := ⟨e.name, e.type, e.value, e.description⟩
    r.adding .property (.property p) fun r => { r with properties := r.properties ++ [p] })
  field := some .property
  aliases := ["prop"]
  allowedOn := some [Kind.var.word]

/-- A requirement that the record has already is not added again. -/
def addRequire (e : Require) (r : Record) : Except Misuse Record :=
  if r.requires.any (Require.same e) then .ok r
  else do
    r.flaw .require "key"
    r.adding .require (.require e) fun r => { r with requires := r.requires ++ [e] }

/-- The requirements that the code of a record suggests. -/
def suggestedRequires (r : Record) : Except Misuse (List Require) := do
  let context ← r.contextFor "code"
  if (dropComments context.code.toList).isEmpty then return []
  else
    r.flaw .parameter "name"
    return usedRecords r

def require : Tag where
  name := "require"
  parse := some (storing readRequire addRequire)
  autofill := some fun r => do return .list ((← suggestedRequires r).map .require)
  field := some .require
  aliases := ["requires"]

def returns : Tag where
  name := "return"
  parse := some (storing readReturn (setting .returns fun v r => { r with returns := some v }))
  field := some .returns
  aliases := ["returns"]
  multiple := false
  allowedOn := some [Kind.function.word]

/-- Finds the record that one pointer means, or says that there is none. A pointer without a kind
takes that of the record it finds. -/
def resolveSee (s : Store) (r : Record) (e : See) : Except Misuse (See × List String) :=
  match s.find? e.name e.kind with
  | none => do
    let name ← r.readName
    return (e, ["Item `" ++ name ++ "` refers to `" ++ e.name ++ "` but this item doesn't exist."])
  | some target => do
    let reference ← target.refer
    return ({ e with item := some reference, kind := some (e.kind.getD target.kind) }, [])

/-- Goes through pointers up to the first that fails; those from there on stay as they are. -/
def resolveEach (s : Store) (r : Record) : List See → List See × Except Misuse (List String)
  | [] => ([], .ok [])
  | e :: rest =>
    match resolveSee s r e with
    | .error fault => (e :: rest, .error fault)
    | .ok (e, found) =>
      let (linked, problems) := resolveEach s r rest
      (e :: linked, problems.map (found ++ ·))

/-- Finds the records pointed at. -/
def resolveSees (s : Store) (r : Record) : Record × Except Failure (List String) :=
  let (linked, problems) := resolveEach s r r.sees
  ({ r with sees := linked }, do
    let problems ← problems
    r.flaw .see "name"
    return problems)

def see : Tag where
  name := "see"
  parse := some (storing readSee (listing .see .see fun e r => { r with sees := r.sees ++ [e] }))
  resolve := some resolveSees
  field := some .see

def since : Tag where
  name := "since"
  parse := some (storing readSince
    (listing .since .since fun e r => { r with since := r.since ++ [e] }))
  field := some .since

def readThrow (raw : String) : Except TagFault String :=
  let value := Text.trimmed raw
  if value = "" then .error .throwWithoutMessage else .ok value

def throw : Tag where
  name := "throw"
  parse := some (storing readThrow
    (listing .throw .text fun v r => { r with throws := r.throws ++ [v] }))
  autofill := some fun r => do return .texts (raisedErrors (← r.contextFor "code").code)
  field := some .throw
  aliases := ["throws", "exception"]
  allowedOn := some [Kind.function.word, Kind.mixin.word, Kind.placeholder.word]

def todo : Tag where
  name := "todo"
  parse := some (askingFirst .todo (storing (requiredValue "todo")
    (listing .todo .text fun v r => { r with todos := r.todos ++ [v] })))
  field := some .todo

def type : Tag where
  name := "type"
  parse := some (storing readTypes (setting .type fun v r => { r with types := v }))
  field := some .type
  multiple := false
  allowedOn := some [Kind.var.word]

/-- The tags of every run under a configuration, in the order in which they apply. -/
def builtins (c : Config) : List Tag :=
  [access c, aliasOf, author, content, deprecated, sample, group c, groupDescription, ignore, link,
    rename, output, parameter, property, require, returns, see, since, throw, todo, type]

end Tag

end SheetDoc
