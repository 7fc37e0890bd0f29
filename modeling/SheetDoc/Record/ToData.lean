import SheetDoc.Record.Access

namespace SheetDoc

/-- A nested value with all its fields, the unset ones included. -/
def Data.fields (entries : List (String × Data)) : Data :=
  .map (entries.map fun e => (.text e.1, e.2))

def Data.optional : Option String → Data
  | some s => .text s
  | none => .null

def Data.texts (items : List String) : Data := .list (items.map .text)

def Data.line : Option Int → Data
  | some n => .int n
  | none => .null

def Context.toData (c : Context) : Data :=
  .fields
    [("type", .text c.kind.word), ("name", .text c.name), ("value", .optional c.value),
      ("scope", .optional c.scope), ("code", .text c.code), ("line_start", .line c.lineStart),
      ("line_end", .line c.lineEnd)]

def FileRef.toData (f : FileRef) : Data := .fields [("path", .text f.path), ("name", .text f.name)]

def Reference.toData (r : Reference) : Data :=
  .fields [("uid", .int r.uid), ("type", .text r.kind.word), ("name", .text r.name)]

def Reference.toData? : Option Reference → Data
  | some r => r.toData
  | none => .null

def Usage.toData : Usage → Data
  | .user reference => reference.toData
  | .circular => .text circularWord

def Parameter.toData (p : Parameter) : Data :=
  .fields
    [("name", .text p.name), ("type", .optional p.type), ("description", .text p.description),
      ("default", .optional p.value)]

def Property.toData (p : Property) : Data :=
  .fields
    [("path", .text p.path), ("type", .optional p.type), ("default", .optional p.value),
      ("description", .text p.description)]

def Return.toData (r : Return) : Data :=
  .fields [("type", .text r.type), ("description", .text r.description)]

def Since.toData (s : Since) : Data :=
  .fields [("version", .optional s.version), ("description", .text s.description)]

def Link.toData (l : Link) : Data := .fields [("url", .text l.url), ("caption", .text l.caption)]

def Example.toData (e : Example) : Data :=
  .fields
    [("code", .text e.code), ("type", .optional e.type), ("description", .text e.description)]

def See.toData (s : See) : Data :=
  .fields
    [("name", .text s.name), ("type", .optional (s.kind.map Kind.word)),
      ("item", Reference.toData? s.item)]

def Require.toData (r : Require) : Data :=
  .fields
    [("name", .text r.name), ("type", .text r.kind.word), ("autofill", .bool r.autofill),
      ("description", .text r.description), ("url", .optional r.url),
      ("item", Reference.toData? r.item)]

def Item.toData : Item → Data
  | .data value => value
  | .since entry => entry.toData
  | .link entry => entry.toData
  | .see entry => entry.toData
  | .parameter entry => entry.toData
  | .property entry => entry.toData
  | .sample entry => entry.toData
  | .require entry => entry.toData
  | .reference entry => entry.toData

def Value.toData : Value → Data
  | .data value => value
  | .list items => .list (items.map Item.toData)
  | .returns entry => entry.toData
  | .context c => c.toData
  | .file f => f.toData
  | .ability => .null

/-- Null and empty collections carry nothing and are left out; empty texts stay. -/
def Data.isVoid : Data → Bool
  | .scalar .null => true
  | .list [] => true
  | .map [] => true
  | _ => false

namespace Record

/-- The data of every field that holds a value of its type, under its public name. -/
def ownFields (r : Record) : List (Field × String × Data) :=
  [(.context, "context", r.context.toData), (.file, "file", r.file.toData),
    (.description, "description", .text r.description),
    (.commentLine, "comment_line", .int r.commentLine), (.uid, "uid", .int r.uid),
    (.group, "group", .texts r.group),
    (.groupDescription, "group_description", .optional r.groupDescription),
    (.access, "access", .optional r.access), (.deprecated, "deprecated", .optional r.deprecated),
    (.since, "since", .list (r.since.map Since.toData)), (.author, "author", .texts r.authors),
    (.link, "link", .list (r.links.map Link.toData)),
    (.see, "see", .list (r.sees.map See.toData)), (.todo, "todo", .texts r.todos),
    (.type, "type", .texts r.types), (.ignore, "ignore", .texts r.ignored),
    (.parameter, "parameter", .list (r.parameters.map Parameter.toData)),
    (.property, "property", .list (r.properties.map Property.toData)),
    (.returns, "return", (r.returns.map Return.toData).getD .null),
    (.content, "content", .optional r.content), (.output, "output", .optional r.output),
    (.throw, "throw", .texts r.throws), (.sample, "example", .list (r.examples.map Example.toData)),
    (.aliasOf, "alias", .texts r.aliases),
    (.aliased, "aliased", .list (r.aliased.map Reference.toData)),
    (.require, "require", .list (r.requires.map Require.toData)),
    (.usedBy, "used_by", .list (r.usedBy.map Usage.toData)),
    (.unknown, "unknown", .fields (r.unknown.map fun e => (e.1, .texts e.2))),
    (.extra, "extra", .fields r.extra), (.tags, "annotations", .texts r.tags)]

/-- The data of a field, with what stands in it instead of a value of its type or behind such
values. Only something empty can be written in place of the users, and is the empty list then. -/
def shown (r : Record) (f : Field) (own : Data) : Data :=
  match r.strays.get? f, own with
  | some (.value v), _ => if f = .usedBy then .list [] else v.toData
  | some (.tail others), .list items => .list (items ++ others.map Item.toData)
  | _, own => own

/-- Every field under its public name. -/
def allFields (r : Record) : List (String × Data) :=
  r.ownFields.map fun (f, name, own) => (name, r.shown f own)

/-- The fields that hold something. References stay shallow, so the data is finite also where records
use each other in a cycle. -/
def toData (r : Record) : List (String × Data) := r.allFields.filter fun e => !e.2.isVoid

/-- Why a record cannot be written as data: the users are looked at one by one, and each has to be
a reference or the mark of a cut. -/
def unwritable (r : Record) : Except Misuse Unit := do
  r.canDo "to_dict"
  match r.strays.get? .usedBy with
  | none | some (.tail []) => return ()
  | some (.tail _) => throw .notAnEntry
  | some (.value v) =>
    match v.items? with
    | none => throw (.notIterable v.shape)
    | some [] => return ()
    | some _ => throw .notAnEntry

end Record

end SheetDoc
