import SheetDoc.Data.Merge
import SheetDoc.Store.Basic
import SheetDoc.Text.Lowercase

namespace SheetDoc

/-- The settings of a caller, merged with the defaults and checked. Those that are only looked at for
their truth keep the value that was given. -/
structure Config where
  /-- Display names by group key; the order of the keys ranks the groups. -/
  groups : Assoc String Data
  defaultGroup : String
  /-- The tags whose autofill step runs. -/
  autofill : Data
  /-- The access levels to keep. -/
  access : Data
  includeUnknownContexts : Data
  privatePrefix : Data
  referenceMatch : ReferenceMatch
  strict : Data
  /-- Settings that nothing here reads. -/
  others : Assoc String Data

namespace Config

def defaultEntries : Assoc String Data :=
  [("groups", .map [(.text "undefined", .text "General")]), ("default_group", .text "undefined"),
    ("autofill", .list [.text "requires", .text "throws", .text "content"]),
    ("access", .list [.text "public", .text "private"]), ("include_unknown_contexts", .bool false),
    ("private_prefix", .text "_"), ("reference_match", .text ReferenceMatch.preferType.word),
    ("strict", .bool false)]

/-- Underscores go in front of inner capitals. -/
def separateCapitals : List Char → List Char
  | [] => []
  | c :: r => c :: r.flatMap fun d => if 'A' ≤ d ∧ d ≤ 'Z' then ['_', d] else [d]

/-- The name of a setting in small letters with underscores. -/
def settingName (key : String) : String :=
  String.ofList (Text.lower (separateCapitals key.toList))

def textKey (fault : Shape → Misuse) : Scalar → Except Failure String
  | .text key => .ok key
  | key => .error (.misuse (fault (Data.scalar key).shape))

/-- The given settings under their names. Two spellings of one name are one setting. -/
def nameSettings (settings : Assoc Scalar Data) : Except Failure (Assoc String Data) := do
  let named ← settings.mapM fun (key, value) => do
    return (settingName (← textKey .keyNotText key), value)
  return Assoc.ofList named

def dataEntries (entries : Assoc String Data) : Assoc Scalar Data :=
  entries.map fun e => (.text e.1, e.2)

def lookup (settings : Assoc Scalar Data) (name : String) : Data :=
  (settings.get? (.text name)).getD .null

/-- A default group that is not among the group keys in any letter case is put first. -/
def withDefaultGroup (group : String) (groups : Assoc String Data) : Assoc String Data :=
  if (groups.keys.map Text.lowered).contains group then groups
  else (group, .text "General") :: groups

def namedGroups (entries : Assoc Scalar Data) : Except Failure (Assoc String Data) :=
  entries.mapM fun (key, value) => do return (← textKey (.noPart · "lower") key, value)

/-- Checks the merged settings. -/
def check (settings : Assoc Scalar Data) : Except Failure Config := do
  let matching := lookup settings "reference_match"
  let referenceMatch ←
    match matching with
    | .scalar (.text word) =>
      match ReferenceMatch.ofWord? word with
      | some m => pure m
      | none => .error (.config (.referenceMatch matching))
    | _ => .error (.config (.referenceMatch matching))
  match lookup settings "groups" with
  | .map entries =>
    let defaultGroup := Text.lowered (lookup settings "default_group").plainText
    let groups ← namedGroups entries
    return {
      groups := withDefaultGroup defaultGroup groups
      defaultGroup := defaultGroup
      autofill := lookup settings "autofill"
      access := lookup settings "access"
      includeUnknownContexts := lookup settings "include_unknown_contexts"
      privatePrefix := lookup settings "private_prefix"
      referenceMatch := referenceMatch
      strict := lookup settings "strict"
      others := settings.filterMap fun
        | (.text name, value) => if defaultEntries.has name then none else some (name, value)
        | _ => none }
  | _ => .error (.config .groupsNotMapping)

/-- The configuration that the given settings make with the defaults. -/
def build (settings : Assoc Scalar Data) : Except Failure Config := do
  let named ← nameSettings settings
  check (Data.mergeEntries (dataEntries defaultEntries) (dataEntries named))

/-- The configuration that no setting changes. -/
def default : Config where
  groups := [("undefined", .text "General")]
  defaultGroup := "undefined"
  autofill := .list [.text "requires", .text "throws", .text "content"]
  access := .list [.text "public", .text "private"]
  includeUnknownContexts := .bool false
  privatePrefix := .text "_"
  referenceMatch := .preferType
  strict := .bool false
  others := []

theorem build_nil : build [] = .ok default := by
  rfl

/-- All settings by name, the known ones first. -/
def toData (c : Config) : Assoc Scalar Data :=
  dataEntries
    ([("groups", .map (dataEntries c.groups)), ("default_group", .text c.defaultGroup),
      ("autofill", c.autofill), ("access", c.access),
      ("include_unknown_contexts", c.includeUnknownContexts), ("private_prefix", c.privatePrefix),
      ("reference_match", .text c.referenceMatch.word), ("strict", c.strict)] ++ c.others)

def isStrict (c : Config) : Bool := c.strict.truthy

def includesUnknown (c : Config) : Bool := c.includeUnknownContexts.truthy

end Config

end SheetDoc
