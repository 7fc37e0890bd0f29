import SheetDoc.Code.Declaration
import SheetDoc.Failure
import SheetDoc.Record.Entry
import SheetDoc.Text.Lines
import SheetDoc.Text.Lowercase

namespace SheetDoc

/-- The trimmed value of a tag that needs one. -/
def requiredValue (tag raw : String) : Except TagFault String :=
  let value := Text.trimmed raw
  if value = "" then .error (.valueMissing tag) else .ok value

/-- The text between two brackets at the start, and the text after the closing one. -/
def bracketed? (opening closing : Char) : List Char → Option (List Char × List Char)
  | c :: r => if c = opening then Text.breakAt? closing r else none
  | [] => none

/-- A bracketed part that may be missing. Blanks around it are skipped. -/
def optionalPart (opening closing : Char) (s : List Char) : Option (List Char) × List Char :=
  match bracketed? opening closing (Text.trimLeft s) with
  | some (inner, rest) => (some inner, Text.trimLeft rest)
  | none => (none, Text.trimLeft s)

/-- `[type] name [default] - description`, the type in braces. -/
structure TypedEntry where
  name : String
  type : Option String
  value : Option String
  description : String
  deriving DecidableEq, Repr

def isEntryNameChar (c : Char) : Bool :=
  !(Text.isBlank c || c == '[' || c == ']' || c == '\x7b' || c == '\x7d')

/-- The name at the start of the text; it does not begin with a hyphen. -/
def entryName (s : List Char) : List Char :=
  if s.head? == some '-' then [] else s.takeWhile isEntryNameChar

/-- The text behind an optional dash. -/
def afterDash : List Char → List Char
  | '-' :: r => Text.trimLeft r
  | s => s

def trimmedText (s : List Char) : String := String.ofList (Text.trim s)

def readTypedEntry (tag raw : String) : Except TagFault TypedEntry :=
  let (type, body) := optionalPart '\x7b' '\x7d' raw.toList
  let name := entryName body
  let (value, rest) := optionalPart '[' ']' (body.drop name.length)
  if name = [] then .error (.nameMissing tag (Text.trimmed raw))
  else if type.any Text.allBlank then .error (.emptyType tag (Text.trimmed raw))
  else
    .ok
      { name := String.ofList name, type := type.map trimmedText, value := value.map trimmedText
        description := trimmedText (afterDash rest) }

/-- A type in braces, which is not empty, and a description. -/
def readReturn (raw : String) : Except TagFault Return :=
  match bracketed? '\x7b' '\x7d' (Text.trimLeft raw.toList) with
  | some (c :: type, rest) =>
    .ok { type := trimmedText (c :: type), description := trimmedText rest }
  | _ => .error (.typeMissing (Text.trimmed raw))

/-- The kind that a sign in front of a name stands for. -/
def sigilKind? : Char → Option Kind
  | '$' => some .var
  | '%' => some .placeholder
  | _ => none

/-- A name with an optional sign in front, and the text after it. -/
def sigilName? (s : List Char) : Option (Option Kind × List Char × List Char) :=
  match s with
  | c :: r =>
    match sigilKind? c with
    | some kind => (readName? r).map fun (name, rest) => (some kind, name, rest)
    | none => (readName? s).map fun (name, rest) => (none, name, rest)
  | [] => none

/-- The kind that a reference names: by its word, else by its sign, else a function. -/
def referredKind (tag : String) (word : Option (List Char)) (sign : Option Kind) :
    Except TagFault Kind :=
  let lowered := Text.lower (Text.trim (word.getD []))
  match lowered with
  | [] => .ok (sign.getD .function)
  | c :: r =>
    let name := String.ofList (c :: r)
    match Kind.ofWord? name with
    | some kind => if kind.isReferable then .ok kind else .error (.unknownKind tag name)
    | none => .error (.unknownKind tag name)

/-- A description and an optional address in angle brackets, which ends the text. -/
def describedUrl? (s : List Char) : Option (List Char × Option (List Char)) :=
  match Text.breakAt? '<' s with
  | none => some (s, none)
  | some (description, rest) =>
    match Text.breakAt? '>' rest with
    | some (url, tail) => if Text.allBlank tail then some (description, some url) else none
    | none => none

/-- `type name - description <url>`, the type in braces. -/
def readRequire (raw : String) : Except TagFault Require :=
  let (word, body) := optionalPart '\x7b' '\x7d' raw.toList
  match sigilName? body with
  | none => .error (.malformed "require" (Text.trimmed raw))
  | some (sign, name, rest) =>
    match describedUrl? (afterDash (Text.trimLeft rest)) with
    | none => .error (.malformed "require" (Text.trimmed raw))
    | some (description, url) => do
      let kind ← referredKind "require" word sign
      let address := Text.trim (url.getD [])
      return {
        name := String.ofList name
        kind := kind
        description := trimmedText description
        url := if address = [] then none else some (String.ofList address) }

/-- `type name`, the type in braces. A bare name leaves the kind open. -/
def readSee (raw : String) : Except TagFault See :=
  let (word, body) := optionalPart '\x7b' '\x7d' raw.toList
  match sigilName? body with
  | none => .error (.malformed "see" (Text.trimmed raw))
  | some (sign, name, rest) =>
    if !Text.allBlank rest then .error (.malformed "see" (Text.trimmed raw))
    else if sign.isSome || word.any (· ≠ []) then do
      let kind ← referredKind "see" word sign
      return { name := String.ofList name, kind := some kind }
    else .ok { name := String.ofList name }

/-- A single name; a sign in front is not part of it. -/
def readAlias (raw : String) : Except TagFault String :=
  match sigilName? (Text.trimLeft raw.toList) with
  | some (_, name, rest) =>
    if Text.allBlank rest then .ok (String.ofList name)
    else .error (.notASingleName (Text.trimmed raw))
  | none => .error (.notASingleName (Text.trimmed raw))

/-- The parts before and after the first space, the second empty without one. -/
def atSpace (s : List Char) : List Char × List Char := (Text.breakAt? ' ' s).getD (s, [])

/-- The text behind a leading dash, trimmed; any other text stays. -/
def withoutDash (s : List Char) : List Char :=
  match s with
  | '-' :: r => Text.trim r
  | _ => s

/-- An address and a caption. -/
def readLink (raw : String) : Except TagFault Link := do
  let value ← requiredValue "link" raw
  let (url, caption) := atSpace value.toList
  return { url := String.ofList url, caption := trimmedText caption }

/-- A version and a description, or a description alone behind a dash. -/
def readSince (raw : String) : Except TagFault Since := do
  let value ← requiredValue "since" raw
  match value.toList with
  | '-' :: r => return { description := trimmedText r }
  | cs =>
    let (version, rest) := atSpace cs
    return {
      version := some (String.ofList version)
      description := String.ofList (withoutDash (Text.trim rest)) }

/-- Alternatives separated by bars, none of them empty. -/
def readTypes (raw : String) : Except TagFault (List String) := do
  let value ← requiredValue "type" raw
  let types := (Text.splitOn '|' value.toList).map Text.trim
  if types.contains [] then .error (.emptyAlternative (Text.trimmed raw))
  else return types.map String.ofList

/-- Text without the line breaks at its ends. -/
def trimLineBreaks (s : List Char) : List Char :=
  ((s.dropWhile (· == '\n')).reverse.dropWhile (· == '\n')).reverse

/-- The code below the tag, and in the tag's line its language and a description. -/
def readExample (raw : String) : Except TagFault Example :=
  let (first, body) := (Text.breakAt? '\n' raw.toList).getD (raw.toList, [])
  let code := trimLineBreaks (Text.unlines (Text.dedent (Text.lines body)))
  if Text.allBlank code then .error .exampleWithoutCode
  else
    let head := Text.trim first
    let (type, description) :=
      match head with
      | '-' :: r => ([], r)
      | _ => atSpace head
    .ok
      { code := String.ofList code
        type := if type = [] then none else some (String.ofList type)
        description := String.ofList (withoutDash (Text.trim description)) }

end SheetDoc
