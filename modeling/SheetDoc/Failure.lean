import SheetDoc.Data.Literal
import SheetDoc.Text.Utf8
import SheetDoc.Yaml.Fault

namespace SheetDoc

/-- Why the value of a tag is refused. -/
inductive TagFault
  | valueMissing (tag : String)
  | throwWithoutMessage
  | notAnAccessLevel (value : String)
  | nameWithSpace (value : String)
  | emptyAlternative (value : String)
  | malformed (tag value : String)
  | notASingleName (value : String)
  | ownAlias (name : String)
  | unknownKind (tag word : String)
  | nameMissing (tag value : String)
  | emptyType (tag value : String)
  | repeatedParameter (name : String)
  | typeMissing (value : String)
  | exampleWithoutCode
  /-- The refusal of a caller's own tag, in its words. -/
  | refused (words : String)
  deriving DecidableEq, Repr

def TagFault.message : TagFault → String
  | valueMissing tag => "@" ++ tag ++ " requires a value"
  | throwWithoutMessage => "@throw requires a message"
  | notAnAccessLevel value => "@access must be public, private or auto, not `" ++ value ++ "`"
  | nameWithSpace value => "@name must be a single identifier, not `" ++ value ++ "`"
  | emptyAlternative value => "@type has an empty alternative in `" ++ value ++ "`"
  | malformed tag value => "Malformed @" ++ tag ++ " `" ++ value ++ "`"
  | notASingleName value => "@alias expects a single name, not `" ++ value ++ "`"
  | ownAlias name => "`" ++ name ++ "` cannot be an alias of itself"
  | unknownKind tag word => "@" ++ tag ++ " has unknown type `" ++ word ++ "`"
  | nameMissing tag value => "@" ++ tag ++ " is missing a name in `" ++ value ++ "`"
  | emptyType tag value => "@" ++ tag ++ " has an empty type in `" ++ value ++ "`"
  | repeatedParameter name => "Parameter `" ++ name ++ "` is documented twice"
  | typeMissing value => "@return requires a \x7btype\x7d in `" ++ value ++ "`"
  | exampleWithoutCode => "@example has no code"
  | refused words => words

/-- Why a registry refuses a tag, or a run cannot use its autofill list. -/
inductive RegistryFault
  | frozen (name : String)
  /-- The name already leads to another tag. -/
  | nameIsAlias (name owner : String)
  /-- Another name of the tag is itself the name of a tag. -/
  | aliasIsName (other name : String)
  | unknownAutofill (name : String)
  | withoutAutofill (name : String)
  deriving DecidableEq, Repr

def RegistryFault.message : RegistryFault → String
  | frozen name => "Cannot register annotation `" ++ name ++ "` once a run has started"
  | nameIsAlias name owner =>
    "Annotation `" ++ name ++ "` collides with an alias of `" ++ owner ++ "`"
  | aliasIsName other name =>
    "Alias `" ++ other ++ "` of `" ++ name ++ "` collides with an annotation"
  | unknownAutofill name => "Cannot autofill unknown annotation `" ++ name ++ "`"
  | withoutAutofill name => "Annotation `" ++ name ++ "` has no autofill step"

/-- Why a configuration cannot be used. -/
inductive ConfigFault
  | referenceMatch (value : Data)
  | groupsNotMapping
  | notMapping (path : String)

def ConfigFault.message : ConfigFault → String
  | referenceMatch value =>
    "Invalid reference_match " ++ value.literal ++ ", expected one of prefer_type, exact_type"
  | groupsNotMapping => "groups must be a mapping of group key to display name"
  | notMapping path => "Configuration in " ++ path ++ " must be a mapping"

/-- Why a file cannot be read. -/
inductive FileFault
  | missing (path : String)
  | directory (path : String)
  | notDirectory (path : String)
  | nameTooLong (path : String)
  /-- No path holds the null character. -/
  | nullInPath
  deriving DecidableEq, Repr

def FileFault.message : FileFault → String
  | missing path => "[Errno 2] No such file or directory: " ++ Text.quoted path
  | directory path => "[Errno 21] Is a directory: " ++ Text.quoted path
  | notDirectory path => "[Errno 20] Not a directory: " ++ Text.quoted path
  | nameTooLong path => "[Errno 36] File name too long: " ++ Text.quoted path
  | nullInPath => "embedded null byte"

/-- A value of the wrong shape, or a look-up that leads nowhere. -/
inductive Misuse
  | notIterable (shape : Shape)
  | notContainer (shape : Shape)
  | unhashable (shape : Shape)
  | prefixNotText (shape : Shape)
  | keyNotText (shape : Shape)
  | noPart (shape : Shape) (part : String)
  | noLength (shape : Shape)
  | notCallable (shape : Shape)
  | noItems (shape : Shape)
  /-- What is looked for in a text is a reference. -/
  | notInText
  | notAnEntry
  | noField (name : String)
  | noFieldGiven
  /-- A field that follows from others cannot be set. -/
  | notSettable (name : String)
  | unknownKey (key : String)
  | outOfRange
  /-- Two values that have no order between them. -/
  | unordered (lower upper : Shape)
  deriving DecidableEq, Repr

def Misuse.message : Misuse → String
  | notIterable shape => "'" ++ shape.name ++ "' object is not iterable"
  | notContainer shape => "argument of type '" ++ shape.name ++ "' is not iterable"
  | unhashable shape => "unhashable type: '" ++ shape.name ++ "'"
  | prefixNotText shape =>
    "startswith first arg must be str or a tuple of str, not " ++ shape.name
  | keyNotText shape => "expected string or bytes-like object, got '" ++ shape.name ++ "'"
  | noPart shape part =>
    "'" ++ shape.name ++ "' object has no attribute '" ++ part ++ "'"
  | noLength shape => "object of type '" ++ shape.name ++ "' has no len()"
  | notCallable shape => "'" ++ shape.name ++ "' object is not callable"
  | noItems shape => "'" ++ shape.name ++ "' object does not support item assignment"
  | notInText => "'in <string>' requires string as left operand, not RecordRef"
  | notAnEntry => "asdict() should be called on dataclass instances"
  | noField name => "'Record' object has no attribute " ++ Text.quoted name
  | noFieldGiven => "attribute name must be string, not 'NoneType'"
  | notSettable name => "property " ++ Text.quoted name ++ " of 'Record' object has no setter"
  | unknownKey key => Text.quoted key
  | outOfRange => "list index out of range"
  | unordered lower upper =>
    "'<' not supported between instances of '" ++ lower.name ++ "' and '" ++ upper.name ++ "'"

inductive Failure
  | tag (fault : TagFault)
  | registry (fault : RegistryFault)
  | config (fault : ConfigFault)
  | file (fault : FileFault)
  | encoding (fault : Text.Utf8Fault)
  | misuse (fault : Misuse)
  /-- The text of a configuration file does not read as a document. -/
  | document (fault : Yaml.Fault)
  /-- A step of a caller's own tag, or the input of a run, gave up. -/
  | gaveUp (words : String)
  | aliasCycle (chain : List String) (cycle : List Int)
  /-- A strict run ends with its first problem. -/
  | strict (problem : String)
  | finished
  /-- The outcome of a stream was settled before. -/
  | settled
  /-- A walk over references would not end. -/
  | endless

def utf8Message (f : Text.Utf8Fault) : String :=
  let reason :=
    match f.flaw with
    | .invalidStart => "invalid start byte"
    | .invalidContinuation => "invalid continuation byte"
    | .unexpectedEnd => "unexpected end of data"
  let place :=
    if f.length = 1 then
      "byte 0x" ++ String.ofList (Text.hexDigits 2 f.byte.toNat) ++ " in position " ++
        toString f.start
    else
      "bytes in position " ++ toString f.start ++ "-" ++ toString (f.start + f.length - 1)
  "'utf-8' codec can't decode " ++ place ++ ": " ++ reason

def Failure.message : Failure → String
  | tag fault => fault.message
  | registry fault => fault.message
  | config fault => fault.message
  | file fault => fault.message
  | encoding fault => utf8Message fault
  | misuse fault => fault.message
  | document _ => "unreadable configuration"
  | gaveUp words => words
  | aliasCycle chain _ => "Alias cycle: " ++ " -> ".intercalate chain
  | strict problem => problem
  | finished => "This run is already finished"
  | settled => "invalid state"
  | endless => "maximum recursion depth exceeded"

/-- Where a step can fail in any way, one that only misuses a value can stand. -/
instance : MonadLift (Except Misuse) (Except Failure) where
  monadLift step := step.mapError .misuse

/-- Goes through a list until a step fails, and keeps the state that was reached. -/
def eachUntil {α σ : Type} (step : α → σ → σ × Option Failure) : List α → σ → σ × Option Failure
  | [], state => (state, none)
  | a :: rest, state =>
    match step a state with
    | (state, none) => eachUntil step rest state
    | failed => failed

end SheetDoc
