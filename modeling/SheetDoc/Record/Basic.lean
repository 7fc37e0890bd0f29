import SheetDoc.Assoc
import SheetDoc.Record.Field
import SheetDoc.Record.Value

namespace SheetDoc

/-- One documented construct with everything its comment says about it. -/
structure Record where
  context : Context
  file : FileRef
  description : String := ""
  commentLine : Int := 0
  /-- The index in the store, negative for a record outside of any. -/
  uid : Int := -1
  group : List String := []
  groupDescription : Option String := none
  access : Option String := none
  deprecated : Option String := none
  since : List Since := []
  authors : List String := []
  links : List Link := []
  sees : List See := []
  todos : List String := []
  types : List String := []
  ignored : List String := []
  parameters : List Parameter := []
  properties : List Property := []
  returns : Option Return := none
  content : Option String := none
  output : Option String := none
  throws : List String := []
  examples : List Example := []
  /-- The names that this record is an alias of. -/
  aliases : List String := []
  /-- The records that are aliases of this one. -/
  aliased : List Reference := []
  requires : List Require := []
  usedBy : List Usage := []
  /-- Raw values of words that no tag answers to. -/
  unknown : Assoc String (List String) := []
  /-- Values of tags that have no field of their own. -/
  extra : Assoc String Data := []
  /-- The tags that the comment sets, by their canonical names. -/
  tags : List String := []
  /-- What tags of a caller put into fields of another type. Such a field holds what its value
  reads as: the characters of a text in place of a list of texts, and of other values nothing. -/
  strays : Assoc Field Stray := []
  deriving Inhabited

namespace Record

def name (r : Record) : String := r.context.name

def kind (r : Record) : Kind := r.context.kind

/-- The line that orders records within a file. -/
def line (r : Record) : Int := r.context.lineStart.getD r.commentLine

def reference (r : Record) : Reference := ⟨r.uid, r.kind, r.name⟩

/-- Whether the comment, or a poster standing in for it, sets a tag. -/
def has (r : Record) (tag : String) : Bool := r.tags.contains tag

end Record

end SheetDoc
