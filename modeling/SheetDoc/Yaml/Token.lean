namespace SheetDoc.Yaml

/-- An instruction before a document. -/
inductive Directive
  | version (major : Nat)
  /-- Tags that begin with the handle begin with the expansion instead. -/
  | handle (name expansion : String)
  | other
  deriving DecidableEq, Repr

inductive Token
  | directive (what : Directive)
  | documentStart
  | documentEnd
  | blockSequenceStart
  | blockMappingStart
  | blockEnd
  | flowSequenceStart
  | flowSequenceEnd
  | flowMappingStart
  | flowMappingEnd
  | flowEntry
  | blockEntry
  | key
  | value
  | aliasOf (name : String)
  | anchor (name : String)
  | tag (handle : Option String) (suffix : String)
  /-- Only a plain scalar may be something other than a text. -/
  | scalar (plain : Bool) (text : String)
  deriving DecidableEq, Repr

end SheetDoc.Yaml
