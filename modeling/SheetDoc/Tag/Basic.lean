import SheetDoc.Record.Access
import SheetDoc.Store.Basic

namespace SheetDoc

/-- What a word behind `@` means in a comment. Every ability of a tag is optional. -/
structure Tag where
  name : String
  /-- Puts the value of a tag on the record, or refuses it before it has done anything to the record.
  A step that fails has nothing to leave behind, unlike one that resolves. -/
  parse : Option (String → Record → Except Failure Record) := none
  /-- Works on a linked record and gives the problems it finds. What it has done to the record by
  the time it fails stays done. -/
  resolve : Option (Store → Record → Record × Except Failure (List String)) := none
  /-- Reads a value out of the record's code. -/
  autofill : Option (Record → Except Failure Value) := none
  /-- The value of a record whose comment sets none. -/
  fallback : Option (Record → Except Failure Value) := none
  /-- The field that autofill and fallback values go to. -/
  field : Option Field := none
  /-- Other names of the tag. -/
  aliases : List String := []
  /-- Whether a comment may use the tag several times. -/
  multiple : Bool := true
  /-- The words of the kinds that may carry the tag, all of them when not given. -/
  allowedOn : Option (List String) := none

namespace Tag

def allows (a : Tag) (word : String) : Bool := a.allowedOn.all (·.contains word)

def allowsKind (a : Tag) (kind : Kind) : Bool := a.allows kind.word

end Tag

end SheetDoc
