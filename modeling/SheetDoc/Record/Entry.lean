import SheetDoc.Record.Context

namespace SheetDoc

/-- Points at a record of the same run by its index; kind and name are copied for reading. -/
structure Reference where
  uid : Int
  kind : Kind
  name : String
  deriving DecidableEq, Repr, Inhabited

def Reference.text (r : Reference) : String := r.kind.word ++ " " ++ r.name

/-- A user of a record, or the mark that stands where a usage cycle was cut. -/
inductive Usage
  | user (reference : Reference)
  | circular
  deriving DecidableEq, Repr

def circularWord : String := "Circular"

structure Parameter where
  name : String
  type : Option String := none
  description : String := ""
  value : Option String := none
  deriving DecidableEq, Repr

/-- A key path of a map variable. -/
structure Property where
  path : String
  type : Option String := none
  value : Option String := none
  description : String := ""
  deriving DecidableEq, Repr

structure Return where
  type : String
  description : String := ""
  deriving DecidableEq, Repr

structure Since where
  version : Option String := none
  description : String := ""
  deriving DecidableEq, Repr

structure Link where
  url : String
  caption : String := ""
  deriving DecidableEq, Repr

structure Example where
  code : String
  type : Option String := none
  description : String := ""
  deriving DecidableEq, Repr

/-- A pointer to further reading; `item` is set once the record is found. -/
structure See where
  name : String
  kind : Option Kind := none
  item : Option Reference := none
  deriving DecidableEq, Repr

/-- A dependency on another record; `item` is set once the record is found. -/
structure Require where
  name : String
  kind : Kind
  autofill : Bool := false
  description : String := ""
  url : Option String := none
  item : Option Reference := none
  deriving DecidableEq, Repr

/-- Two requirements of one key are the same requirement. -/
def Require.key (r : Require) : Kind × String := (r.kind, r.name)

def Require.same (a b : Require) : Bool := a.key == b.key

end SheetDoc
