import SheetDoc.Data.Basic
import SheetDoc.Record.Entry

namespace SheetDoc

/-- One value of a list on a record. -/
inductive Item
  | data (value : Data)
  | since (entry : Since)
  | link (entry : Link)
  | see (entry : See)
  | parameter (entry : Parameter)
  | property (entry : Property)
  | sample (entry : Example)
  | require (entry : Require)
  | reference (entry : Reference)

namespace Item

abbrev text (s : String) : Item := .data (.text s)

def shape : Item → Shape
  | data value => value.shape
  | since _ => .object "Since"
  | link _ => .object "Link"
  | see _ => .object "See"
  | parameter _ => .object "Parameter"
  | property _ => .object "Property"
  | sample _ => .object "Example"
  | require _ => .object "Require"
  | reference _ => .object "RecordRef"

/-- Two requirements of one key count as the same, other values when they are equal. -/
def same : Item → Item → Bool
  | data a, data b => a.same b
  | since a, since b => a = b
  | link a, link b => a = b
  | see a, see b => a = b
  | parameter a, parameter b => a = b
  | property a, property b => a = b
  | sample a, sample b => a = b
  | require a, require b => a.same b
  | reference a, reference b => a = b
  | _, _ => false

def text? : Item → Option String
  | data (.scalar (.text s)) => some s
  | _ => none

def since? : Item → Option Since
  | since entry => some entry
  | _ => none

def link? : Item → Option Link
  | link entry => some entry
  | _ => none

def see? : Item → Option See
  | see entry => some entry
  | _ => none

def parameter? : Item → Option Parameter
  | parameter entry => some entry
  | _ => none

def property? : Item → Option Property
  | property entry => some entry
  | _ => none

def sample? : Item → Option Example
  | sample entry => some entry
  | _ => none

def require? : Item → Option Require
  | require entry => some entry
  | _ => none

def reference? : Item → Option Reference
  | reference entry => some entry
  | _ => none

def ofUsage : Usage → Item
  | .user entry => .reference entry
  | .circular => .text circularWord

def usage? : Item → Option Usage
  | reference entry => some (.user entry)
  | data (.scalar (.text s)) => if s = circularWord then some .circular else none
  | _ => none

end Item

/-- Splits off the values that are of one type, up to the first that is not. -/
def Item.span {α : Type} (own : Item → Option α) : List Item → List α × List Item
  | [] => ([], [])
  | item :: rest =>
    match own item with
    | none => ([], item :: rest)
    | some a =>
      let (found, others) := span own rest
      (a :: found, others)

inductive Value
  | data (value : Data)
  | list (items : List Item)
  | returns (entry : Return)
  | context (context : Context)
  | file (file : FileRef)
  /-- Something that a record can do. -/
  | ability

namespace Value

abbrev text (s : String) : Value := .data (.text s)

abbrev null : Value := .data .null

def texts (items : List String) : Value := .list (items.map .text)

/-- Plain data as a value. -/
def ofData : Data → Value
  | .list items => .list (items.map .data)
  | value => .data value

def ofOption : Option String → Value
  | some s => .text s
  | none => .null

def shape : Value → Shape
  | data value => value.shape
  | list _ => .list
  | returns _ => .object "Return"
  | context _ => .object "Context"
  | file _ => .object "FileRef"
  | ability => .object "method"

def truthy : Value → Bool
  | data value => value.truthy
  | list items => !items.isEmpty
  | _ => true

/-- Null and the empty list carry nothing. -/
def isVoid : Value → Bool
  | data (.scalar .null) => true
  | list [] => true
  | _ => false

/-- What a value consists of when it is gone through. -/
def items? : Value → Option (List Item)
  | data value => value.elements?.map (·.map .data)
  | list items => some items
  | _ => none

/-- How many values it consists of. -/
def length? (v : Value) : Option Nat := v.items?.map (·.length)

end Value

/-- What stands in a field in place of a value of its type. -/
inductive Stray
  | value (value : Value)
  /-- The values of a list from the first on that is not of the type of the list. -/
  | tail (items : List Item)

end SheetDoc
