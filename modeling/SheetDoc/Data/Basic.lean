import SheetDoc.Assoc
import SheetDoc.Binary64.Basic
import SheetDoc.Data.Moment

namespace SheetDoc

/-- A value without parts. -/
inductive Scalar
  | null
  | bool (value : Bool)
  | int (value : Int)
  | real (value : Binary64)
  | moment (value : Moment)
  | text (value : String)
  deriving DecidableEq, Inhabited

namespace Scalar

/-- The key that stands for all keys equal to a given one: a truth value counts as zero or one,
and a whole real number as an integer. -/
def key : Scalar → Scalar
  | .bool b => .int b.toInt
  | .real (.finite negative mantissa exponent) =>
    if 0 ≤ exponent then
      .int (Binary64.signedMantissa negative (mantissa * Binary64.twoTo exponent))
    else .real (.finite negative mantissa exponent)
  | value => value

/-- Equality of keys. -/
instance : BEq Scalar := ⟨fun a b => decide (a.key = b.key)⟩

theorem beq_iff_key_eq {a b : Scalar} : (a == b) = true ↔ a.key = b.key := decide_eq_true_iff

instance : EquivBEq Scalar where
  rfl := beq_iff_key_eq.mpr rfl
  symm h := beq_iff_key_eq.mpr (beq_iff_key_eq.mp h).symm
  trans h h' := beq_iff_key_eq.mpr ((beq_iff_key_eq.mp h).trans (beq_iff_key_eq.mp h'))

end Scalar

/-- Mappings keep the order of their entries. -/
inductive Data
  | scalar (value : Scalar)
  | list (items : List Data)
  | map (entries : List (Scalar × Data))
  deriving Inhabited

namespace Data

abbrev null : Data := .scalar .null
abbrev bool (value : Bool) : Data := .scalar (.bool value)
abbrev int (value : Int) : Data := .scalar (.int value)
abbrev text (value : String) : Data := .scalar (.text value)

/-- Zero, the empty text and empty collections count as no. -/
def truthy : Data → Bool
  | .scalar .null => false
  | .scalar (.bool b) => b
  | .scalar (.int n) => n != 0
  | .scalar (.real x) => !x.isZero
  | .scalar (.moment _) => true
  | .scalar (.text s) => s != ""
  | .list items => !items.isEmpty
  | .map entries => !entries.isEmpty

end Data

/-- The shapes of data, as they are named in messages. -/
inductive Shape
  | null | bool | int | real | day | time | text | list | map
  /-- A value with parts of fixed names. -/
  | object (name : String)
  deriving DecidableEq, Repr

def Shape.name : Shape → String
  | null => "NoneType"
  | bool => "bool"
  | int => "int"
  | real => "float"
  | day => "datetime.date"
  | time => "datetime.datetime"
  | text => "str"
  | list => "list"
  | map => "dict"
  | object name => name

namespace Data

def shape : Data → Shape
  | .scalar .null => .null
  | .scalar (.bool _) => .bool
  | .scalar (.int _) => .int
  | .scalar (.real _) => .real
  | .scalar (.moment m) => if m.time?.isSome then .time else .day
  | .scalar (.text _) => .text
  | .list _ => .list
  | .map _ => .map

mutual

/-- Whether two values are equal. Mappings are when they have as many entries, and the one has every
entry of the other, in whatever order. -/
def same : Data → Data → Bool
  | .scalar a, .scalar b => a == b
  | .list items, .list others => sameItems items others
  | .map entries, .map others => entries.length == others.length && sameEntries entries others
  | _, _ => false

def sameItems : List Data → List Data → Bool
  | [], [] => true
  | item :: items, other :: others => same item other && sameItems items others
  | _, _ => false

/-- Whether a mapping has each of some entries. -/
def sameEntries : List (Scalar × Data) → Assoc Scalar Data → Bool
  | [], _ => true
  | entry :: entries, others => sameEntry entry others && sameEntries entries others

def sameEntry : Scalar × Data → Assoc Scalar Data → Bool
  | (key, value), others =>
    match others.get? key with
    | some another => same value another
    | none => false

end

/-- What a value consists of when it is gone through: a text of its characters, a mapping of its
keys. Other scalars have no elements. -/
def elements? : Data → Option (List Data)
  | .scalar (.text s) => some (s.toList.map fun c => text (String.singleton c))
  | .scalar _ => none
  | .list items => some items
  | .map entries => some (entries.map fun e => .scalar e.1)

end Data

end SheetDoc
