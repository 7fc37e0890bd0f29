import SheetDoc.Data.Basic
import SheetDoc.Text.Blank
import SheetDoc.Text.Lowercase
import SheetDoc.Yaml.Document

namespace SheetDoc.Yaml

namespace Scalar

def trueWords : List String := ["yes", "true", "on"]

def falseWords : List String := ["no", "false", "off"]

def truth (text : String) : Except Fault Scalar :=
  let word := Text.lowered text
  if trueWords.contains word then .ok (.bool true)
  else if falseWords.contains word then .ok (.bool false)
  else .error (.unknownWord word)

/-- No decimal number has more digits than this. -/
def mostDigits : Nat := 4300

/-- What may stand before the digits of a base. -/
def baseLetter (base : Nat) : Option (Char × Char) :=
  if base = 2 then some ('b', 'B')
  else if base = 8 then some ('o', 'O')
  else if base = 16 then some ('x', 'X')
  else none

def dropBase (base : Nat) : List Char → List Char
  | '0' :: c :: r =>
    if (baseLetter base).any fun (l, u) => c == l || c == u then r else '0' :: c :: r
  | s => s

/-- A number with digits of a base, perhaps between blanks and behind a sign. -/
def integer (base : Nat) (s : List Char) : Except Fault Int :=
  let (negative, digits) := Binary64.takeSign (Text.trim s)
  let digits := dropBase base digits
  if digits.isEmpty || !digits.all (isDigitOf base) ||
      (base == 10 && mostDigits < digits.length) then .error .unreadable
  else .ok (Binary64.signedMantissa negative (digitsValue base digits))

/-- Numbers below sixty count the one after them. -/
def sexagesimal (parts : List Int) : Int := parts.foldl (fun n part => n * 60 + part) 0

/-- A whole number without its sign. -/
def unsigned (s : List Char) : Except Fault Int :=
  match s with
  | [] => .error .emptyNumber
  | ['0'] => .ok 0
  | '0' :: 'b' :: r => integer 2 r
  | '0' :: 'x' :: r => integer 16 r
  | '0' :: r => integer 8 ('0' :: r)
  | s =>
    if s.contains ':' then do
      return sexagesimal (← (Text.splitOn ':' s).mapM (integer 10))
    else integer 10 s

def dropLines (text : String) : List Char := text.toList.filter (· != '_')

def whole (text : String) : Except Fault Scalar := do
  let s := dropLines text
  if s.isEmpty then throw .emptyNumber
  let (negative, digits) := Binary64.takeSign s
  let n ← unsigned digits
  return .int (if negative then -n else n)

/-- A number with a point or an exponent, or a word for one. -/
def real (s : List Char) : Except Fault Binary64 :=
  let (negative, word) := Binary64.takeSign (Text.trim s)
  if ["inf", "infinity"].contains (String.ofList word) then .ok (.infinite negative)
  else if word == ['n', 'a', 'n'] then .ok .nan
  else
    match Binary64.read? (Text.trim s) with
    | some x => .ok x
    | none => .error .unreadable

/-- The sum of the parts from the last one on, each weighed sixty times the one after it. -/
def realSexagesimal (parts : List Binary64) : Binary64 :=
  (parts.reverse.foldl
    (fun (sum, weight) part =>
      (Binary64.add sum (Binary64.mul part (Binary64.ofNat weight)), weight * 60))
    (Binary64.zero false, 1)).1

def float (text : String) : Except Fault Scalar := do
  let s := Text.lower (dropLines text)
  if s.isEmpty then throw .emptyNumber
  let (negative, digits) := Binary64.takeSign s
  let x ←
    if digits == ['.', 'i', 'n', 'f'] then pure (.infinite false)
    else if digits == ['.', 'n', 'a', 'n'] then pure .nan
    else if digits.contains ':' then do
      pure (realSexagesimal (← (Text.splitOn ':' digits).mapM real))
    else real digits
  return .real (if negative then x.negate else x)

def moment (text : String) : Except Fault Scalar :=
  match Moment.read? text.toList with
  | none => .error .notAMoment
  | some m => if m.exists? then .ok (.moment m) else .error .unreadable

/-- The value of a scalar with a tag. -/
def ofText (tag : Tag) (text : String) : Except Fault Scalar :=
  match tag with
  | .null => .ok .null
  | .bool => truth text
  | .int => whole text
  | .float => float text
  | .moment => moment text
  | .text => .ok (.text text)
  | _ => .error .malformed

end Scalar

/-- A value, or what stands for it when a fault was found, with the depth of the fault. -/
structure Outcome (α : Type) where
  value : α
  fault? : Option (Nat × Fault) := none

namespace Outcome

def refuse (value : α) (depth : Nat) (fault : Fault) : Outcome α := ⟨value, some (depth, fault)⟩

/-- The fault that is met first. -/
def first : Option (Nat × Fault) → Option (Nat × Fault) → Option (Nat × Fault)
  | some a, some b => if b.1 < a.1 then some b else some a
  | a, none => a
  | none, b => b

def map₂ (f : α → β → γ) (a : Outcome α) (b : Outcome β) : Outcome γ :=
  ⟨f a.value b.value, first a.fault? b.fault?⟩

end Outcome

namespace Node

/-- A value inside itself has no end, which shows only when all else is read. -/
def endlessDepth : Nat := 1000000

def readScalar (depth : Nat) (tag : Tag) (text : String) : Outcome Data :=
  match Scalar.ofText tag text with
  | .ok s => ⟨.scalar s, none⟩
  | .error fault =>
    -- What should be a collection is found not to be one when its parts are read.
    .refuse .null (if tag = .sequence ∨ tag = .mapping then depth + 1 else depth) fault

/-- The key that a value is stored under. -/
def asKey (depth : Nat) (key : Outcome Data) : Outcome SheetDoc.Scalar :=
  match key.value with
  | .scalar s => ⟨s, key.fault?⟩
  | _ => ⟨.null, Outcome.first key.fault? (some (depth, .malformed))⟩

mutual

/-- The data of a node at a depth. -/
def read (depth : Nat) : Node → Outcome Data
  | .scalar tag text =>
    if tag = .default then .refuse .null depth .malformed else readScalar depth tag text
  | .sequence tag items =>
    match tag with
    | .sequence =>
      let items := readItems (depth + 1) items
      ⟨.list items.value, items.fault?⟩
    | .mapping => .refuse (.map []) (depth + 1) .malformed
    | _ => .refuse .null depth .malformed
  | .mapping tag entries? =>
    match tag with
    | .mapping => readMerged (depth + 1) entries?
    | .sequence => .refuse (.list []) (depth + 1) .malformed
    | _ => .refuse .null depth .malformed
  | .cycle => .refuse .null endlessDepth .endless

def readItems (depth : Nat) : List Node → Outcome (List Data)
  | [] => ⟨[], none⟩
  | item :: rest => .map₂ (· :: ·) (read depth item) (readItems depth rest)

def readMerged (depth : Nat) : Option (List (Node × Node)) → Outcome Data
  | none => .refuse (.map []) depth .malformed
  | some entries =>
    let entries := readEntries depth entries
    ⟨.map (Assoc.ofList entries.value), entries.fault?⟩

def readEntries (depth : Nat) : List (Node × Node) → Outcome (List (SheetDoc.Scalar × Data))
  | [] => ⟨[], none⟩
  | entry :: rest => .map₂ (· :: ·) (readEntry depth entry) (readEntries depth rest)

/-- As a key, the sign for a default is a text. -/
def readEntry (depth : Nat) : Node × Node → Outcome (SheetDoc.Scalar × Data)
  | (key, value) =>
    let key :=
      match key with
      | .scalar .default text => ⟨.text text, none⟩
      | key => asKey depth (read depth key)
    .map₂ (·, ·) key (read depth value)

end

end Node

/-- The data of the document in a text, null when there is none. Of several faults the least nested
counts, and of those the first. -/
def read (text : List Char) : Except Fault Data := do
  match ← Node.ofText text with
  | none => return .null
  | some node =>
    match node.read 0 with
    | ⟨_, some (_, fault)⟩ => throw fault
    | ⟨value, none⟩ => return value

end SheetDoc.Yaml
