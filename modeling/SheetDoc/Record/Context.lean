import SheetDoc.Path

namespace SheetDoc

inductive Kind
  | function
  | mixin
  | placeholder
  | var
  | css
  | unknown
  deriving DecidableEq, Repr, Inhabited

namespace Kind

def word : Kind → String
  | function => "function"
  | mixin => "mixin"
  | placeholder => "placeholder"
  | var => "variable"
  | css => "css"
  | unknown => "unknown"

def ofWord? : String → Option Kind
  | "function" => some function
  | "mixin" => some mixin
  | "placeholder" => some placeholder
  | "variable" => some var
  | "css" => some css
  | "unknown" => some unknown
  | _ => none

theorem ofWord?_word (k : Kind) : ofWord? k.word = some k := by
  cases k <;> rfl

theorem word_injective {a b : Kind} (same : a.word = b.word) : a = b := by
  have := congrArg ofWord? same
  simpa only [ofWord?_word, Option.some.injEq] using this

/-- The kinds that one construct can refer to by name. -/
def isReferable : Kind → Bool
  | function | mixin | placeholder | var => true
  | css | unknown => false

end Kind

/-- The documented construct. Only variables have a value and a scope; the lines are those of the
captured code, where there is any. -/
structure Context where
  kind : Kind
  name : String := ""
  value : Option String := none
  scope : Option String := none
  code : String := ""
  lineStart : Option Int := none
  lineEnd : Option Int := none
  deriving DecidableEq, Repr, Inhabited

/-- The file that a record stands in. -/
structure FileRef where
  path : String
  name : String
  deriving DecidableEq, Repr, Inhabited

def FileRef.ofPath (path : String) : FileRef :=
  let p := Path.ofString path
  { path := p.text, name := p.name }

end SheetDoc
