import SheetDoc.Record.Context
import SheetDoc.Text.Blank
import SheetDoc.Text.Search
import SheetDoc.Text.WordChar

namespace SheetDoc

/-- A name of at least one character and the text after it. -/
def readName? (s : List Char) : Option (List Char × List Char) :=
  match s.takeWhile Text.isNameChar with
  | [] => none
  | c :: r => some (c :: r, s.dropWhile Text.isNameChar)

/-- The text after at least one blank, from the next character on that is not blank. -/
def afterBlanks? : List Char → Option (List Char)
  | c :: r => if Text.isBlank c then some (Text.trimLeft r) else none
  | [] => none

/-- `@mixin name` or `@function name`. -/
def callableHead? (s : List Char) : Option (Kind × List Char × List Char) :=
  let body := Text.trimLeft s
  let named (kind : Kind) (rest : List Char) : Option (Kind × List Char × List Char) :=
    ((afterBlanks? rest).bind readName?).map (kind, ·)
  match Text.after? ('@' :: Kind.mixin.word.toList) body with
  | some rest => named .mixin rest
  | none => (Text.after? ('@' :: Kind.function.word.toList) body).bind (named .function)

/-- `%name`. -/
def placeholderHead? (s : List Char) : Option (List Char) :=
  ((Text.after? ['%'] (Text.trimLeft s)).bind readName?).map (·.1)

/-- `$name :`. -/
def variableHead? (s : List Char) : Option (List Char) :=
  match (Text.after? ['$'] (Text.trimLeft s)).bind readName? with
  | some (name, rest) => if Text.startsWith [':'] (Text.trimLeft rest) then some name else none
  | none => none

/-- The selector of a style rule: the text before the brace that opens its body. -/
def ruleHead? (s : List Char) : Option (List Char) :=
  match Text.trimLeft s with
  | [] => none
  | c :: r =>
    if c == '@' || c == '$' || c == '%' || c == '/' then none
    else
      let inner := r.takeWhile fun d => d != '\x7b' && d != ';'
      if Text.startsWith ['\x7b'] (r.drop inner.length) then some (c :: Text.trimRight inner)
      else none

end SheetDoc
