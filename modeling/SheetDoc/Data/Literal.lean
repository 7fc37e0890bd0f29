import SheetDoc.Binary64.Shortest
import SheetDoc.Data.Basic
import SheetDoc.Text.Quoted

namespace SheetDoc

def Scalar.literal : Scalar → String
  | .null => "None"
  | .bool true => "True"
  | .bool false => "False"
  | .int n => toString n
  | .real x => x.text
  | .moment m => m.literal
  | .text s => Text.quoted s

namespace Data

mutual

def literal : Data → String
  | .scalar value => value.literal
  | .list items => "[" ++ ", ".intercalate (literals items) ++ "]"
  | .map entries => "\x7b" ++ ", ".intercalate (entryLiterals entries) ++ "\x7d"

def literals : List Data → List String
  | [] => []
  | item :: rest => literal item :: literals rest

def entryLiterals : List (Scalar × Data) → List String
  | [] => []
  | entry :: rest => entryLiteral entry :: entryLiterals rest

def entryLiteral : Scalar × Data → String
  | (key, value) => key.literal ++ ": " ++ literal value

end

/-- A text reads as itself and a moment as dates are written, every other value as its literal. -/
def plainText : Data → String
  | .scalar (.text s) => s
  | .scalar (.moment m) => m.text
  | value => value.literal

end Data

end SheetDoc
