import SheetDoc.Config.Basic
import SheetDoc.FileTree
import SheetDoc.Text.Lines
import SheetDoc.Yaml.Value

namespace SheetDoc.Config

/-- The settings in the text of a configuration file; an empty document has none. -/
def settings (path : String) (text : List Char) : Except Failure (Assoc Scalar Data) :=
  match Yaml.read (Text.unifyBreaks text) with
  | .error fault => .error (.document fault)
  | .ok (.map entries) => .ok entries
  | .ok value => if value.truthy then .error (.config (.notMapping path)) else .ok []

/-- The configuration in the file at a path, the default one where there is no file. -/
def load (t : FileTree) (path : Option String) : Except Failure Config :=
  let named := path.getD ""
  if named = "" then build []
  else
    match t.read named with
    | .error (.directory shown) => .error (.file (.directory shown))
    | .error (.nameTooLong shown) => .error (.file (.nameTooLong shown))
    | .error _ => build []
    | .ok bytes =>
      match Text.utf8DecodeFrom 0 bytes with
      | .error fault => .error (.encoding fault)
      | .ok text => do build (← settings named text)

end SheetDoc.Config
