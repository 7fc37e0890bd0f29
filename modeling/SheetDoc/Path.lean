import SheetDoc.Text.Lines

namespace SheetDoc

/-- A file path, normalised by its text alone: repeated slashes and single dots go, two dots stay, and
exactly two slashes in front are a root of their own. -/
structure Path where
  /-- The leading slashes, none for a relative path. -/
  root : String
  parts : List String
  deriving DecidableEq, Repr

namespace Path

def rootOf : List Char → String
  | '/' :: '/' :: '/' :: _ => "/"
  | '/' :: '/' :: _ => "//"
  | '/' :: _ => "/"
  | _ => ""

def ofString (s : String) : Path where
  root := rootOf s.toList
  parts := ((Text.splitOn '/' s.toList).filter fun p => p ≠ [] ∧ p ≠ ['.']).map String.ofList

/-- The path in its normal form; the empty relative path is a dot. -/
def text (p : Path) : String :=
  if p.root = "" ∧ p.parts = [] then "." else p.root ++ "/".intercalate p.parts

/-- The last component, empty for a root and for the dot. -/
def name (p : Path) : String := p.parts.getLastD ""

end Path

end SheetDoc
