import SheetDoc.Text.Blank
import SheetDoc.Text.Lines
import SheetDoc.Text.WordChar

namespace SheetDoc

/-- The value of one tag as it stands in the comment, `offset` lines below the comment's first. -/
structure Tagged where
  tag : String
  raw : String
  offset : Nat
  deriving DecidableEq, Repr

/-- The text of a comment, taken apart. A tag opens a line once the indentation common to all lines
is removed; the lines after it belong to its value until the next tag. -/
structure Comment where
  description : String
  items : List Tagged
  deriving DecidableEq, Repr

def isLetter (c : Char) : Bool := c.isAlpha

/-- The tag that opens a line and the text after it. -/
def tagLine? : List Char → Option (List Char × List Char)
  | '@' :: c :: r =>
    if isLetter c then
      some (c :: r.takeWhile Text.isNameChar, Text.trimLeft (r.dropWhile Text.isNameChar))
    else none
  | _ => none

/-- The lines before the first tag, and the tagged values with the lines that belong to them. -/
def splitTags (offset : Nat) : List (List Char) → List (List Char) × List Tagged
  | [] => ([], [])
  | l :: r =>
    let (loose, items) := splitTags (offset + 1) r
    match tagLine? l with
    | none => (l :: loose, items)
    | some (tag, first) =>
      ([], ⟨String.ofList tag, String.ofList (Text.trimRight (Text.unlines (first :: loose))),
        offset⟩ :: items)

def Comment.ofText (text : String) : Comment :=
  let (loose, items) := splitTags 0 (Text.dedent (Text.lines text.toList))
  { description := String.ofList (Text.trim (Text.unlines (Text.dedent loose))), items := items }

end SheetDoc
