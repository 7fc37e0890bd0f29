namespace SheetDoc.Text

/-- The pieces between the separators; a text without a separator is one piece. -/
def splitOn (sep : Char) : List Char → List (List Char)
  | [] => [[]]
  | c :: r =>
    if c = sep then [] :: splitOn sep r
    else (splitOn sep r).modifyHead (c :: ·)

def lines (s : List Char) : List (List Char) := splitOn '\n' s

def unlines (ls : List (List Char)) : List Char := ['\n'].intercalate ls

/-- Carriage returns that end a line are dropped, others are kept. -/
def unifyLineEnds : List Char → List Char
  | '\r' :: '\n' :: r => '\n' :: unifyLineEnds r
  | c :: r => c :: unifyLineEnds r
  | [] => []

/-- Every line end becomes a line feed, also a carriage return that stands alone. -/
def unifyBreaks : List Char → List Char
  | '\r' :: '\n' :: r => '\n' :: unifyBreaks r
  | c :: r => (if c = '\r' then '\n' else c) :: unifyBreaks r
  | [] => []

theorem splitOn_ne_nil (sep : Char) (s : List Char) : splitOn sep s ≠ [] := by
  induction s with
  | nil => simp [splitOn]
  | cons c r ih =>
    rw [splitOn]
    split
    · simp
    · cases h : splitOn sep r with
      | nil => exact absurd h ih
      | cons => simp

/-- Spaces and tabs count as indentation, other blanks as text. -/
def isIndent (c : Char) : Bool := c == ' ' || c == '\t'

def commonStart : List Char → List Char → List Char
  | a :: r, b :: t => if a = b then a :: commonStart r t else []
  | _, _ => []

/-- The longest indentation that every line with text begins with. -/
def margin (ls : List (List Char)) : List Char :=
  match ls.filter (!·.all isIndent) with
  | [] => []
  | l :: rest => rest.foldl (fun m k => commonStart m (k.takeWhile isIndent)) (l.takeWhile isIndent)

/-- Empties the lines made only of indentation and removes the common margin from the others. -/
def dedent (ls : List (List Char)) : List (List Char) :=
  let width := (margin ls).length
  ls.map fun l => if l.all isIndent then [] else l.drop width

end SheetDoc.Text
