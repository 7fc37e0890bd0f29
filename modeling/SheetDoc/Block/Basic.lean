import SheetDoc.Text.Lines

namespace SheetDoc

/-- A documentation comment without its markers, and the construct that follows it. -/
structure Block where
  comment : String
  code : String
  commentStart : Int
  codeStart : Option Int := none
  codeEnd : Option Int := none
  /-- A poster speaks for the whole file and has no code. -/
  poster : Bool := false
  deriving DecidableEq, Repr

/-- The first line of the documented code. -/
def Block.codeLine (b : Block) : String := String.ofList ((Text.lines b.code.toList).headD [])

end SheetDoc
