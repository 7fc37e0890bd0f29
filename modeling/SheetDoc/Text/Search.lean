namespace SheetDoc.Text

def startsWith (pattern s : List Char) : Bool := pattern.isPrefixOf s

/-- The text before the first occurrence of the pattern, all of it when there is none. -/
def cutBefore (pattern : List Char) : List Char → List Char
  | [] => []
  | c :: r => if startsWith pattern (c :: r) then [] else c :: cutBefore pattern r

/-- Whether the pattern, which is not empty, stands anywhere in the text. -/
def occurs (pattern : List Char) : List Char → Bool
  | [] => false
  | c :: r => startsWith pattern (c :: r) || occurs pattern r

/-- The text after the pattern, when it starts with it. -/
def after? : (pattern s : List Char) → Option (List Char)
  | [], s => some s
  | p :: ps, c :: r => if p = c then after? ps r else none
  | _ :: _, [] => none

/-- The parts before and after the first `sep`; none without one. -/
def breakAt? (sep : Char) : List Char → Option (List Char × List Char)
  | [] => none
  | c :: r => if c = sep then some ([], r) else (breakAt? sep r).map fun (a, b) => (c :: a, b)

theorem after?_eq_some_iff {pattern s rest : List Char} :
    after? pattern s = some rest ↔ s = pattern ++ rest := by
  induction pattern generalizing s with
  | nil => simp [after?]
  | cons p ps ih =>
    cases s with
    | nil => simp [after?]
    | cons c r =>
      by_cases h : p = c
      · simp [after?, h, ih]
      · simp [after?, h, Ne.symm h]

end SheetDoc.Text
