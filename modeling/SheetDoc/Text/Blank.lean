namespace SheetDoc.Text

/-- White space: the control characters that separate, and every space and line separator. -/
def isBlank (c : Char) : Bool :=
  let n := c.toNat
  (9 ≤ n && n ≤ 13) || (0x1C ≤ n && n ≤ 0x20) || n == 0x85 || n == 0xA0 || n == 0x1680 ||
    (0x2000 ≤ n && n ≤ 0x200A) || n == 0x2028 || n == 0x2029 || n == 0x202F || n == 0x205F ||
    n == 0x3000

def trimLeft (s : List Char) : List Char := s.dropWhile isBlank

/-- A character goes when it is blank and nothing is left after it. -/
def trimRight : List Char → List Char
  | [] => []
  | c :: r =>
    match trimRight r with
    | [] => if isBlank c then [] else [c]
    | d :: t => c :: d :: t

def trim (s : List Char) : List Char := trimRight (trimLeft s)

def allBlank (s : List Char) : Bool := s.all isBlank

theorem trimRight_eq_nil_iff {s : List Char} : trimRight s = [] ↔ allBlank s := by
  induction s with
  | nil => simp [trimRight, allBlank]
  | cons c r ih =>
    simp only [allBlank] at ih
    rw [trimRight]
    split
    · rename_i h
      by_cases hc : isBlank c <;> simp_all [allBlank]
    · rename_i h
      simp_all [allBlank]

theorem trimLeft_length_le (s : List Char) : (trimLeft s).length ≤ s.length :=
  (List.dropWhile_sublist isBlank).length_le

/-- The text between the blanks at both ends. -/
def trimmed (s : String) : String := String.ofList (trim s.toList)

end SheetDoc.Text
