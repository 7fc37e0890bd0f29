import SheetDoc.Binary64.Basic

namespace SheetDoc.Binary64

/-- The number that decimal digits write. -/
def digitsValue (digits : List Char) : Nat :=
  digits.foldl (fun n c => n * 10 + (c.toNat - '0'.toNat)) 0

/-- A sign, if there is one, and what follows it. -/
def takeSign : List Char → Bool × List Char
  | '-' :: r => (true, r)
  | '+' :: r => (false, r)
  | s => (false, s)

/-- The exponent written after the digits; without one it is zero. -/
def readExponent? : List Char → Option Int
  | [] => some 0
  | c :: r =>
    let (negative, digits) := takeSign r
    if (c = 'e' ∨ c = 'E') ∧ !digits.isEmpty ∧ digits.all (·.isDigit) then
      some (signedMantissa negative (digitsValue digits))
    else none

/-- The number nearest to what the text says. -/
def read? (s : List Char) : Option Binary64 :=
  let (negative, s) := takeSign s
  let whole := s.takeWhile (·.isDigit)
  let rest := s.drop whole.length
  let fraction := if rest.head? = some '.' then (rest.drop 1).takeWhile (·.isDigit) else []
  let rest := if rest.head? = some '.' then rest.drop (fraction.length + 1) else rest
  if whole.isEmpty && fraction.isEmpty then none
  else
    (readExponent? rest).map fun exponent =>
      ofDecimal negative (digitsValue (whole ++ fraction)) (exponent - fraction.length)

end SheetDoc.Binary64
