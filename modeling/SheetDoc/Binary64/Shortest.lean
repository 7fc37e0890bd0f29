import SheetDoc.Binary64.Basic

namespace SheetDoc.Binary64

/-- `digits * 10 ^ exponent`. -/
structure Decimal where
  digits : Nat
  exponent : Int
  deriving DecidableEq, Repr

/-- A positive number with the interval of the reals that round to it, all in units of
`2 ^ exponent`. The ends belong to it when the mantissa is even. -/
structure Span where
  low : Nat
  value : Nat
  high : Nat
  exponent : Int
  closed : Bool

/-- The interval of `mantissa * 2 ^ exponent`. Below a power of two the neighbour is half as far
away as above it. -/
def span (mantissa : Nat) (exponent : Int) : Span :=
  let last := max (exponent + mantissa.log2 - (precision - 1)) leastExponent
  let full := mantissa * twoTo (exponent - last)
  let narrow := full = twoTo (precision - 1) ∧ leastExponent < last
  { low := if narrow then 4 * full - 1 else 4 * full - 2
    value := 4 * full, high := 4 * full + 2, exponent := last - 2, closed := full % 2 = 0 }

/-- Compares a decimal with `n * 2 ^ exponent`, exactly. -/
def Decimal.compareBinary (d : Decimal) (n : Nat) (exponent : Int) : Ordering :=
  compare (d.digits * tenTo d.exponent * twoTo (-exponent))
    (n * twoTo exponent * tenTo (-d.exponent))

/-- Whether a decimal rounds to the number of the interval. -/
def Span.holds (s : Span) (d : Decimal) : Bool :=
  let low := d.compareBinary s.low s.exponent
  let high := d.compareBinary s.high s.exponent
  (low == .gt || (s.closed && low == .eq)) && (high == .lt || (s.closed && high == .eq))

/-- The number of whole decimal digits, zero or negative below one. The estimate from the binary
logarithm is off by one at most. -/
def Span.size (s : Span) : Int :=
  let guess := ((s.value.log2 : Int) + s.exponent) * 30103 / 100000
  let reaches (k : Int) : Bool := (Decimal.mk 1 k).compareBinary s.value s.exponent != .gt
  if reaches (guess + 1) then guess + 2 else if reaches guess then guess + 1 else guess

/-- The nearest decimal of the interval on the grid of multiples of `10 ^ exponent`. From the
middle between two, the even one is taken. -/
def Span.onGrid? (s : Span) (exponent : Int) : Option Decimal :=
  let num := s.value * twoTo s.exponent * tenTo (-exponent)
  let den := twoTo (-s.exponent) * tenTo exponent
  let below : Decimal := ⟨num / den, exponent⟩
  let above : Decimal := ⟨num / den + 1, exponent⟩
  match s.holds below, s.holds above with
  | true, true => some ⟨roundQuotient num den, exponent⟩
  | true, false => some below
  | false, true => some above
  | false, false => none

/-- Takes the factors of ten out of the digits. -/
def strip (digits : Nat) (exponent : Int) : Decimal :=
  if digits = 0 then ⟨0, 0⟩
  else if digits % 10 = 0 then strip (digits / 10) (exponent + 1)
  else ⟨digits, exponent⟩

/-- No number needs more digits than this. -/
def mostDigits : Nat := 17

/-- The shortest decimal that reads back as `mantissa * 2 ^ exponent`. -/
def shortest (mantissa : Nat) (exponent : Int) : Decimal :=
  let s := span mantissa exponent
  let size := s.size
  match (List.range mostDigits).findSome? fun (n : Nat) => s.onGrid? (size - (n + 1)) with
  | some d => strip d.digits d.exponent
  | none => ⟨s.value, s.exponent⟩

/-- Positional notation is used for sizes above the first and up to the second bound. -/
def positionalAbove : Int := -4

def positionalUpTo : Int := 16

/-- A sign and at least two digits. -/
def exponentText (exponent : Int) : List Char :=
  let digits := Nat.toDigits 10 exponent.natAbs
  (if exponent < 0 then '-' else '+') :: List.replicate (2 - digits.length) '0' ++ digits

/-- A positive decimal as text. A number in positional notation has a digit on each side of the
point. -/
def Decimal.text (d : Decimal) : List Char :=
  let digits := Nat.toDigits 10 d.digits
  let size : Int := d.exponent + digits.length
  if positionalAbove < size ∧ size ≤ positionalUpTo then
    if size ≤ 0 then '0' :: '.' :: List.replicate (-size).toNat '0' ++ digits
    else
      let fraction := digits.drop size.toNat
      digits.take size.toNat ++ List.replicate (size.toNat - digits.length) '0' ++
        '.' :: (if fraction.isEmpty then ['0'] else fraction)
  else
    let tail := digits.drop 1
    digits.take 1 ++ (if tail.isEmpty then [] else '.' :: tail) ++ 'e' :: exponentText (size - 1)

def signText (negative : Bool) : List Char := if negative then ['-'] else []

def text : Binary64 → String
  | finite negative mantissa exponent =>
    let unsigned := if mantissa = 0 then ['0', '.', '0'] else (shortest mantissa exponent).text
    String.ofList (signText negative ++ unsigned)
  | infinite negative => String.ofList (signText negative ++ ['i', 'n', 'f'])
  | nan => "nan"

end SheetDoc.Binary64
