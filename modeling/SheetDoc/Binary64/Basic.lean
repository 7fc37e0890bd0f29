namespace SheetDoc

/-- A number of the binary64 format. A finite one is an odd mantissa times a power of two, so two numbers
are the same exactly when their parts are. -/
inductive Binary64
  /-- The mantissa is odd, or else zero with the exponent zero. -/
  | finite (negative : Bool) (mantissa : Nat) (exponent : Int)
  | infinite (negative : Bool)
  | nan
  deriving DecidableEq, Repr, Inhabited

namespace Binary64

def zero (negative : Bool) : Binary64 := .finite negative 0 0

/-- Takes the factors of two out of a mantissa. -/
def reduce (mantissa : Nat) (exponent : Int) : Nat × Int :=
  if mantissa = 0 then (0, 0)
  else if mantissa % 2 = 0 then reduce (mantissa / 2) (exponent + 1)
  else (mantissa, exponent)
termination_by mantissa
decreasing_by omega

/-- A quotient rounded to the nearest whole number, and from the middle to the even one. -/
def roundQuotient (num den : Nat) : Nat :=
  let whole := num / den
  match compare (2 * (num % den)) den with
  | .lt => whole
  | .gt => whole + 1
  | .eq => if whole % 2 = 0 then whole else whole + 1

/-- The lowest exponent of a last binary digit. -/
def leastExponent : Int := -1074

/-- The bits of a mantissa. -/
def precision : Nat := 53

/-- Numbers from two to this power on are infinite. -/
def topExponent : Int := 1024

/-- A power of two, which is one where the exponent is negative. -/
def twoTo (exponent : Int) : Nat := Nat.pow 2 exponent.toNat

/-- A power of ten, which is one where the exponent is negative. -/
def tenTo (exponent : Int) : Nat := Nat.pow 10 exponent.toNat

/-- `num / den` as a quotient of whole numbers in units of a power of two. -/
def scaled (num den : Nat) (exponent : Int) : Nat × Nat :=
  (num * twoTo (-exponent), den * twoTo exponent)

/-- The exponent of the last binary digit that `num / den` keeps. -/
def lastExponent (num den : Nat) : Int :=
  let guess := max ((num.log2 : Int) - den.log2 - precision) leastExponent
  let (n, d) := scaled num den guess
  if n / d < twoTo precision then guess else guess + 1

/-- The number nearest to `num / den`. -/
def ofRatio (negative : Bool) (num den : Nat) : Binary64 :=
  if num = 0 then zero negative
  else
    let last := lastExponent num den
    let (n, d) := scaled num den last
    let (mantissa, exponent) := reduce (roundQuotient n d) last
    if mantissa = 0 then zero negative
    else if topExponent ≤ exponent + mantissa.log2 then .infinite negative
    else .finite negative mantissa exponent

/-- The number nearest to `mantissa * 2 ^ exponent`. -/
def ofBinary (negative : Bool) (mantissa : Nat) (exponent : Int) : Binary64 :=
  ofRatio negative (mantissa * twoTo exponent) (twoTo (-exponent))

/-- The number nearest to `digits * 10 ^ exponent`. What is far beyond all numbers or far below
them is not worked out. -/
def ofDecimal (negative : Bool) (digits : Nat) (exponent : Int) : Binary64 :=
  let size := exponent + (Nat.toDigits 10 digits).length
  if digits = 0 then zero negative
  else if 400 < size then .infinite negative
  else if size < -400 then zero negative
  else ofRatio negative (digits * tenTo exponent) (tenTo (-exponent))

def ofNat (n : Nat) : Binary64 := ofRatio false n 1

def isZero : Binary64 → Bool
  | finite _ 0 _ => true
  | _ => false

def negate : Binary64 → Binary64
  | finite negative mantissa exponent => finite (!negative) mantissa exponent
  | infinite negative => infinite (!negative)
  | nan => nan

/-- The mantissa with its sign. -/
def signedMantissa (negative : Bool) (mantissa : Nat) : Int :=
  if negative then -(mantissa : Int) else mantissa

/-- The exact sum, rounded. Two zeros of different signs make the positive one. -/
def add : Binary64 → Binary64 → Binary64
  | nan, _ => nan
  | _, nan => nan
  | infinite a, infinite b => if a = b then infinite a else nan
  | infinite a, _ => infinite a
  | _, infinite b => infinite b
  | finite a m e, finite b n f =>
    if m = 0 ∧ n = 0 then zero (a && b)
    else
      let low := min e f
      let sum := signedMantissa a (m * twoTo (e - low)) + signedMantissa b (n * twoTo (f - low))
      ofBinary (sum < 0) sum.natAbs low

/-- The exact product, rounded. -/
def mul : Binary64 → Binary64 → Binary64
  | nan, _ => nan
  | _, nan => nan
  | infinite a, infinite b => infinite (a != b)
  | infinite a, finite b n _ => if n = 0 then nan else infinite (a != b)
  | finite a m _, infinite b => if m = 0 then nan else infinite (a != b)
  | finite a m e, finite b n f => ofBinary (a != b) (m * n) (e + f)

end Binary64

end SheetDoc
