namespace SheetDoc.Text

/-- Why bytes are not UTF-8. -/
inductive Utf8Flaw
  | invalidStart
  | invalidContinuation
  | unexpectedEnd
  deriving DecidableEq, Repr

/-- The bytes from `start`, `length` of them, of which the first is `byte`, cannot be read. -/
structure Utf8Fault where
  start : Nat
  length : Nat
  byte : UInt8
  flaw : Utf8Flaw
  deriving DecidableEq, Repr

/-- What a first byte announces: how many bytes follow, the range of the next one, and the bits
that the first byte itself carries. -/
structure Utf8Lead where
  more : Nat
  low : Nat
  high : Nat
  bits : Nat

/-- Overlong forms, surrogates and code points above the last plane are shut out by the range of
the second byte. -/
def Utf8Lead.ofByte? (byte : UInt8) : Option Utf8Lead :=
  let n := byte.toNat
  if n < 0x80 then some ⟨0, 0x80, 0xBF, n⟩
  else if n < 0xC2 then none
  else if n < 0xE0 then some ⟨1, 0x80, 0xBF, n - 0xC0⟩
  else if n = 0xE0 then some ⟨2, 0xA0, 0xBF, 0⟩
  else if n = 0xED then some ⟨2, 0x80, 0x9F, 0xD⟩
  else if n < 0xF0 then some ⟨2, 0x80, 0xBF, n - 0xE0⟩
  else if n = 0xF0 then some ⟨3, 0x90, 0xBF, 0⟩
  else if n < 0xF4 then some ⟨3, 0x80, 0xBF, n - 0xF0⟩
  else if n = 0xF4 then some ⟨3, 0x80, 0x8F, 4⟩
  else none

/-- Adds the bits of `more` following bytes, the first of them in `low..high`. A failure tells how
many bytes of the character were good. -/
def utf8Follow : (more low high good bits : Nat) → List UInt8 → Except (Nat × Utf8Flaw) Nat
  | 0, _, _, _, bits, _ => .ok bits
  | _ + 1, _, _, good, _, [] => .error (good, .unexpectedEnd)
  | more + 1, low, high, good, bits, byte :: rest =>
    if low ≤ byte.toNat ∧ byte.toNat ≤ high then
      utf8Follow more 0x80 0xBF (good + 1) (bits * 64 + (byte.toNat - 0x80)) rest
    else .error (good, .invalidContinuation)

def utf8DecodeFrom (position : Nat) : List UInt8 → Except Utf8Fault (List Char)
  | [] => .ok []
  | byte :: rest =>
    match Utf8Lead.ofByte? byte with
    | none => .error ⟨position, 1, byte, .invalidStart⟩
    | some lead =>
      match utf8Follow lead.more lead.low lead.high 1 lead.bits rest with
      | .error (good, flaw) => .error ⟨position, good, byte, flaw⟩
      | .ok code =>
        (utf8DecodeFrom (position + 1 + lead.more) (rest.drop lead.more)).map (Char.ofNat code :: ·)
termination_by bytes => bytes.length

/-- A byte order mark in front is not part of the text, and positions are counted after it. -/
def utf8Decode : List UInt8 → Except Utf8Fault String
  | 0xEF :: 0xBB :: 0xBF :: rest => (utf8DecodeFrom 0 rest).map String.ofList
  | bytes => (utf8DecodeFrom 0 bytes).map String.ofList

end SheetDoc.Text
