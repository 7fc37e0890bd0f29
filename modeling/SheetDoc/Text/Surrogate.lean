namespace SheetDoc.Text

/-- Surrogates are no characters, but an escape can name one. A code point from here on, where no
character has been given one, stands for it. -/
def surrogatePlane : Nat := 0xD0000

def isSurrogate (code : Nat) : Bool := 0xD800 ≤ code && code ≤ 0xDFFF

/-- The character with a code, or what stands for a surrogate. -/
def charOfCode (code : Nat) : Char :=
  Char.ofNat (if isSurrogate code then surrogatePlane + code else code)

/-- The code that a character stands for. -/
def codeOfChar (c : Char) : Nat :=
  if isSurrogate (c.toNat - surrogatePlane) then c.toNat - surrogatePlane else c.toNat

end SheetDoc.Text
