namespace SheetDoc.Yaml

inductive Fault
  /-- The text breaks the rules of the format, or a tag means nothing here. -/
  | malformed
  /-- A scalar is not written the way its tag asks. -/
  | unreadable
  /-- A number without digits, not even a sign before nothing. -/
  | emptyNumber
  /-- A truth value in a word that means neither. -/
  | unknownWord (word : String)
  /-- A date that is not written as one. -/
  | notAMoment
  /-- An escape names a code that no machine word holds. -/
  | codeTooLarge
  /-- Collections are nested too deep, or an alias stands inside the value that it names. -/
  | endless
  deriving DecidableEq, Repr

end SheetDoc.Yaml
