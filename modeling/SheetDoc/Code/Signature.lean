import SheetDoc.Assoc
import SheetDoc.Code.Declaration

namespace SheetDoc

/-- The text up to the parenthesis that closes `depth` open ones; an unclosed list runs on. -/
def untilClosed (depth : Nat) : List Char → List Char
  | [] => []
  | c :: r =>
    if c = '(' then c :: untilClosed (depth + 1) r
    else if c = ')' then
      if depth ≤ 1 then [] else c :: untilClosed (depth - 1) r
    else c :: untilClosed depth r

/-- The pieces between the commas that stand outside all brackets. -/
def topLevelPieces (depth : Int) : List Char → List (List Char)
  | [] => [[]]
  | c :: r =>
    let depth :=
      if c = '(' ∨ c = '[' then depth + 1 else if c = ')' ∨ c = ']' then depth - 1 else depth
    if c = ',' ∧ depth = 0 then [] :: topLevelPieces depth r
    else (topLevelPieces depth r).modifyHead (c :: ·)

/-- The arguments of a list, where a comma may stand after the last one. -/
def splitArguments (s : List Char) : List (List Char) :=
  let pieces := topLevelPieces 0 s
  if Text.allBlank (pieces.getLastD []) then pieces.dropLast else pieces

/-- The arguments in the signature at the start of the code, none without a signature. -/
def signatureArguments (code : List Char) : List (List Char) :=
  match callableHead? code with
  | none => []
  | some (_, _, rest) =>
    match Text.after? ['('] (Text.trimLeft rest) with
    | none => []
    | some list => splitArguments (untilClosed 1 list)

def isVariableName (s : List Char) : Bool := Text.startsWith ['$'] s

/-- The default of each parameter that has one. -/
def signatureDefaults (code : String) : Assoc String String :=
  Assoc.ofList ((signatureArguments code.toList).filterMap fun argument =>
    match Text.breakAt? ':' argument with
    | none => none
    | some (name, value) =>
      let name := Text.trim name
      if isVariableName name then
        some (String.ofList name, String.ofList (Text.trim value))
      else none)

/-- The name in an argument, without the dots of a rest parameter. -/
def argumentName (argument : List Char) : List Char :=
  let name := Text.trim (argument.takeWhile (· != ':'))
  if ['.', '.', '.'].isSuffixOf name then name.take (name.length - 3) else name

def signatureParameters (code : String) : List String :=
  (((signatureArguments code.toList).map argumentName).filter isVariableName).map String.ofList

end SheetDoc
