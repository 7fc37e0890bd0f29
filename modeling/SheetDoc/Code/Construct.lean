import SheetDoc.Block.Basic
import SheetDoc.Code.Declaration

namespace SheetDoc

/-- The flags that may follow a variable's value. -/
def flagWords : List (List Char) :=
  [['d', 'e', 'f', 'a', 'u', 'l', 't'], ['g', 'l', 'o', 'b', 'a', 'l']]

/-- A flag at the start of the text, after any blanks, and the text behind it. The flag's word
ends there. -/
def flagAt? (s : List Char) : Option (List Char × List Char) :=
  flagWords.findSome? fun word =>
    match Text.after? ('!' :: word) (Text.trimLeft s) with
    | some rest => if rest.head?.any Text.isWordChar then none else some (word, rest)
    | none => none

theorem flagAt?_length_lt {s word rest : List Char} (found : flagAt? s = some (word, rest)) :
    rest.length < s.length := by
  obtain ⟨w, _, at_w⟩ := List.exists_of_findSome?_eq_some found
  split at at_w
  · rename_i tail same
    split at at_w
    · cases at_w
    · simp only [Option.some.injEq, Prod.mk.injEq] at at_w
      obtain ⟨_, rfl⟩ := at_w
      have shorter := Text.trimLeft_length_le s
      rw [Text.after?_eq_some_iff.mp same] at shorter
      simp only [List.cons_append, List.length_cons, List.length_append] at shorter
      omega
  · cases at_w

/-- The text without its flags, and the flags in order. -/
def takeFlags (s : List Char) : List Char × List (List Char) :=
  match _found : flagAt? s with
  | some (word, rest) =>
    let (text, flags) := takeFlags rest
    (text, word :: flags)
  | none =>
    match s with
    | [] => ([], [])
    | c :: r =>
      let (text, flags) := takeFlags r
      (c :: text, flags)
termination_by s.length
decreasing_by
  · exact flagAt?_length_lt _found
  · simp

def dropSemicolon (s : List Char) : List Char :=
  if s.getLast? = some ';' then Text.trimRight s.dropLast else s

def privateScope : List Char := ['p', 'r', 'i', 'v', 'a', 't', 'e']

/-- The value and the scope in a variable's declaration. The last flag decides the scope; without
one the variable is private. -/
def variableValue (code : List Char) : List Char × List Char :=
  let written := (Text.breakAt? ':' code).elim [] (·.2)
  let (text, flags) := takeFlags (dropSemicolon (Text.trim written))
  (Text.trim text, flags.getLastD privateScope)

/-- The context of a block. A block without code, or whose first line declares nothing, documents
something unknown. -/
def Context.ofBlock (b : Block) : Context :=
  let context : Context :=
    { kind := .unknown, code := b.code, lineStart := b.codeStart, lineEnd := b.codeEnd }
  if b.code = "" then context
  else
    let line := b.codeLine.toList
    match callableHead? line with
    | some (kind, name, _) => { context with kind := kind, name := String.ofList name }
    | none =>
      match placeholderHead? line with
      | some name => { context with kind := .placeholder, name := String.ofList name }
      | none =>
        match variableHead? line with
        | some name =>
          let (value, scope) := variableValue b.code.toList
          { context with
            kind := .var, name := String.ofList name
            value := some (String.ofList value), scope := some (String.ofList scope) }
        | none =>
          match ruleHead? line with
          | some name => { context with kind := .css, name := String.ofList name }
          | none => context

end SheetDoc
