import SheetDoc.Code.Signature
import SheetDoc.Record.Basic

namespace SheetDoc

/-- The text after a block comment whose opening has been read, none if it is never closed. -/
def afterBlockComment? : List Char → Option (List Char)
  | '*' :: '/' :: r => some r
  | _ :: r => afterBlockComment? r
  | [] => none

theorem afterBlockComment?_length_lt {s rest : List Char}
    (closed : afterBlockComment? s = some rest) : rest.length < s.length := by
  fun_induction afterBlockComment? s with
  | case1 r => cases closed; simp only [List.length_cons]; omega
  | case2 c r _ ih => exact Nat.lt_succ_of_lt (ih closed)
  | case3 => cases closed

/-- Code without its comments. A block comment that is never closed is not one. -/
def dropComments (s : List Char) : List Char :=
  match s with
  | [] => []
  | c :: r =>
    match c, r with
    | '/', '*' :: t =>
      match _closed : afterBlockComment? t with
      | some rest => dropComments rest
      | none => '/' :: dropComments ('*' :: t)
    | '/', '/' :: t => dropComments (t.dropWhile (· != '\n'))
    | c, r => c :: dropComments r
termination_by s.length
decreasing_by
  all_goals simp only [List.length_cons]
  · have := afterBlockComment?_length_lt _closed
    omega
  · omega
  · have := (List.dropWhile_sublist (l := t) (· != '\n')).length_le
    omega
  · omega

def includeWord : List Char := ['i', 'n', 'c', 'l', 'u', 'd', 'e']

def extendWord : List Char := ['e', 'x', 't', 'e', 'n', 'd']

/-- The text after `@word` and at least one blank. -/
def afterDirective? (word s : List Char) : Option (List Char) :=
  (Text.after? ('@' :: word) s).bind afterBlanks?

def isDeclaredChar (c : Char) : Bool := Text.isNameChar c || c == '.'

/-- The text after a declaration or an inclusion with its name; namespaces are part of it. -/
def afterDeclaration? (s : List Char) : Option (List Char) :=
  [Kind.mixin.word.toList, Kind.function.word.toList, includeWord].findSome? fun word =>
    match afterDirective? word s with
    | some rest =>
      if rest.head?.any isDeclaredChar then some (rest.dropWhile isDeclaredChar) else none
    | none => none

theorem afterDirective?_length_lt {word s rest : List Char}
    (found : afterDirective? word s = some rest) : rest.length < s.length := by
  obtain ⟨blanks, at_word, at_blank⟩ := Option.bind_eq_some_iff.mp found
  rw [Text.after?_eq_some_iff.mp at_word]
  cases blanks with
  | nil => cases at_blank
  | cons c r =>
    simp only [afterBlanks?] at at_blank
    split at at_blank
    · cases at_blank
      have := Text.trimLeft_length_le r
      simp only [List.cons_append, List.length_cons, List.length_append]
      omega
    · cases at_blank

theorem afterDeclaration?_length_lt {s rest : List Char}
    (found : afterDeclaration? s = some rest) : rest.length < s.length := by
  obtain ⟨word, _, at_word⟩ := List.exists_of_findSome?_eq_some found
  split at at_word
  · rename_i tail same
    split at at_word
    · cases at_word
      have := afterDirective?_length_lt same
      have := (List.dropWhile_sublist (l := tail) isDeclaredChar).length_le
      omega
    · cases at_word
  · cases at_word

/-- Code without the names it declares or includes, so that these are not taken for calls. -/
def dropDeclarations (s : List Char) : List Char :=
  match _found : afterDeclaration? s with
  | some rest => dropDeclarations rest
  | none =>
    match s with
    | [] => []
    | c :: r => c :: dropDeclarations r
termination_by s.length
decreasing_by
  · exact afterDeclaration?_length_lt _found
  · simp

/-- Whether an identifier may begin a call after this character. -/
def endsWord (c : Char) : Bool :=
  !(Text.isNameChar c || c == '.' || c == '$' || c == '%' || c == '@' || c == ':' || c == '#')

def isCallStart (c : Char) : Bool := c.isAlpha || c == '_'

/-- The names in front of an opening parenthesis. -/
def calledNames (previous : Option Char) : List Char → List (List Char)
  | [] => []
  | c :: r =>
    let name := c :: r.takeWhile Text.isNameChar
    if isCallStart c && previous.all endsWord &&
        (r.dropWhile Text.isNameChar).head? == some '(' then
      name :: calledNames (some c) r
    else calledNames (some c) r

/-- The mixins that are included by their bare name; those of other namespaces are not. -/
def includedNames : List Char → List (List Char)
  | [] => []
  | c :: r =>
    match (afterDirective? includeWord (c :: r)).bind readName? with
    | some (name, rest) =>
      if rest.head? == some '.' then includedNames r else name :: includedNames r
    | none => includedNames r

def extendedNames : List Char → List (List Char)
  | [] => []
  | c :: r =>
    match ((afterDirective? extendWord (c :: r)).bind (Text.after? ['%'])).bind readName? with
    | some (name, _) => name :: extendedNames r
    | none => extendedNames r

/-- The names behind a dollar sign that does not stand inside another name. -/
def variableNames (previous : Option Char) : List Char → List (List Char)
  | [] => []
  | c :: r =>
    let name := r.takeWhile Text.isNameChar
    if c == '$' && !previous.any Text.isNameChar && !name.isEmpty then
      name :: variableNames (some c) r
    else variableNames (some c) r

/-- Functions that every stylesheet has, of the language and of style sheets in general. -/
def commonFunctions : List String :=
  [
    "abs", "adjust-color", "adjust-hue", "alpha", "append", "blue", "call", "ceil",
    "change-color", "comparable", "complement", "content-exists", "darken", "desaturate",
    "fade-in", "fade-out", "feature-exists", "floor", "function-exists", "get-function",
    "global-variable-exists", "grayscale", "green", "hue", "ie-hex-str", "if", "index", "inspect",
    "invert", "is-bracketed", "is-superselector", "join", "keywords", "length", "lighten",
    "lightness", "list-separator", "map-get", "map-has-key", "map-keys", "map-merge",
    "map-remove", "map-values", "max", "min", "mix", "mixin-exists", "nth", "opacify", "opacity",
    "percentage", "quote", "random", "red", "round", "saturate", "saturation", "scale-color",
    "selector-append", "selector-extend", "selector-nest", "selector-parse", "selector-replace",
    "selector-unify", "set-nth", "simple-selectors", "str-index", "str-insert", "str-length",
    "str-slice", "to-lower-case", "to-upper-case", "transparentize", "type-of", "unique-id",
    "unit", "unitless", "unquote", "variable-exists", "zip", "attr", "blur", "brightness", "calc",
    "clamp", "conic-gradient", "contrast", "counter", "counters", "cubic-bezier", "drop-shadow",
    "env", "fit-content", "format", "hsl", "hsla", "hue-rotate", "image-set", "linear-gradient",
    "local", "matrix", "matrix3d", "minmax", "not", "perspective", "radial-gradient", "repeat",
    "repeating-conic-gradient", "repeating-linear-gradient", "repeating-radial-gradient", "rgb",
    "rgba", "rotate", "rotate3d", "rotateX", "rotateY", "rotateZ", "scale", "scale3d", "scaleX",
    "scaleY", "sepia", "skew", "skewX", "skewY", "steps", "translate", "translate3d",
    "translateX", "translateY", "translateZ", "url", "var", "and", "or"
  ]

/-- Adds a use unless it is the record's own construct or known already. -/
def addUse (own : Kind × String) (found : List Require) (use : Kind × String) : List Require :=
  if use = own ∨ found.any (·.key = use) then found
  else found ++ [{ name := use.2, kind := use.1, autofill := true }]

/-- The names a record's code may use as variables without depending on another record. -/
def ownParameters (r : Record) (code : List Char) : List String :=
  (signatureParameters (String.ofList code)).map (fun p => String.ofList (p.toList.drop 1)) ++
    r.parameters.map fun p => String.ofList (p.name.toList.dropWhile (· == '$'))

/-- Everything the code uses, by kind and then in the order of the code. -/
def usesOf (r : Record) (code : List Char) : List (Kind × String) :=
  let named (kind : Kind) (names : List (List Char)) : List (Kind × String) :=
    names.map fun n => (kind, String.ofList n)
  let own := ownParameters r code
  (named .function (calledNames none (dropDeclarations code))).filter
      (fun u => !commonFunctions.contains u.2) ++
    named .mixin (includedNames code) ++ named .placeholder (extendedNames code) ++
    (named .var (variableNames none code)).filter fun u => !own.contains u.2

/-- The requirements that follow from a record's code. -/
def usedRecords (r : Record) : List Require :=
  let code := dropComments r.context.code.toList
  (usesOf r code).foldl (addUse (r.kind, r.name)) []

/-- A text in quotes of one kind that closes on its line. -/
def quotedText? (s : List Char) : Option (List Char × List Char) :=
  match s with
  | q :: r =>
    if q == '"' || q == '\'' then
      let inner := r.takeWhile fun c => c != q && c != '\n'
      match r.drop inner.length with
      | c :: rest => if c = q then some (inner, rest) else none
      | [] => none
    else none
  | [] => none

def errorWord : List Char := ['e', 'r', 'r', 'o', 'r']

/-- The message of an error directive at the start of the text: what stands in quotes, or else
everything up to the end of the statement or line. -/
def errorMessage? (s : List Char) : Option (List Char) :=
  match afterDirective? errorWord s with
  | none => none
  | some body =>
    match quotedText? body with
    | some (message, _) => some message
    | none => some (body.takeWhile fun c => c != ';' && c != '\n')

/-- How far an error directive reaches. -/
def afterError (s : List Char) : List Char :=
  match afterDirective? errorWord s with
  | none => s.drop 1
  | some body =>
    match quotedText? body with
    | some (_, rest) => rest
    | none => body.dropWhile fun c => c != ';' && c != '\n'

theorem quotedText?_length_le {s inner rest : List Char}
    (found : quotedText? s = some (inner, rest)) : rest.length ≤ s.length := by
  cases s with
  | nil => cases found
  | cons q r =>
    simp only [quotedText?] at found
    split at found
    · split at found
      · rename_i c tail same
        split at found
        · simp only [Option.some.injEq, Prod.mk.injEq] at found
          obtain ⟨_, rfl⟩ := found
          have lengths := congrArg List.length same
          simp only [List.length_drop, List.length_cons] at lengths ⊢
          omega
        · cases found
      · cases found
    · cases found

theorem afterError_length_lt (c : Char) (r : List Char) :
    (afterError (c :: r)).length < (c :: r).length := by
  rw [afterError]
  split
  · simp
  · rename_i body found
    have shorter := afterDirective?_length_lt found
    split
    · rename_i same
      exact Nat.lt_of_le_of_lt (quotedText?_length_le same) shorter
    · exact Nat.lt_of_le_of_lt (List.dropWhile_sublist _).length_le shorter

/-- The messages of the errors that the code raises, blank ones left out. -/
def raisedMessages (s : List Char) : List (List Char) :=
  match s with
  | [] => []
  | c :: r =>
    let rest := raisedMessages (afterError (c :: r))
    match errorMessage? (c :: r) with
    | some message => if Text.allBlank message then rest else Text.trim message :: rest
    | none => rest
termination_by s.length
decreasing_by exact afterError_length_lt c r

/-- Each message once, in the order of the code. -/
def raisedErrors (code : String) : List String :=
  ((raisedMessages code.toList).map String.ofList).foldl
    (fun found m => if found.contains m then found else found ++ [m]) []

def contentDirective : List Char := ['@', 'c', 'o', 'n', 't', 'e', 'n', 't']

def takesContent (code : String) : Bool := Text.occurs contentDirective code.toList

end SheetDoc
