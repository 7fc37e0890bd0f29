import SheetDoc.Proofs.Code.Notes

namespace SheetDoc

open Text (isBlank isNameChar)

variable {c : Char} {s t w : List Char}

/-- The directives that are followed by a name. -/
def namingWords : List (List Char) :=
  [Kind.mixin.word.toList, Kind.function.word.toList, includeWord, extendWord]

/-- The text ends with a directive whose name may stand below. -/
def AwaitsName (s : List Char) : Prop := ∃ w ∈ namingWords, '@' :: w <:+ Text.trimRight s

instance (s : List Char) : Decidable (AwaitsName s) :=
  inferInstanceAs (Decidable (∃ w ∈ namingWords, '@' :: w <:+ Text.trimRight s))

/-- No name reaches over the character: a colon, or the end of a line that awaits none. -/
def Separates (c : Char) (s : List Char) : Prop := c = ':' ∨ c = '\n' ∧ ¬AwaitsName s

namespace Separates

theorem of_suffix (separates : Separates c t) (ends : s <:+ t) : Separates c s :=
  separates.imp_right fun ⟨line, closed⟩ => ⟨line, fun ⟨w, listed, awaits⟩ =>
    closed ⟨w, listed, suffix_trimRight_of_suffix (List.cons_ne_nil _ _) ends awaits⟩⟩

variable (separates : Separates c s)

include separates

/-- What neither separator is. -/
theorem satisfies {p : Char → Prop} (colon : p ':') (line : p '\n') : p c := by
  rcases separates with rfl | ⟨rfl, _⟩
  · exact colon
  · exact line

theorem stops : isNameChar c = false :=
  separates.satisfies (p := fun c => isNameChar c = false) (by decide) (by decide)

theorem afterDirective?_append (listed : w ∈ namingWords) (t : List Char) :
    afterDirective? w (s ++ c :: t) = (afterDirective? w s).map (· ++ c :: t) := by
  have words : ∀ w ∈ namingWords,
      Text.trimRight ('@' :: w) = '@' :: w ∧ ':' ∉ '@' :: w ∧ '\n' ∉ '@' :: w := by decide
  obtain ⟨solid, colon, line⟩ := words w listed
  refine afterDirective?_append_cons solid (separates.satisfies (p := (· ∉ '@' :: w)) colon line) ?_ t
  intro blank
  rcases separates with rfl | ⟨rfl, closed⟩
  · cases blank
  · exact fun awaits => closed ⟨w, listed, awaits⟩

end Separates

theorem readName?_append_cons (stop : isNameChar c = false) (s t : List Char) :
    readName? (s ++ c :: t) = (readName? s).map fun (name, rest) => (name, rest ++ c :: t) := by
  simp only [readName?, takeWhile_append_cons stop, dropWhile_append_cons stop]
  cases s.takeWhile isNameChar <;> rfl

/-- What begins the rest of a text is not what the text is separated from. -/
theorem head?_append_cons_beq {d : Char} (other : c ≠ d) (s t : List Char) :
    ((s ++ c :: t).head? == some d) = (s.head? == some d) := by
  cases s with
  | nil => simp [other]
  | cons e s => rfl

theorem includedNames_append (separates : Separates c s) (t : List Char) :
    includedNames (s ++ c :: t) = includedNames s ++ includedNames (c :: t) := by
  induction s with
  | nil => rfl
  | cons d r ih =>
    have dot : c ≠ '.' := separates.satisfies (p := (· ≠ '.')) (by decide) (by decide)
    have found := separates.afterDirective?_append (w := includeWord) (by decide) t
    rw [List.cons_append] at found ⊢
    rw [includedNames, includedNames, found, ih (separates.of_suffix (List.suffix_cons d r))]
    cases afterDirective? includeWord (d :: r) with
    | none => rfl
    | some rest =>
      rw [Option.map_some, Option.bind_some, Option.bind_some, readName?_append_cons separates.stops]
      cases readName? rest with
      | none => rfl
      | some found =>
        simp only [Option.map_some, head?_append_cons_beq dot]
        split_ifs <;> rfl

theorem extendedNames_append (separates : Separates c s) (t : List Char) :
    extendedNames (s ++ c :: t) = extendedNames s ++ extendedNames (c :: t) := by
  induction s with
  | nil => rfl
  | cons d r ih =>
    have sign : c ∉ ['%'] := separates.satisfies (p := (· ∉ ['%'])) (by decide) (by decide)
    have found := separates.afterDirective?_append (w := extendWord) (by decide) t
    rw [List.cons_append] at found ⊢
    rw [extendedNames, extendedNames, found, ih (separates.of_suffix (List.suffix_cons d r))]
    cases afterDirective? extendWord (d :: r) with
    | none => rfl
    | some rest =>
      rw [Option.map_some, Option.bind_some, Option.bind_some, after?_append_cons sign]
      cases Text.after? ['%'] rest with
      | none => rfl
      | some rest =>
        rw [Option.map_some, Option.bind_some, Option.bind_some, readName?_append_cons separates.stops]
        cases readName? rest <;> rfl

theorem variableNames_append (stop : isNameChar c = false) (sign : c ≠ '$') (p : Option Char)
    (s t : List Char) : variableNames p (s ++ c :: t) = variableNames p s ++ variableNames none (c :: t) := by
  induction s generalizing p with
  | nil => simp [variableNames, sign]
  | cons d r ih =>
    rw [List.cons_append, variableNames, variableNames, takeWhile_append_cons stop, ih]
    split_ifs <;> rfl

theorem calledNames_append (stop : isNameChar c = false) (start : isCallStart c = false)
    (opening : c ≠ '(') (p : Option Char) (s t : List Char) :
    calledNames p (s ++ c :: t) = calledNames p s ++ calledNames none (c :: t) := by
  induction s generalizing p with
  | nil => simp [calledNames, start]
  | cons d r ih =>
    rw [List.cons_append, calledNames, calledNames, takeWhile_append_cons stop,
      dropWhile_append_cons stop, head?_append_cons_beq opening, ih]
    split_ifs <;> rfl

theorem afterDeclaration?_append (separates : Separates c s) (t : List Char) :
    afterDeclaration? (s ++ c :: t) = (afterDeclaration? s).map (· ++ c :: t) := by
  have stop : isDeclaredChar c = false :=
    separates.satisfies (p := fun c => isDeclaredChar c = false) (by decide) (by decide)
  have heads : ∀ rest : List Char,
      (rest ++ c :: t).head?.any isDeclaredChar = rest.head?.any isDeclaredChar := by
    intro rest
    cases rest with
    | nil => exact stop
    | cons d rest => rfl
  have each : ∀ w ∈ namingWords, (afterDirective? w (s ++ c :: t)).bind afterDeclared? =
      ((afterDirective? w s).bind afterDeclared?).map (· ++ c :: t) := by
    intro w listed
    rw [separates.afterDirective?_append listed]
    cases afterDirective? w s with
    | none => rfl
    | some rest =>
      simp only [afterDeclared?, Option.map_some, Option.bind_some, heads, dropWhile_append_cons stop]
      split_ifs <;> rfl
  rw [afterDeclaration?_eq, afterDeclaration?_eq, List.map_findSome?]
  simp only [List.findSome?_cons, List.findSome?_nil, Function.comp_apply,
    each _ (show Kind.mixin.word.toList ∈ namingWords by decide),
    each _ (show Kind.function.word.toList ∈ namingWords by decide),
    each _ (show includeWord ∈ namingWords by decide)]

theorem afterDeclaration?_suffix {rest : List Char} (found : afterDeclaration? s = some rest) :
    rest <:+ s := by
  obtain ⟨word, _, atWord⟩ := List.exists_of_findSome?_eq_some found
  split at atWord
  · rename_i tail same
    split_ifs at atWord
    cases atWord
    exact (List.dropWhile_suffix _).trans (afterDirective?_suffix same)
  · cases atWord

theorem dropDeclarations_append (separates : Separates c s) (t : List Char) :
    dropDeclarations (s ++ c :: t) = dropDeclarations s ++ dropDeclarations (c :: t) := by
  fun_induction dropDeclarations s with
  | case1 s rest found ih =>
    have found' := afterDeclaration?_append separates t
    rw [found] at found'
    rw [dropDeclarations_of_some found', ih (separates.of_suffix (afterDeclaration?_suffix found))]
  | case2 => rfl
  | case3 d r none ih =>
    have none' := afterDeclaration?_append separates t
    rw [none, List.cons_append] at none'
    rw [List.cons_append, dropDeclarations_cons none', ih (separates.of_suffix (List.suffix_cons d r))]
    rfl

/-- The names that a text gives for constructs of a kind, one after another. -/
def namesRead (code : List Char) : Kind → List (List Char)
  | .function => calledNames none (dropDeclarations code)
  | .mixin => includedNames code
  | .placeholder => extendedNames code
  | .var => variableNames none code
  | _ => []

theorem namesRead_append (separates : Separates c s) (t : List Char) (k : Kind) :
    namesRead (s ++ c :: t) k = namesRead s k ++ namesRead (c :: t) k := by
  cases k with
  | function =>
    have plain : afterDeclaration? (c :: t) = none := by
      have other : '@' ≠ c := separates.satisfies (p := ('@' ≠ ·)) (by decide) (by decide)
      simp [afterDeclaration?, afterDirective?, Text.after?, other]
    have start : isCallStart c = false :=
      separates.satisfies (p := fun c => isCallStart c = false) (by decide) (by decide)
    have opening : c ≠ '(' := separates.satisfies (p := (· ≠ '(')) (by decide) (by decide)
    simp only [namesRead, dropDeclarations_append separates, dropDeclarations_cons plain]
    exact calledNames_append separates.stops start opening none _ _
  | mixin => exact includedNames_append separates t
  | placeholder => exact extendedNames_append separates t
  | var =>
    have sign : c ≠ '$' := separates.satisfies (p := (· ≠ '$')) (by decide) (by decide)
    exact variableNames_append separates.stops sign none s t
  | css => rfl
  | unknown => rfl

theorem namesRead_line (s : List Char) (k : Kind) : namesRead ('\n' :: s) k = namesRead s k := by
  have blank : isBlank '\n' = true := by decide
  cases k with
  | function =>
    simp only [namesRead, dropDeclarations_cons_blank blank]
    exact calledNames_cons_blank blank none _
  | mixin => exact includedNames_cons_blank blank s
  | placeholder => exact extendedNames_cons_blank blank s
  | var => exact variableNames_cons_blank blank none s
  | css => rfl
  | unknown => rfl

end SheetDoc
