import SheetDoc.Code.Uses
import SheetDoc.Proofs.Text.Squeeze

namespace SheetDoc

open Text (isBlank squeeze spaced isNameChar)

variable {s t : List Char} {c : Char}

theorem isNameChar_stops (c : Char) (blank : isBlank c = true) : isNameChar c = false :=
  Text.isNameChar_of_isBlank blank

/-- Of the signs that a reader looks for none is blank. -/
theorem ne_of_isBlank {d : Char} (text : isBlank d = false) (blank : isBlank c = true) : c ≠ d := by
  rintro rfl
  rw [text] at blank
  cases blank

theorem isDeclaredChar_stops (c : Char) (blank : isBlank c = true) : isDeclaredChar c = false := by
  have other : c ≠ '.' := ne_of_isBlank (by decide) blank
  simp [isDeclaredChar, isNameChar_stops c blank, other]

/-- At the end of a text no blank is left behind a word, so this is for what does not find anything there. -/
theorem afterBlanks?_squeeze {β : Type*} {f : List Char → Option β} (void : f [] = none) (s : List Char) :
    (afterBlanks? (squeeze s)).bind f = ((afterBlanks? s).map squeeze).bind f := by
  cases s with
  | nil => rfl
  | cons c r =>
    cases text : isBlank c with
    | false =>
      rw [Text.squeeze_cons_text text]
      simp [afterBlanks?, text]
    | true =>
      have space : ∀ t, (afterBlanks? (' ' :: t)).bind f = f (Text.trimLeft t) := fun t => rfl
      have skips : ∀ t, Text.trimLeft (' ' :: t) = Text.trimLeft t := fun t =>
        List.dropWhile_cons_of_pos (by decide)
      rw [Text.squeeze_cons_blank text]
      refine (Text.congr_spaced (fun t => (afterBlanks? t).bind f) void (fun t => ?_) _).trans ?_
      · rw [space, space, skips]
      · rw [space, Text.trimLeft_squeeze]
        simp [afterBlanks?, text]

theorem afterDirective?_squeeze {β : Type*} {f : List Char → Option β} (void : f [] = none)
    {word : List Char} (solid : ∀ c ∈ '@' :: word, isBlank c = false) (s : List Char) :
    (afterDirective? word (squeeze s)).bind f = ((afterDirective? word s).map squeeze).bind f := by
  rw [afterDirective?, afterDirective?, Text.after?_squeeze solid]
  cases Text.after? ('@' :: word) s with
  | none => rfl
  | some rest => exact afterBlanks?_squeeze void rest

theorem readName?_squeeze (s : List Char) :
    readName? (squeeze s) = (readName? s).map fun (name, rest) => (name, squeeze rest) := by
  simp only [readName?, Text.takeWhile_squeeze isNameChar_stops, Text.dropWhile_squeeze isNameChar_stops]
  cases s.takeWhile isNameChar <;> rfl

/-- The text after a name with its namespace. -/
def afterDeclared? (rest : List Char) : Option (List Char) :=
  if rest.head?.any isDeclaredChar then some (rest.dropWhile isDeclaredChar) else none

theorem afterDeclaration?_eq (s : List Char) : afterDeclaration? s =
    [Kind.mixin.word.toList, Kind.function.word.toList, includeWord].findSome? fun word =>
      (afterDirective? word s).bind afterDeclared? := by
  unfold afterDeclaration?
  congr 1
  funext word
  cases afterDirective? word s <;> rfl

theorem afterDeclaration?_squeeze (s : List Char) :
    afterDeclaration? (squeeze s) = (afterDeclaration? s).map squeeze := by
  have each : ∀ word : List Char, (∀ c ∈ '@' :: word, isBlank c = false) →
      (afterDirective? word (squeeze s)).bind afterDeclared? =
        ((afterDirective? word s).bind afterDeclared?).map squeeze := by
    intro word solid
    rw [afterDirective?_squeeze rfl solid]
    cases afterDirective? word s with
    | none => rfl
    | some rest =>
      simp only [afterDeclared?, Option.map_some, Option.bind_some,
        Text.any_head?_squeeze isDeclaredChar_stops, Text.dropWhile_squeeze isDeclaredChar_stops]
      split_ifs <;> rfl
  rw [afterDeclaration?_eq, afterDeclaration?_eq, List.map_findSome?]
  simp only [List.findSome?_cons, List.findSome?_nil, Function.comp_apply,
    each _ (show ∀ c ∈ '@' :: Kind.mixin.word.toList, _ by decide),
    each _ (show ∀ c ∈ '@' :: Kind.function.word.toList, _ by decide),
    each _ (show ∀ c ∈ '@' :: includeWord, _ by decide)]

theorem afterDirective?_cons_blank (blank : isBlank c = true) (word r : List Char) :
    afterDirective? word (c :: r) = none := by
  have other : '@' ≠ c := Ne.symm (ne_of_isBlank (by decide) blank)
  simp [afterDirective?, Text.after?, other]

theorem afterDeclaration?_cons_blank (blank : isBlank c = true) (r : List Char) :
    afterDeclaration? (c :: r) = none := by
  simp [afterDeclaration?, afterDirective?_cons_blank blank]

theorem dropDeclarations_of_some {rest : List Char} (found : afterDeclaration? s = some rest) :
    dropDeclarations s = dropDeclarations rest := by
  rw [dropDeclarations]
  split
  · rename_i rest' found'
    rw [found] at found'
    cases found'
    rfl
  · rename_i none
    rw [found] at none
    cases none

theorem dropDeclarations_cons {r : List Char} (none : afterDeclaration? (c :: r) = none) :
    dropDeclarations (c :: r) = c :: dropDeclarations r := by
  rw [dropDeclarations]
  split
  · rename_i rest found
    rw [none] at found
    cases found
  · rfl

theorem dropDeclarations_cons_blank (blank : isBlank c = true) (r : List Char) :
    dropDeclarations (c :: r) = c :: dropDeclarations r :=
  dropDeclarations_cons (afterDeclaration?_cons_blank blank r)

theorem squeeze_dropDeclarations (s : List Char) :
    squeeze (dropDeclarations (squeeze s)) = squeeze (dropDeclarations s) := by
  fun_induction dropDeclarations s with
  | case1 s rest found ih =>
    have found' : afterDeclaration? (squeeze s) = some (squeeze rest) := by
      rw [afterDeclaration?_squeeze, found]
      rfl
    rw [dropDeclarations_of_some found', ih]
  | case2 =>
    rw [Text.squeeze, dropDeclarations]
    rfl
  | case3 c r none ih =>
    cases text : isBlank c with
    | true =>
      have skips : ∀ c, isBlank c = true → ∀ r, squeeze (dropDeclarations (c :: r)) =
          spaced (squeeze (dropDeclarations r)) := by
        intro c blank r
        rw [dropDeclarations_cons_blank blank, Text.squeeze_cons_blank blank]
      have void : squeeze (dropDeclarations []) = spaced (squeeze (dropDeclarations [])) := by
        rw [dropDeclarations]
        rfl
      have whole := Text.congr_squeeze_cons (fun t => squeeze (dropDeclarations t))
        (fun t => spaced (squeeze (dropDeclarations t))) void skips
        (fun c blank r => by rw [skips c blank, Text.spaced_spaced]) text (congrArg spaced ih)
      rw [whole, dropDeclarations_cons_blank text]
    | false =>
      have none' : afterDeclaration? (c :: squeeze r) = .none := by
        rw [← Text.squeeze_cons_text text, afterDeclaration?_squeeze, none]
        rfl
      rw [Text.squeeze_cons_text text, dropDeclarations_cons none', Text.squeeze_cons_text text,
        Text.squeeze_cons_text text, ih]

theorem calledNames_congr {p p' : Option Char} (same : p.all endsWord = p'.all endsWord) (s : List Char) :
    calledNames p s = calledNames p' s := by
  cases s with
  | nil => rfl
  | cons c r => rw [calledNames, calledNames, same]

theorem calledNames_cons_blank (blank : isBlank c = true) (p : Option Char) (r : List Char) :
    calledNames p (c :: r) = calledNames none r := by
  have start : isCallStart c = false :=
    Text.of_isBlank (p := fun c => isCallStart c = false) (by decide +kernel) blank
  have ends : endsWord c = true := Text.of_isBlank (p := fun c => endsWord c = true) (by decide +kernel) blank
  simp only [calledNames, start, Bool.false_and, Bool.false_eq_true, if_false]
  exact calledNames_congr (show (some c).all endsWord = none.all endsWord from ends) r

theorem calledNames_squeeze (p : Option Char) (s : List Char) :
    calledNames p (squeeze s) = calledNames p s := by
  induction s generalizing p with
  | nil => rfl
  | cons c r ih =>
    cases text : isBlank c with
    | true =>
      exact Text.congr_squeeze_cons (calledNames p) (calledNames none) rfl
        (fun c blank => calledNames_cons_blank blank p) (fun c blank => calledNames_cons_blank blank none) text
        (ih none)
    | false =>
      rw [Text.squeeze_cons_text text, calledNames, calledNames, Text.takeWhile_squeeze isNameChar_stops,
        Text.dropWhile_squeeze isNameChar_stops, Text.head?_squeeze_beq (by decide), ih]

theorem includedNames_cons_blank (blank : isBlank c = true) (r : List Char) :
    includedNames (c :: r) = includedNames r := by
  rw [includedNames, afterDirective?_cons_blank blank]
  rfl

theorem includedNames_squeeze (s : List Char) : includedNames (squeeze s) = includedNames s := by
  induction s with
  | nil => rfl
  | cons c r ih =>
    cases text : isBlank c with
    | true =>
      exact Text.congr_squeeze_cons includedNames includedNames rfl (fun c => includedNames_cons_blank)
        (fun c => includedNames_cons_blank) text ih
    | false =>
      have name := afterDirective?_squeeze (f := readName?) rfl
        (show ∀ c ∈ '@' :: includeWord, isBlank c = false by decide) (c :: r)
      rw [Text.squeeze_cons_text text] at name ⊢
      rw [includedNames, includedNames, name, ih]
      cases afterDirective? includeWord (c :: r) with
      | none => rfl
      | some rest =>
        rw [Option.map_some, Option.bind_some, Option.bind_some, readName?_squeeze]
        cases readName? rest with
        | none => rfl
        | some found => simp only [Option.map_some, Text.head?_squeeze_beq (d := '.') (by decide)]

theorem extendedNames_cons_blank (blank : isBlank c = true) (r : List Char) :
    extendedNames (c :: r) = extendedNames r := by
  rw [extendedNames, afterDirective?_cons_blank blank]
  rfl

theorem extendedNames_squeeze (s : List Char) : extendedNames (squeeze s) = extendedNames s := by
  induction s with
  | nil => rfl
  | cons c r ih =>
    cases text : isBlank c with
    | true =>
      exact Text.congr_squeeze_cons extendedNames extendedNames rfl (fun c => extendedNames_cons_blank)
        (fun c => extendedNames_cons_blank) text ih
    | false =>
      have sign := afterDirective?_squeeze (f := Text.after? ['%']) rfl
        (show ∀ c ∈ '@' :: extendWord, isBlank c = false by decide) (c :: r)
      rw [Text.squeeze_cons_text text] at sign ⊢
      rw [extendedNames, extendedNames, sign, ih]
      cases afterDirective? extendWord (c :: r) with
      | none => rfl
      | some rest =>
        rw [Option.map_some, Option.bind_some, Option.bind_some, Text.after?_squeeze (by decide)]
        cases Text.after? ['%'] rest with
        | none => rfl
        | some rest =>
          rw [Option.map_some, Option.bind_some, Option.bind_some, readName?_squeeze]
          cases readName? rest <;> rfl

theorem variableNames_congr {p p' : Option Char} (same : p.any isNameChar = p'.any isNameChar)
    (s : List Char) : variableNames p s = variableNames p' s := by
  cases s with
  | nil => rfl
  | cons c r => rw [variableNames, variableNames, same]

theorem variableNames_cons_blank (blank : isBlank c = true) (p : Option Char) (r : List Char) :
    variableNames p (c :: r) = variableNames none r := by
  have sign : (c == '$') = false := beq_false_of_ne (ne_of_isBlank (by decide) blank)
  simp only [variableNames, sign, Bool.false_and, Bool.false_eq_true, if_false]
  have apart : (some c).any isNameChar = none.any isNameChar := isNameChar_stops c blank
  exact variableNames_congr apart r

theorem variableNames_squeeze (p : Option Char) (s : List Char) :
    variableNames p (squeeze s) = variableNames p s := by
  induction s generalizing p with
  | nil => rfl
  | cons c r ih =>
    cases text : isBlank c with
    | true =>
      exact Text.congr_squeeze_cons (variableNames p) (variableNames none) rfl
        (fun c blank => variableNames_cons_blank blank p)
        (fun c blank => variableNames_cons_blank blank none) text (ih none)
    | false =>
      rw [Text.squeeze_cons_text text, variableNames, variableNames,
        Text.takeWhile_squeeze isNameChar_stops, ih]

theorem callableHead?_squeeze (s : List Char) : callableHead? (squeeze s) =
    (callableHead? s).map fun (kind, name, rest) => (kind, name, squeeze rest) := by
  have named : ∀ (kind : Kind) rest, ((afterBlanks? (squeeze rest)).bind readName?).map (kind, ·) =
      (((afterBlanks? rest).bind readName?).map (kind, ·)).map
        fun (kind, name, rest) => (kind, name, squeeze rest) := by
    intro kind rest
    rw [afterBlanks?_squeeze rfl]
    cases afterBlanks? rest with
    | none => rfl
    | some rest =>
      rw [Option.map_some, Option.bind_some, Option.bind_some, readName?_squeeze]
      cases readName? rest <;> rfl
  unfold callableHead?
  simp only [Text.trimLeft_squeeze]
  rw [Text.after?_squeeze (show ∀ c ∈ '@' :: Kind.mixin.word.toList, isBlank c = false by decide),
    Text.after?_squeeze (show ∀ c ∈ '@' :: Kind.function.word.toList, isBlank c = false by decide)]
  cases Text.after? ('@' :: Kind.mixin.word.toList) (Text.trimLeft s) with
  | some rest => exact named _ rest
  | none =>
    cases Text.after? ('@' :: Kind.function.word.toList) (Text.trimLeft s) with
    | some rest => exact named _ rest
    | none => rfl

theorem untilClosed_cons_blank (blank : isBlank c = true) (depth : Nat) (r : List Char) :
    untilClosed depth (c :: r) = c :: untilClosed depth r := by
  rw [untilClosed, if_neg (ne_of_isBlank (by decide) blank), if_neg (ne_of_isBlank (by decide) blank)]

theorem squeeze_untilClosed (depth : Nat) (s : List Char) :
    squeeze (untilClosed depth (squeeze s)) = squeeze (untilClosed depth s) := by
  induction s generalizing depth with
  | nil => rfl
  | cons c r ih =>
    cases text : isBlank c with
    | true =>
      have skips : ∀ c, isBlank c = true → ∀ r, squeeze (untilClosed depth (c :: r)) =
          spaced (squeeze (untilClosed depth r)) := by
        intro c blank r
        rw [untilClosed_cons_blank blank, Text.squeeze_cons_blank blank]
      exact Text.congr_squeeze_cons (fun t => squeeze (untilClosed depth t))
        (fun t => spaced (squeeze (untilClosed depth t))) rfl skips
        (fun c blank r => by rw [skips c blank, Text.spaced_spaced]) text (congrArg spaced (ih depth))
    | false =>
      rw [Text.squeeze_cons_text text, untilClosed, untilClosed]
      split_ifs
      · rw [Text.squeeze_cons_text text, Text.squeeze_cons_text text, ih]
      · rfl
      · rw [Text.squeeze_cons_text text, Text.squeeze_cons_text text, ih]
      · rw [Text.squeeze_cons_text text, Text.squeeze_cons_text text, ih]

theorem topLevelPieces_cons_blank (blank : isBlank c = true) (depth : Int) (r : List Char) :
    topLevelPieces depth (c :: r) = (topLevelPieces depth r).modifyHead (c :: ·) := by
  have others : ∀ d ∈ ['(', '[', ')', ']', ','], isBlank d = false := by decide
  have other : ∀ d ∈ ['(', '[', ')', ']', ','], c ≠ d := fun d listed => ne_of_isBlank (others d listed) blank
  simp only [List.forall_mem_cons] at other
  simp [topLevelPieces, other]

theorem map_squeeze_modifyHead (ps : List (List Char)) (blank : isBlank c = true) :
    (ps.modifyHead (c :: ·)).map squeeze = (ps.map squeeze).modifyHead spaced := by
  cases ps with
  | nil => rfl
  | cons p ps => rw [List.modifyHead_cons, List.map_cons, List.map_cons, List.modifyHead_cons,
      Text.squeeze_cons_blank blank]

theorem map_squeeze_topLevelPieces (depth : Int) (s : List Char) :
    (topLevelPieces depth (squeeze s)).map squeeze = (topLevelPieces depth s).map squeeze := by
  induction s generalizing depth with
  | nil => rfl
  | cons c r ih =>
    cases text : isBlank c with
    | true =>
      have skips : ∀ c, isBlank c = true → ∀ r, (topLevelPieces depth (c :: r)).map squeeze =
          ((topLevelPieces depth r).map squeeze).modifyHead spaced := by
        intro c blank r
        rw [topLevelPieces_cons_blank blank, map_squeeze_modifyHead _ blank]
      have twice : spaced ∘ spaced = spaced := funext Text.spaced_spaced
      exact Text.congr_squeeze_cons (fun t => (topLevelPieces depth t).map squeeze)
        (fun t => ((topLevelPieces depth t).map squeeze).modifyHead spaced) rfl skips
        (fun c blank r => by rw [skips c blank, List.modifyHead_modifyHead, twice]) text
        (congrArg (List.modifyHead spaced) (ih depth))
    | false =>
      have heads : ∀ ps : List (List Char), (ps.modifyHead (c :: ·)).map squeeze =
          (ps.map squeeze).modifyHead (c :: ·) := by
        intro ps
        cases ps with
        | nil => rfl
        | cons p ps => rw [List.modifyHead_cons, List.map_cons, List.map_cons, List.modifyHead_cons,
            Text.squeeze_cons_text text]
      rw [Text.squeeze_cons_text text]
      simp only [topLevelPieces]
      generalize (if c = '(' ∨ c = '[' then depth + 1
        else if c = ')' ∨ c = ']' then depth - 1 else depth) = depth
      split_ifs
      · rw [List.map_cons, List.map_cons, ih]
      · rw [heads, heads, ih]

theorem map_squeeze_splitArguments (same : squeeze s = squeeze t) :
    (splitArguments s).map squeeze = (splitArguments t).map squeeze := by
  have pieces : (topLevelPieces 0 s).map squeeze = (topLevelPieces 0 t).map squeeze := by
    rw [← map_squeeze_topLevelPieces, same, map_squeeze_topLevelPieces]
  have last : ∀ ps : List (List Char), Text.allBlank (ps.getLastD []) =
      ((ps.map squeeze).getLastD []).isEmpty := by
    intro ps
    have squeezed : (ps.map squeeze).getLastD [] = squeeze (ps.getLastD []) := by
      rw [List.getLastD_eq_getLast?, List.getLastD_eq_getLast?, List.getLast?_map]
      cases ps.getLast? <;> rfl
    rw [squeezed, Bool.eq_iff_iff, List.isEmpty_iff]
    exact Text.squeeze_eq_nil_iff.symm
  simp only [splitArguments, last, pieces]
  split_ifs
  · rw [List.map_dropLast, List.map_dropLast, pieces]
  · exact pieces

theorem map_squeeze_signatureArguments (s : List Char) :
    (signatureArguments (squeeze s)).map squeeze = (signatureArguments s).map squeeze := by
  unfold signatureArguments
  rw [callableHead?_squeeze]
  cases callableHead? s with
  | none => rfl
  | some head =>
    obtain ⟨kind, name, rest⟩ := head
    simp only [Option.map_some, Text.trimLeft_squeeze, Text.after?_squeeze (show ∀ c ∈ ['('], _ by decide)]
    cases Text.after? ['('] (Text.trimLeft rest) with
    | none => rfl
    | some list => exact map_squeeze_splitArguments (squeeze_untilClosed 1 list)

theorem argumentName_eq_iff (a w : List Char) : argumentName a = w ↔
    Text.trim (a.takeWhile (· != ':')) = w ++ ['.', '.', '.'] ∨
      Text.trim (a.takeWhile (· != ':')) = w ∧ ¬['.', '.', '.'] <:+ w := by
  simp only [argumentName]
  generalize Text.trim (a.takeWhile (· != ':')) = name
  split_ifs with dots
  · obtain ⟨front, rfl⟩ := List.isSuffixOf_iff_suffix.mp dots
    have cut : (front ++ ['.', '.', '.']).take ((front ++ ['.', '.', '.']).length - 3) = front := by simp
    rw [cut, List.append_cancel_right_eq]
    refine ⟨Or.inl, fun either => either.resolve_right ?_⟩
    rintro ⟨same, none⟩
    exact none (same ▸ List.suffix_append _ _)
  · have none : ¬['.', '.', '.'] <:+ name := fun ends => dots (List.isSuffixOf_iff_suffix.mpr ends)
    constructor
    · rintro rfl
      exact .inr ⟨rfl, none⟩
    · rintro (same | ⟨same, _⟩)
      · exact absurd (same ▸ List.suffix_append _ _) none
      · exact same

/-- Arguments that differ in their blanks have the same name, where it has none. -/
theorem argumentName_eq_iff_of_squeeze {a a' w : List Char} (same : squeeze a = squeeze a')
    (solid : ∀ c ∈ w, isBlank c = false) : argumentName a = w ↔ argumentName a' = w := by
  have front : ∀ a, squeeze ((squeeze a).takeWhile (· != ':')) = squeeze (a.takeWhile (· != ':')) :=
    Text.squeeze_takeWhile fun c blank => bne_iff_ne.mpr (ne_of_isBlank (by decide) blank)
  have name : squeeze (Text.trim (a.takeWhile (· != ':'))) =
      squeeze (Text.trim (a'.takeWhile (· != ':'))) := by
    rw [Text.squeeze_trim, Text.squeeze_trim, ← front a, same, front]
  have dots : ∀ c ∈ w ++ ['.', '.', '.'], isBlank c = false :=
    List.forall_mem_append.mpr ⟨solid, by decide⟩
  rw [argumentName_eq_iff, argumentName_eq_iff, Text.trim_eq_iff solid, Text.trim_eq_iff solid,
    Text.trim_eq_iff dots, Text.trim_eq_iff dots, name]

/-- The parameters of a code without their signs. -/
theorem mem_parameters_iff (code n : List Char) :
    String.ofList n ∈ (signatureParameters (String.ofList code)).map
        (fun p => String.ofList (p.toList.drop 1)) ↔
      ∃ a ∈ signatureArguments code, argumentName a = '$' :: n := by
  simp only [signatureParameters, String.toList_ofList, List.map_map, List.mem_map, List.mem_filter,
    Function.comp_apply, String.ofList_inj]
  constructor
  · rintro ⟨_, ⟨⟨a, member, rfl⟩, sign⟩, name⟩
    have begins : ['$'].isPrefixOf (argumentName a) = true := sign
    obtain ⟨t, same⟩ := List.isPrefixOf_iff_prefix.mp begins
    refine ⟨a, member, ?_⟩
    rw [← same] at name ⊢
    exact congrArg ('$' :: ·) name
  · rintro ⟨a, member, name⟩
    refine ⟨'$' :: n, ⟨⟨a, member, name⟩, ?_⟩, rfl⟩
    simp [isVariableName, Text.startsWith]

theorem ownParameters_squeeze (r : Record) (code : List Char) {n : List Char}
    (solid : ∀ c ∈ n, isBlank c = false) :
    String.ofList n ∈ ownParameters r (squeeze code) ↔ String.ofList n ∈ ownParameters r code := by
  have solid' : ∀ c ∈ '$' :: n, isBlank c = false := List.forall_mem_cons.mpr ⟨by decide, solid⟩
  have half : ∀ {as as' : List (List Char)}, as.map squeeze = as'.map squeeze →
      (∃ a ∈ as, argumentName a = '$' :: n) → ∃ a ∈ as', argumentName a = '$' :: n := by
    rintro as as' same ⟨a, member, name⟩
    obtain ⟨a', member', same'⟩ := List.mem_map.mp (same ▸ List.mem_map_of_mem member)
    exact ⟨a', member', (argumentName_eq_iff_of_squeeze same' solid').mpr name⟩
  rw [ownParameters, ownParameters, List.mem_append, List.mem_append, mem_parameters_iff, mem_parameters_iff]
  have arguments := map_squeeze_signatureArguments code
  exact or_congr ⟨half arguments, half arguments.symm⟩ Iff.rfl

theorem mem_variableNames {p : Option Char} {n : List Char} (member : n ∈ variableNames p s) :
    ∀ c ∈ n, isBlank c = false := by
  induction s generalizing p with
  | nil => cases member
  | cons c r ih =>
    simp only [variableNames] at member
    split_ifs at member
    · rcases List.mem_cons.mp member with rfl | later
      · exact fun c inside => Text.isBlank_of_isNameChar (List.mem_takeWhile_imp inside)
      · exact ih later
    · exact ih member

/-- What code uses is found in the squeezed code. -/
theorem usesOf_squeeze (r : Record) (code : List Char) : usesOf r (squeeze code) = usesOf r code := by
  have calls : calledNames none (dropDeclarations (squeeze code)) =
      calledNames none (dropDeclarations code) := by
    rw [← calledNames_squeeze, squeeze_dropDeclarations, calledNames_squeeze]
  simp only [usesOf, calls, includedNames_squeeze, extendedNames_squeeze, variableNames_squeeze]
  refine congrArg (_ ++ ·) (List.filter_congr fun u member => ?_)
  obtain ⟨n, listed, rfl⟩ := List.mem_map.mp member
  have own := ownParameters_squeeze r code (mem_variableNames listed)
  refine congrArg (!·) (Bool.eq_iff_iff.mpr ?_)
  rw [List.contains_iff_mem, List.contains_iff_mem]
  exact own

/-- Code with other blanks uses the same. -/
theorem usedRecords_congr {r r' : Record} (kind : r.kind = r'.kind) (name : r.name = r'.name)
    (parameters : r.parameters = r'.parameters)
    (code : squeeze (dropComments r.context.code.toList) = squeeze (dropComments r'.context.code.toList)) :
    usedRecords r = usedRecords r' := by
  have uses : ∀ code, usesOf r code = usesOf r' code := by
    intro code
    simp only [usesOf, ownParameters, parameters]
  simp only [usedRecords, kind, name]
  rw [← usesOf_squeeze, code, usesOf_squeeze, uses]

end SheetDoc
