import SheetDoc.Code.Signature
import SheetDoc.Proofs.Text.Names

namespace SheetDoc

/-- Whether every bracket is closed by its own kind and every comma stands inside brackets. The closing
brackets that are awaited come innermost first. -/
def nested (awaited : List Char) : List Char → Bool
  | [] => awaited.isEmpty
  | c :: r =>
    if c = '(' then nested (')' :: awaited) r
    else if c = '[' then nested (']' :: awaited) r
    else if c = ')' ∨ c = ']' then awaited.head? == some c && nested awaited.tail r
    else (c != ',' || !awaited.isEmpty) && nested awaited r

/-- A character that is neither a bracket nor a comma. -/
def isInert (c : Char) : Bool := !(c == '(' || c == '[' || c == ')' || c == ']' || c == ',')

/-- How a text that nests can begin. -/
inductive NestedStep (awaited r : List Char) : Char → Prop
  | round : nested (')' :: awaited) r = true → NestedStep awaited r '('
  | square : nested (']' :: awaited) r = true → NestedStep awaited r '['
  | close (c : Char) (outer : List Char) : c = ')' ∨ c = ']' → awaited = c :: outer →
      nested outer r = true → NestedStep awaited r c
  | comma : awaited ≠ [] → nested awaited r = true → NestedStep awaited r ','
  | inert (c : Char) : isInert c = true → nested awaited r = true → NestedStep awaited r c

section

variable {awaited p r : List Char} {c : Char}

theorem nestedStep (nests : nested awaited (c :: r) = true) : NestedStep awaited r c := by
  rw [nested] at nests
  split_ifs at nests with round square close
  · exact round ▸ .round nests
  · exact square ▸ .square nests
  · obtain ⟨awaits, nests⟩ := Bool.and_eq_true_iff.mp nests
    obtain ⟨outer, rfl⟩ := List.head?_eq_some_iff.mp (beq_iff_eq.mp awaits)
    exact .close c outer close rfl nests
  · obtain ⟨stands, inner⟩ := Bool.and_eq_true_iff.mp nests
    by_cases comma : c = ','
    · subst comma
      exact .comma (by simpa using stands) inner
    · exact .inert c (by simp_all [isInert]) inner

theorem nested_cons_of_inert (inert : isInert c = true) (awaited r : List Char) :
    nested awaited (c :: r) = nested awaited r := by
  simp only [isInert, Bool.not_eq_true', Bool.or_eq_false_iff, beq_eq_false_iff_ne] at inert
  simp [nested, inert]

theorem nested_append_of_inert (inert : ∀ c ∈ p, isInert c = true) (awaited s : List Char) :
    nested awaited (p ++ s) = nested awaited s := by
  induction p with
  | nil => rfl
  | cons c r ih =>
    obtain ⟨here, later⟩ := List.forall_mem_cons.mp inert
    rw [List.cons_append, nested_cons_of_inert here, ih later]

/-- Behind a text that nests no bracket is open. -/
theorem nested_append (nests : nested awaited p = true) (s : List Char) :
    nested awaited (p ++ s) = nested [] s := by
  induction p generalizing awaited with
  | nil => rw [List.isEmpty_iff.mp nests, List.nil_append]
  | cons c r ih =>
    rw [List.cons_append]
    cases nestedStep nests with
    | round inner => exact ih inner
    | square inner => exact ih inner
    | close c outer bracket awaits inner =>
      subst awaits
      rcases bracket with rfl | rfl <;> exact ih inner
    | comma inside inner =>
      rw [← ih inner]
      simp [nested, inside]
    | inert c inert inner => rw [nested_cons_of_inert inert, ih inner]

theorem untilClosed_cons_of_inert (inert : isInert c = true) (depth : Nat) (s : List Char) :
    untilClosed depth (c :: s) = c :: untilClosed depth s := by
  simp only [isInert, Bool.not_eq_true', Bool.or_eq_false_iff, beq_eq_false_iff_ne] at inert
  simp [untilClosed, inert]

/-- The parentheses that are open are those whose closing ones are awaited. -/
theorem untilClosed_nested (nests : nested awaited p = true) (s : List Char) :
    untilClosed (awaited.count ')' + 1) (p ++ s) = p ++ untilClosed 1 s := by
  induction p generalizing awaited with
  | nil =>
    rw [List.isEmpty_iff.mp nests]
    rfl
  | cons c r ih =>
    rw [List.cons_append, List.cons_append]
    cases nestedStep nests with
    | round inner =>
      rw [← ih inner, List.count_cons_self]
      rfl
    | square inner =>
      rw [← ih inner, List.count_cons_of_ne (by decide)]
      rfl
    | close c outer bracket awaits inner =>
      subst awaits
      rw [← ih inner]
      rcases bracket with rfl | rfl
      · rw [List.count_cons_self]
        rfl
      · rw [List.count_cons_of_ne (by decide)]
        rfl
    | comma _ inner =>
      rw [← ih inner]
      rfl
    | inert c inert inner => rw [untilClosed_cons_of_inert inert, ih inner]

theorem topLevelPieces_cons_of_inert (inert : isInert c = true) (depth : Int) (s : List Char) :
    topLevelPieces depth (c :: s) = (topLevelPieces depth s).modifyHead (c :: ·) := by
  simp only [isInert, Bool.not_eq_true', Bool.or_eq_false_iff, beq_eq_false_iff_ne] at inert
  simp [topLevelPieces, inert]

/-- The brackets that are open are those whose closing ones are awaited. -/
theorem topLevelPieces_nested (nests : nested awaited p = true) (s : List Char) :
    topLevelPieces awaited.length (p ++ s) = (topLevelPieces 0 s).modifyHead (p ++ ·) := by
  induction p generalizing awaited with
  | nil =>
    rw [List.isEmpty_iff.mp nests]
    change topLevelPieces 0 s = (topLevelPieces 0 s).modifyHead fun q => q
    cases topLevelPieces 0 s <;> rfl
  | cons c r ih =>
    have step : (topLevelPieces 0 s).modifyHead (c :: r ++ ·) =
        ((topLevelPieces 0 s).modifyHead (r ++ ·)).modifyHead (c :: ·) := by
      cases topLevelPieces 0 s <;> rfl
    rw [step, List.cons_append]
    cases nestedStep nests with
    | round inner =>
      rw [← ih inner]
      rfl
    | square inner =>
      rw [← ih inner]
      rfl
    | close c outer bracket awaits inner =>
      subst awaits
      have depth : ((c :: outer).length : Int) - 1 = outer.length := by
        rw [List.length_cons]
        omega
      rw [← ih inner, ← depth]
      rcases bracket with rfl | rfl <;> rfl
    | comma inside inner =>
      rw [← ih inner]
      simp [topLevelPieces, inside]
    | inert c inert inner => rw [topLevelPieces_cons_of_inert inert, ih inner]

theorem isInert_of_isBlank (blank : Text.isBlank c = true) : isInert c = true := by
  by_contra other
  simp only [isInert, Bool.not_eq_true', Bool.not_eq_false, Bool.or_eq_true, beq_iff_eq] at other
  rcases other with (((rfl | rfl) | rfl) | rfl) | rfl <;> revert blank <;> decide

theorem isInert_of_isNameChar (name : Text.isNameChar c = true) : isInert c = true := by
  by_contra other
  simp only [isInert, Bool.not_eq_true', Bool.not_eq_false, Bool.or_eq_true, beq_iff_eq] at other
  rcases other with (((rfl | rfl) | rfl) | rfl) | rfl <;> revert name <;> decide

end

section

variable {ps : List (List Char)}

theorem intercalate_comma_cons {ps : List (List Char)} (p : List Char) (more : ps ≠ []) :
    [','].intercalate (p :: ps) = p ++ ',' :: [','].intercalate ps := by
  cases ps with
  | nil => exact absurd rfl more
  | cons q ps => simp [List.intercalate]

/-- The list ends behind its pieces. -/
theorem untilClosed_intercalate (nests : ∀ p ∈ ps, nested [] p = true) (rest : List Char) :
    untilClosed 1 ([','].intercalate ps ++ ')' :: rest) = [','].intercalate ps := by
  induction ps with
  | nil => rfl
  | cons p ps ih =>
    obtain ⟨here, later⟩ := List.forall_mem_cons.mp nests
    by_cases more : ps = []
    · subst more
      have ends := untilClosed_nested here (')' :: rest)
      simpa [List.intercalate, untilClosed] using ends
    · rw [intercalate_comma_cons p more, List.append_assoc, List.cons_append]
      have goes : untilClosed 1 (',' :: ([','].intercalate ps ++ ')' :: rest)) =
          ',' :: [','].intercalate ps := congrArg (',' :: ·) (ih later)
      rw [← goes]
      exact untilClosed_nested here _

/-- The commas outside of all brackets are those between the pieces. -/
theorem topLevelPieces_intercalate (nonempty : ps ≠ []) (nests : ∀ p ∈ ps, nested [] p = true) :
    topLevelPieces 0 ([','].intercalate ps) = ps := by
  induction ps with
  | nil => exact absurd rfl nonempty
  | cons p ps ih =>
    obtain ⟨here, later⟩ := List.forall_mem_cons.mp nests
    by_cases more : ps = []
    · subst more
      have whole := topLevelPieces_nested here []
      simpa [List.intercalate, topLevelPieces] using whole
    · rw [intercalate_comma_cons p more]
      refine (topLevelPieces_nested here _).trans ?_
      have splits : topLevelPieces 0 (',' :: [','].intercalate ps) = [] :: ps :=
        congrArg ([] :: ·) (ih more later)
      rw [splits, List.modifyHead_cons, List.append_nil]

end

end SheetDoc
