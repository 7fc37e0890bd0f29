import SheetDoc.Proofs.Code.Notes
import SheetDoc.Proofs.Record.Typed
import SheetDoc.Proofs.Tag.Frame

namespace SheetDoc

/-- The record with the lines as its code. -/
def Record.coded (r : Record) (ls : List (List Char)) : Record :=
  { r with context := { r.context with code := String.ofList (Text.unlines ls) } }

/-- What a tag reads out of the code of a record. -/
def Tag.filled? (a : Tag) (r : Record) : Option (Except Failure Value) := a.autofill.map (· r)

/-- The line holds the directive of content. -/
def mentionsContent (l : List Char) : Bool := Text.occurs contentDirective l

section

variable {first : List Char} {ls ls' : List (List Char)}

theorem takesContent_unlines (ls : List (List Char)) :
    takesContent (String.ofList (Text.unlines ls)) = ls.any mentionsContent := by
  rw [takesContent, String.toList_ofList]
  exact occurs_unlines (by decide) (by decide) ls

/-- What a line of code has either a note has or another line. -/
theorem any_filter_notes (p : List Char → Bool) (ls : List (List Char)) :
    ((ls.filter (!isNote ·)).any p || (ls.filter isNote).any p) = ls.any p := by
  induction ls with
  | nil => rfl
  | cons l ls ih =>
    rw [List.any_cons, ← ih]
    cases note : isNote l with
    | true => simp [note, Bool.or_left_comm]
    | false => simp [note, Bool.or_assoc]

/-- Each message once, at its first place. -/
def eachOnce (ms : List String) : List String :=
  ms.foldl (fun found m => if found.contains m then found else found ++ [m]) []

theorem mem_eachOnce {ms : List String} {m : String} : m ∈ eachOnce ms ↔ m ∈ ms := by
  have general : ∀ found : List String, m ∈ ms.foldl
      (fun found m => if found.contains m then found else found ++ [m]) found ↔ m ∈ found ∨ m ∈ ms := by
    induction ms with
    | nil => simp
    | cons m' ms ih =>
      intro found
      rw [List.foldl_cons, ih, List.mem_cons]
      split_ifs with known
      · have listed := List.contains_iff_mem.mp known
        constructor
        · rintro (inside | later)
          · exact .inl inside
          · exact .inr (.inr later)
        · rintro (inside | rfl | later)
          · exact .inl inside
          · exact .inl listed
          · exact .inr later
      · rw [List.mem_append, List.mem_singleton, or_assoc]
  exact (general []).trans (by simp)

/-- The errors of code are those of its lines. -/
theorem raisedErrors_unlines (closed : ∀ l ∈ ls, ¬LeavesOpen l) :
    raisedErrors (String.ofList (Text.unlines ls)) =
      eachOnce ((ls.flatMap raisedMessages).map String.ofList) := by
  rw [raisedErrors, String.toList_ofList, raisedMessages_unlines closed]
  rfl

/-- Where notes raise no errors, those of the code are raised by its other lines. -/
theorem flatMap_raisedMessages (silent : ∀ l ∈ ls, isNote l = true → raisedMessages l = []) :
    ls.flatMap raisedMessages = (ls.filter (!isNote ·)).flatMap raisedMessages := by
  induction ls with
  | nil => rfl
  | cons l ls ih =>
    obtain ⟨here, later⟩ := List.forall_mem_cons.mp silent
    cases note : isNote l with
    | true =>
      rw [List.flatMap_cons, here note, List.nil_append, List.filter_cons_of_neg (by simp [note]), ih later]
    | false =>
      rw [List.filter_cons_of_pos (by simp [note]), List.flatMap_cons, List.flatMap_cons, ih later]

end

namespace Tag

variable {r : Record} {first : List Char} {ls ls' : List (List Char)}

/-- Nothing is used by code without any text. -/
theorem usedRecords_of_void (void : dropComments r.context.code.toList = []) : usedRecords r = [] := by
  have none : dropDeclarations [] = [] := by
    rw [dropDeclarations]
    rfl
  simp [usedRecords, void, usesOf, none, calledNames, includedNames, extendedNames, variableNames]

theorem suggestedRequires_of_holds (context : r.Holds .context) (parameter : r.Holds .parameter) :
    suggestedRequires r = .ok (usedRecords r) := by
  rw [suggestedRequires, Record.contextFor_of_holds context, parameter.flaw]
  change (if (dropComments r.context.code.toList).isEmpty = true then Except.ok []
    else Except.ok (usedRecords r)) = Except.ok (usedRecords r)
  split_ifs with void
  · rw [usedRecords_of_void (List.isEmpty_iff.mp void)]
  · rfl

theorem filled?_require (context : r.Holds .context) (parameter : r.Holds .parameter) :
    require.filled? r = some (.ok (.list ((usedRecords r).map .require))) := by
  simp only [filled?, require, Option.map_some, suggestedRequires_of_holds context parameter]
  rfl

theorem filled?_content (context : r.Holds .context) :
    content.filled? (r.coded ls) = some (.ok (if ls.any mentionsContent then .text "" else .null)) := by
  have context' : (r.coded ls).Holds .context := context
  simp only [filled?, content, Option.map_some, Record.contextFor_of_holds context', ← takesContent_unlines]
  rfl

theorem filled?_throw (context : r.Holds .context) (closed : ∀ l ∈ ls, ¬LeavesOpen l) :
    throw.filled? (r.coded ls) =
      some (.ok (.texts (eachOnce ((ls.flatMap raisedMessages).map String.ofList)))) := by
  have context' : (r.coded ls).Holds .context := context
  simp only [filled?, throw, Option.map_some, Record.contextFor_of_holds context',
    ← raisedErrors_unlines closed]
  rfl

/-- Notes have no say in what is required. -/
theorem filled?_require_notes (context : r.Holds .context) (parameter : r.Holds .parameter)
    (single : ∀ l ∈ ls, '\n' ∉ l) (single' : ∀ l ∈ ls', '\n' ∉ l)
    (same : ls.filter (!isNote ·) = ls'.filter (!isNote ·)) :
    ∃ v, require.filled? (r.coded (first :: ls)) = some (.ok v) ∧
      require.filled? (r.coded (first :: ls')) = some (.ok v) := by
  have code : Text.squeeze (dropComments (r.coded (first :: ls)).context.code.toList) =
      Text.squeeze (dropComments (r.coded (first :: ls')).context.code.toList) := by
    simp only [Record.coded, String.toList_ofList]
    rw [squeeze_dropComments_filter first single, same, ← squeeze_dropComments_filter first single']
  have used : usedRecords (r.coded (first :: ls)) = usedRecords (r.coded (first :: ls')) :=
    usedRecords_congr rfl rfl rfl code
  refine ⟨_, filled?_require context parameter, ?_⟩
  rw [used]
  exact filled?_require context parameter

/-- Notes that hold the directive of content count like code. -/
theorem filled?_content_iff (context : r.Holds .context)
    (same : ls.filter (!isNote ·) = ls'.filter (!isNote ·)) :
    content.filled? (r.coded (first :: ls)) = content.filled? (r.coded (first :: ls')) ↔
      (first :: ls.filter (!isNote ·)).any mentionsContent = true ∨
        (ls.filter isNote).any mentionsContent = (ls'.filter isNote).any mentionsContent := by
  have parts : ∀ ls : List (List Char), (first :: ls).any mentionsContent =
      ((first :: ls.filter (!isNote ·)).any mentionsContent || (ls.filter isNote).any mentionsContent) := by
    intro ls
    rw [List.any_cons, List.any_cons, Bool.or_assoc, any_filter_notes]
  have apart : ∀ b b' : Bool, (if b then Value.text "" else .null) = (if b' then Value.text "" else .null) ↔
      b = b' := by
    intro b b'
    cases b <;> cases b' <;> simp
  rw [filled?_content context, filled?_content context, Option.some.injEq, Except.ok.injEq, apart, parts ls,
    parts ls', same]
  generalize (first :: ls'.filter (!isNote ·)).any mentionsContent = kept
  cases kept <;> simp

/-- Notes that raise errors count like code. -/
theorem filled?_throw_notes (context : r.Holds .context)
    (closed : ∀ l ∈ first :: (ls ++ ls'), ¬LeavesOpen l)
    (same : ls.filter (!isNote ·) = ls'.filter (!isNote ·)) :
    ((∀ l ∈ ls ++ ls', isNote l = true → raisedMessages l = []) →
        throw.filled? (r.coded (first :: ls)) = throw.filled? (r.coded (first :: ls'))) ∧
      (throw.filled? (r.coded (first :: ls)) = throw.filled? (r.coded (first :: ls')) →
        ∀ l ∈ ls, isNote l = true → ∀ m ∈ raisedMessages l, ∃ l' ∈ first :: ls', m ∈ raisedMessages l') := by
  obtain ⟨top, lines⟩ := List.forall_mem_cons.mp closed
  obtain ⟨lines, lines'⟩ := List.forall_mem_append.mp lines
  rw [filled?_throw context (List.forall_mem_cons.mpr ⟨top, lines⟩),
    filled?_throw context (List.forall_mem_cons.mpr ⟨top, lines'⟩)]
  constructor
  · intro silent
    obtain ⟨silent, silent'⟩ := List.forall_mem_append.mp silent
    rw [List.flatMap_cons, List.flatMap_cons, flatMap_raisedMessages silent,
      flatMap_raisedMessages silent', same]
  · intro found l member _ m raised
    have messages := List.map_injective_iff.mpr Item.text_injective
      (Value.list.inj (Except.ok.inj (Option.some.inj found)))
    have listed : String.ofList m ∈ ((first :: ls).flatMap raisedMessages).map String.ofList :=
      List.mem_map_of_mem (List.mem_flatMap.mpr ⟨l, List.mem_cons_of_mem first member, raised⟩)
    rw [← mem_eachOnce, messages, mem_eachOnce] at listed
    obtain ⟨m', inside, text⟩ := List.mem_map.mp listed
    rw [← String.ofList_injective text]
    exact List.mem_flatMap.mp inside

/-- Codes that differ in notes below their first line. The same requirements are found in both. Content is
found in both or in neither exactly when a line of code holds its directive, or notes of both codes do, or
no notes. Where no line leaves an error open, the same errors are found as long as notes raise none; and if
the same are found, each that a note raises is raised in the other code as well. -/
theorem autofill_notes (context : r.Holds .context) (parameter : r.Holds .parameter)
    (single : ∀ l ∈ first :: (ls ++ ls'), '\n' ∉ l)
    (same : ls.filter (!isNote ·) = ls'.filter (!isNote ·)) :
    (∃ v, require.filled? (r.coded (first :: ls)) = some (.ok v) ∧
        require.filled? (r.coded (first :: ls')) = some (.ok v)) ∧
      (content.filled? (r.coded (first :: ls)) = content.filled? (r.coded (first :: ls')) ↔
        (first :: ls.filter (!isNote ·)).any mentionsContent = true ∨
          (ls.filter isNote).any mentionsContent = (ls'.filter isNote).any mentionsContent) ∧
      ((∀ l ∈ first :: (ls ++ ls'), ¬LeavesOpen l) →
        ((∀ l ∈ ls ++ ls', isNote l = true → raisedMessages l = []) →
          throw.filled? (r.coded (first :: ls)) = throw.filled? (r.coded (first :: ls'))) ∧
        (throw.filled? (r.coded (first :: ls)) = throw.filled? (r.coded (first :: ls')) →
          ∀ l ∈ ls, isNote l = true → ∀ m ∈ raisedMessages l, ∃ l' ∈ first :: ls', m ∈ raisedMessages l')) := by
  obtain ⟨_, lines⟩ := List.forall_mem_cons.mp single
  obtain ⟨lines, lines'⟩ := List.forall_mem_append.mp lines
  exact ⟨filled?_require_notes context parameter lines lines' same, filled?_content_iff context same,
    fun closed => filled?_throw_notes context closed same⟩

/-- A mixin that is given the codes below. -/
def plainMixin : Record where
  context := { kind := .mixin, name := "m" }
  file := ⟨"a.scss", "a.scss"⟩

/-- The first line of its code. -/
def opening : List Char := "@mixin m($a) \x7b".toList

def notedLines : List (List Char) :=
  ["  // @include b($c); /* f()".toList, "  @include d($a);".toList, "// @extend %e".toList, "\x7d".toList]

def plainLines : List (List Char) := ["  @include d($a);".toList, "\x7d".toList, "\t// $g".toList]

theorem autofill_notes_plain :
    plainMixin.Holds .context ∧ plainMixin.Holds .parameter ∧
      (∀ l ∈ opening :: (notedLines ++ plainLines), '\n' ∉ l) ∧
      notedLines.filter (!isNote ·) = plainLines.filter (!isNote ·) ∧
      (∀ l ∈ opening :: (notedLines ++ plainLines), ¬LeavesOpen l) ∧
      require.filled? (plainMixin.coded (opening :: notedLines)) =
        require.filled? (plainMixin.coded (opening :: plainLines)) ∧
      content.filled? (plainMixin.coded (opening :: notedLines)) =
        content.filled? (plainMixin.coded (opening :: plainLines)) ∧
      throw.filled? (plainMixin.coded (opening :: notedLines)) =
        throw.filled? (plainMixin.coded (opening :: plainLines)) := by
  have single : ∀ l ∈ opening :: (notedLines ++ plainLines), '\n' ∉ l := by decide +kernel
  have same : notedLines.filter (!isNote ·) = plainLines.filter (!isNote ·) := by decide +kernel
  have closed : ∀ l ∈ opening :: (notedLines ++ plainLines), ¬LeavesOpen l := by decide +kernel
  have silent : ∀ l ∈ notedLines ++ plainLines, isNote l = true → raisedMessages l = [] := by decide +kernel
  have context : plainMixin.Holds .context := rfl
  have parameter : plainMixin.Holds .parameter := rfl
  obtain ⟨⟨v, noted, plain⟩, content, throw⟩ := autofill_notes context parameter single same
  exact ⟨context, parameter, single, same, closed, noted.trans plain.symm,
    content.mpr (.inr (by decide +kernel)), (throw closed).1 silent⟩

/-- A note that holds the directive of content, and one that raises an error. -/
def contentNote : List (List Char) := ["  // @content;".toList, "\x7d".toList]

def errorNote : List (List Char) := ["  // @error \"x\";".toList, "\x7d".toList]

def noNote : List (List Char) := ["\x7d".toList]

/-- They are taken for code. -/
theorem not_blind_notes :
    contentNote.filter (!isNote ·) = noNote.filter (!isNote ·) ∧
      errorNote.filter (!isNote ·) = noNote.filter (!isNote ·) ∧
      content.filled? (plainMixin.coded (opening :: contentNote)) = some (.ok (.text "")) ∧
      content.filled? (plainMixin.coded (opening :: noNote)) = some (.ok .null) ∧
      content.filled? (plainMixin.coded (opening :: contentNote)) ≠
        content.filled? (plainMixin.coded (opening :: noNote)) ∧
      throw.filled? (plainMixin.coded (opening :: errorNote)) = some (.ok (.texts ["x"])) ∧
      throw.filled? (plainMixin.coded (opening :: noNote)) = some (.ok (.texts [])) ∧
      throw.filled? (plainMixin.coded (opening :: errorNote)) ≠
        throw.filled? (plainMixin.coded (opening :: noNote)) := by
  have context : plainMixin.Holds .context := rfl
  have content : content.filled? (plainMixin.coded (opening :: contentNote)) = some (.ok (.text "")) := by
    have mentions : (opening :: contentNote).any mentionsContent = true := by decide +kernel
    rw [filled?_content context, mentions]
    rfl
  have noContent : Tag.content.filled? (plainMixin.coded (opening :: noNote)) = some (.ok .null) := by
    have none : (opening :: noNote).any mentionsContent = false := by decide +kernel
    rw [filled?_content context, none]
    rfl
  have error : throw.filled? (plainMixin.coded (opening :: errorNote)) = some (.ok (.texts ["x"])) := by
    have raised : eachOnce (((opening :: errorNote).flatMap raisedMessages).map String.ofList) = ["x"] := by
      decide +kernel
    rw [filled?_throw context (by decide +kernel), raised]
  have noError : throw.filled? (plainMixin.coded (opening :: noNote)) = some (.ok (.texts [])) := by
    have silent : eachOnce (((opening :: noNote).flatMap raisedMessages).map String.ofList) = [] := by
      decide +kernel
    rw [filled?_throw context (by decide +kernel), silent]
  refine ⟨by decide +kernel, by decide +kernel, content, noContent, ?_, error, noError, ?_⟩
  · rw [content, noContent]
    simp
  · rw [error, noError]
    simp [Value.texts]

end Tag

end SheetDoc
