import SheetDoc.Proofs.Block.Styles
import SheetDoc.Proofs.Code.Assignments

namespace SheetDoc

theorem cutBefore_append_of_absent {c : Char} {pattern s : List Char} (absent : c ∉ s) (t : List Char) :
    Text.cutBefore (c :: pattern) (s ++ t) = s ++ Text.cutBefore (c :: pattern) t := by
  induction s with
  | nil => rfl
  | cons d r ih =>
    obtain ⟨other, later⟩ := not_or.mp (List.mem_cons.not.mp absent)
    have here : Text.startsWith (c :: pattern) (d :: (r ++ t)) = false := by
      simp [Text.startsWith, List.isPrefixOf, other]
    rw [List.cons_append, Text.cutBefore, here, ih later]
    rfl

namespace Assignment

variable {d : Assignment}

/-- Of a line the scanner counts the statement. -/
theorem exists_withoutComment (written : d.IsWritten) :
    ∃ g, IsGap g ∧ withoutComment d.line = d.statement ++ g := by
  obtain ⟨g, gap, cut⟩ : ∃ g, IsGap g ∧ Text.cutBefore ['/', '/'] d.line = d.statement ++ g := by
    have statement : Text.cutBefore ['/', '/'] (d.statement ++ d.trailer) =
        d.statement ++ Text.cutBefore ['/', '/'] d.trailer :=
      cutBefore_append_of_absent (not_mem_statement written (by decide)) d.trailer
    cases comment : d.comment with
    | none =>
      have trailer : d.trailer = [] := by rw [Assignment.trailer, comment]; rfl
      exact ⟨[], ⟨rfl, List.not_mem_nil⟩, statement.trans (by rw [trailer]; rfl)⟩
    | some k =>
      obtain ⟨gap, text⟩ := k
      have blank := (written.comment _ (by rw [comment]; rfl)).1
      have trailer : d.trailer = gap ++ '/' :: '/' :: text := by rw [Assignment.trailer, comment]; rfl
      refine ⟨gap, blank, statement.trans ?_⟩
      rw [trailer, cutBefore_append_of_absent (blank.absent (by decide))]
      simp [Text.cutBefore, Text.startsWith]
  refine ⟨g, gap, ?_⟩
  have last : (d.statement ++ g).getLast? ≠ some ':' := by
    rcases List.eq_nil_or_concat g with rfl | ⟨r, c, rfl⟩
    · rw [List.append_nil, getLast?_statement]
      decide
    · have blank := List.all_eq_true.mp gap.blank c (by simp)
      rintro same
      simp only [List.concat_eq_append, ← List.append_assoc, List.getLast?_concat, Option.some.injEq] at same
      subst same
      revert blank
      decide
  rw [withoutComment, cut, if_neg last]

theorem constructLines_line (written : d.IsWritten) (more : List Line) :
    constructLines 0 false (d.line :: more) = [d.line] := by
  obtain ⟨g, gap, code⟩ := exists_withoutComment written
  have absent : ∀ c ∈ scannedSigns, (d.statement ++ g).count c = 0 := fun c sign =>
    List.count_eq_zero.mpr fun inside => (List.mem_append.mp inside).elim
      (not_mem_statement written sign) (gap.absent sign)
  have semicolon : (d.statement ++ g).contains ';' = true := by simp [statement, body]
  rw [constructLines, code, absent '\x7b' (by decide), absent '\x7d' (by decide), semicolon]
  simp

/-- The block of the line below a comment of one line is the only one. -/
theorem scanLines_line (written : d.IsWritten) {first : Line} (opens : commentStyle? first = some .lines)
    {more : List Line} (void : more = [] ∨ more = [[]]) :
    ∃ b, scanLines 1 (first :: d.line :: more) = [b] ∧ b.code = String.ofList d.line := by
  have read : CommentStyle.lines.read first ([] ++ d.line :: more) = ⟨[dropMarker first], 0⟩ := rfl
  have follows : constructAfter? (d.line :: more) = some (0, [d.line]) := by
    rw [← constructLines_line written more]
    rfl
  have later : ∀ number, scanLines number (d.line :: more) = [] := by
    intro number
    have plain : commentStyle? d.line = none := rfl
    rw [scanLines]
    simp only [plain]
    rcases void with rfl | rfl
    · rw [scanLines]
    · rw [scanLines]
      change scanLines (number + 1 + 1) [] = []
      rw [scanLines]
  refine ⟨_, (scanLines_comment opens (by rintro ⟨⟩) read).trans (congrArg _ (later _)), ?_⟩
  rw [Block.withCode, follows]
  exact congrArg String.ofList (by simp [Text.unlines])

end Assignment

theorem commentStyle?_marked {t : List Char} (marker : t.head? ≠ some '/') :
    commentStyle? (lineMarker ++ t) = some .lines := by
  cases t with
  | nil => rfl
  | cons c r =>
    have other : c ≠ '/' := fun same => marker (congrArg some same)
    have poster : Text.startsWith posterMarker (lineMarker ++ c :: r) = false := by
      simp [Text.startsWith, posterMarker, lineMarker, List.isPrefixOf, other.symm]
    have body : Text.trimLeft (lineMarker ++ c :: r) = lineMarker ++ c :: r := rfl
    rw [commentStyle?, body, poster]
    rfl

namespace Assignment

/-- The declaration below a comment of one line. -/
def source (d : Assignment) (comment ending : List Char) : String :=
  String.ofList (lineMarker ++ comment ++ '\n' :: (d.line ++ ending))

variable {d : Assignment}

/-- A line end leaves the line but for a carriage return at the end of its comment. -/
theorem exists_unified (written : d.IsWritten) : ∃ comment,
    { d with comment := comment }.IsWritten ∧ (comment = none ↔ d.comment = none) ∧
      Text.unifyLineEnds (d.line ++ ['\n']) = { d with comment := comment }.line ++ ['\n'] := by
  obtain ⟨line, same, unified⟩ := Text.exists_unifyLineEnds (single_line written) []
  rcases same with rfl | same
  · exact ⟨d.comment, written, Iff.rfl, unified⟩
  · cases comment : d.comment with
    | none =>
      have whole : d.line = d.statement := by
        rw [Assignment.line, trailer, comment]
        exact List.append_nil _
      have last := getLast?_statement d
      rw [← whole, same, List.getLast?_concat] at last
      cases last
    | some k =>
      obtain ⟨gap, text⟩ := k
      obtain ⟨blank, single⟩ := written.comment _ comment
      have whole : d.line = d.statement ++ (gap ++ '/' :: '/' :: text) := by
        simp [Assignment.line, trailer, comment]
      rcases List.eq_nil_or_concat text with rfl | ⟨text, c, rfl⟩
      · have last := congrArg List.getLast? (whole.symm.trans same)
        simp at last
      · have parts : d.statement ++ (gap ++ '/' :: '/' :: text) ++ [c] = line ++ ['\r'] := by
          rw [← same, whole]
          simp
        obtain ⟨rest, _⟩ := List.append_inj' parts rfl
        refine ⟨some (gap, text), ⟨written.name, written.before, written.after, written.value, written.flags,
          written.gap, ?_⟩, by simp, unified.trans (congrArg (· ++ ['\n']) rest.symm)⟩
        rintro _ ⟨⟩
        exact ⟨blank, fun inside => single (by simp [inside])⟩

/-- The lines of the source, with the line ends taken off. -/
theorem exists_lines_source (written : d.IsWritten) {comment ending : List Char} (single : '\n' ∉ comment)
    (marker : comment.head? ≠ some '/') (ends : ending = [] ∨ ending = ['\n']) :
    ∃ first trailing more, commentStyle? first = some .lines ∧ (more = [] ∨ more = [[]]) ∧
      { d with comment := trailing }.IsWritten ∧ (trailing = none ↔ d.comment = none) ∧
      Text.lines (Text.unifyLineEnds (d.source comment ending).toList) =
        first :: { d with comment := trailing }.line :: more := by
  obtain ⟨first, same, unified⟩ := Text.exists_unifyLineEnds (s := lineMarker ++ comment)
    (by simp [lineMarker, single]) (d.line ++ ending)
  have opens : commentStyle? first = some .lines ∧ '\n' ∉ first := by
    rcases same with rfl | same
    · exact ⟨commentStyle?_marked marker, by simp [lineMarker, single]⟩
    · rcases List.eq_nil_or_concat comment with rfl | ⟨text, c, rfl⟩
      · have last := congrArg List.getLast? same
        simp [lineMarker] at last
      · rw [List.concat_eq_append, ← List.append_assoc] at same
        obtain ⟨rfl, _⟩ := List.append_inj' same rfl
        refine ⟨commentStyle?_marked fun slash => marker ?_, ?_⟩
        · rw [List.concat_eq_append, List.head?_append, slash]
          rfl
        · simp only [List.concat_eq_append, List.mem_append, not_or] at single
          simp [lineMarker, single.1]
  have split : Text.lines (Text.unifyLineEnds (d.source comment ending).toList) =
      first :: Text.lines (Text.unifyLineEnds (d.line ++ ending)) := by
    rw [source, String.toList_ofList, unified, Text.lines_append opens.2]
  rcases ends with rfl | rfl
  · refine ⟨first, d.comment, [], opens.1, .inl rfl, written, Iff.rfl, ?_⟩
    rw [split, List.append_nil, Text.unifyLineEnds_of_single (single_line written),
      Text.lines_of_single (single_line written)]
  · obtain ⟨trailing, written', none, line⟩ := exists_unified written
    refine ⟨first, trailing, [[]], opens.1, .inr rfl, written', none, ?_⟩
    rw [split, line, Text.lines_append (single_line written')]
    rfl

/-- A declaration on one line below a comment is the code of the only block. It is read back with its
name, and with its value and scope exactly when no comment stands behind it. -/
theorem inferred_iff_uncommented (written : d.IsWritten) {comment ending : List Char} (single : '\n' ∉ comment)
    (marker : comment.head? ≠ some '/') (ends : ending = [] ∨ ending = ['\n']) :
    ∃ b, scanBlocks (d.source comment ending) = [b] ∧ (Context.ofBlock b).kind = .var ∧
      (Context.ofBlock b).name = String.ofList d.name ∧
      ((Context.ofBlock b).value = some (String.ofList d.value) ∧
        (Context.ofBlock b).scope = some (String.ofList d.scope) ↔ d.comment = none) := by
  obtain ⟨first, trailing, more, opens, void, written', none, lines⟩ :=
    exists_lines_source written single marker ends
  obtain ⟨b, found, code⟩ := scanLines_line written' opens void
  obtain ⟨kind, name, value, scope⟩ := ofBlock_line written' code
  refine ⟨b, by rw [scanBlocks, lines, found], kind, name, ?_⟩
  rw [value, scope, ← none]
  constructor
  · rintro ⟨same, _⟩
    by_contra some
    have semicolon := mem_variableValue written' some
    rw [String.ofList_injective (Option.some.inj same)] at semicolon
    exact written.value.plain ';' semicolon (by decide)
  · intro plain
    rw [variableValue_bare written' plain]
    exact ⟨rfl, rfl⟩

/-- A colon in the value, and two flags with nothing between them. -/
def flagged : Assignment where
  name := "a-b".toList
  before := [' ']
  after := ['\t']
  value := "(x: 1px, y: 2)".toList
  flags := [([' '], "default".toList), ([], "global".toList)]
  gap := [' ']
  comment := none

theorem inferred_iff_uncommented_flagged :
    flagged.IsWritten ∧ flagged.source " Text".toList ['\n'] =
        "/// Text\n$a-b :\t(x: 1px, y: 2) !default!global ;\n" ∧
      ∃ b, scanBlocks (flagged.source " Text".toList ['\n']) = [b] ∧ (Context.ofBlock b).kind = .var ∧
        (Context.ofBlock b).name = "a-b" ∧ (Context.ofBlock b).value = some "(x: 1px, y: 2)" ∧
        (Context.ofBlock b).scope = some "global" := by
  have gap : ∀ b ∈ [[], [' '], ['\t']], IsGap b := fun b listed =>
    ⟨by revert b; decide, by revert b; decide⟩
  have flags : ∀ f ∈ flagged.flags, f.IsWritten := fun f listed =>
    ⟨gap f.1 (by revert f; decide), by revert f; decide⟩
  have written : flagged.IsWritten :=
    ⟨by decide, gap _ (by decide), gap _ (by decide), ⟨by decide, by decide, by decide⟩, flags,
      gap _ (by decide), nofun⟩
  have single : '\n' ∉ " Text".toList := by decide
  obtain ⟨b, found, kind, name, parts⟩ := inferred_iff_uncommented written single (by decide) (.inr rfl)
  exact ⟨written, by decide +kernel, b, found, kind, name, parts.mpr rfl⟩

/-- One with a comment behind it. -/
def noted : Assignment where
  name := ['a']
  before := []
  after := [' ']
  value := ['1']
  flags := []
  gap := []
  comment := some ([' '], [' ', 'c'])

/-- The comment gets into the value. -/
theorem not_inferred_noted :
    noted.IsWritten ∧ noted.source " x".toList [] = "/// x\n$a: 1; // c" ∧
      (scanBlocks (noted.source " x".toList [])).map (fun b => (Context.ofBlock b).value) =
        [some "1; // c"] ∧
      ¬∃ b, scanBlocks (noted.source " x".toList []) = [b] ∧
        (Context.ofBlock b).value = some (String.ofList noted.value) := by
  have space : IsGap [' '] := ⟨by decide, by decide⟩
  have none : IsGap [] := ⟨by decide, by decide⟩
  have written : noted.IsWritten :=
    ⟨by decide, none, space, ⟨by decide, by decide, by decide⟩, nofun, none, by
      rintro _ ⟨⟩
      exact ⟨space, by decide⟩⟩
  have values : (scanBlocks (noted.source " x".toList [])).map (fun b => (Context.ofBlock b).value) =
      [some "1; // c"] := by decide +kernel
  refine ⟨written, by decide +kernel, values, ?_⟩
  rintro ⟨b, found, value⟩
  rw [found, List.map_singleton, value] at values
  revert values
  decide +kernel

end Assignment

end SheetDoc
