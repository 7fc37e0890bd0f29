import Mathlib.Data.List.Forall2
import SheetDoc.Proofs.Block.Spans
import SheetDoc.Proofs.Comment.Layout

namespace SheetDoc

/-- A line that a comment of either style can hold as it is. -/
structure IsCommentText (l : Line) : Prop where
  single : '\n' ∉ l
  plain : '\r' ∉ l
  unclosed : Text.occurs blockClose l = false
  trimmed : Text.trimRight l = l

instance (l : Line) : Decidable (IsCommentText l) :=
  decidable_of_iff
    ('\n' ∉ l ∧ '\r' ∉ l ∧ Text.occurs blockClose l = false ∧ Text.trimRight l = l)
    ⟨fun ⟨single, plain, unclosed, trimmed⟩ => ⟨single, plain, unclosed, trimmed⟩,
      fun text => ⟨text.single, text.plain, text.unclosed, text.trimmed⟩⟩

instance (l : Line) : Decidable (IsMarked l) :=
  inferInstanceAs (Decidable (Text.startsWith lineMarker (Text.trimLeft l) = true))

/-- The text as a comment of marked lines. -/
def lineComment (ls : List Line) : List Line := ls.map fun l => lineMarker ++ ' ' :: l

/-- The text as a block comment with a gutter. -/
def blockComment (ls : List Line) : List Line :=
  blockOpen :: (ls.map fun l => [' ', '*', ' '] ++ l) ++ [' ' :: blockClose]

/-- Two blocks with the same code and with comments that read the same. -/
structure Block.Alike (b b' : Block) : Prop where
  comment : (Comment.ofText b.comment).unlined = (Comment.ofText b'.comment).unlined
  code : b.code = b'.code
  poster : b.poster = b'.poster

theorem Block.Alike.withCode {b b' : Block} (alike : b.Alike b') (number number' : Nat)
    (rest : List Line) : (b.withCode number rest).Alike (b'.withCode number' rest) := by
  unfold Block.withCode
  cases constructAfter? rest with
  | none => exact alike
  | some found => exact ⟨alike.comment, rfl, alike.poster⟩

/-- Where the first line stands makes no difference to the blocks but in their numbers. -/
theorem scanLines_alike (number number' : Nat) (ls : List Line) :
    List.Forall₂ Block.Alike (scanLines number ls) (scanLines number' ls) := by
  fun_induction scanLines number ls generalizing number' with
  | case1 =>
    rw [scanLines]
    exact .nil
  | case2 number line rest none ih =>
    rw [scanLines]
    simp only [none]
    exact ih (number' + 1)
  | case3 number line rest style opens found after next block ih =>
    rw [scanLines]
    simp only [opens]
    refine .cons ?_ (ih _)
    have alike : block.Alike { block with commentStart := number' } := ⟨rfl, rfl, rfl⟩
    split
    · exact alike
    · exact alike.withCode _ _ after

/-- The block of a comment by itself. -/
def commentBlock (number : Nat) (text : List Line) : Block :=
  { comment := String.ofList (Text.unlines text), code := "", commentStart := number }

/-- A comment takes up its lines and is followed by the construct below them. -/
theorem scanLines_comment {number : Nat} {line : Line} {inner rest text : List Line}
    {style : CommentStyle} (opens : commentStyle? line = some style) (other : style ≠ .poster)
    (read : style.read line (inner ++ rest) = ⟨text, inner.length⟩) :
    scanLines number (line :: (inner ++ rest)) =
      (commentBlock number text).withCode (number + 1 + inner.length) rest ::
        scanLines (number + 1 + inner.length) rest := by
  have poster : (style == .poster) = false := beq_false_of_ne other
  rw [scanLines]
  simp only [opens, read, poster, List.drop_left]
  rfl

theorem commentStyle?_lineMarker (l : Line) : commentStyle? (lineMarker ++ ' ' :: l) = some .lines :=
  rfl

theorem dropMarker_lineMarker (l : Line) : dropMarker (lineMarker ++ ' ' :: l) = l := rfl

theorem commentStyle?_ne_lines {line : Line} (unmarked : ¬IsMarked line) :
    commentStyle? line ≠ some .lines := by
  unfold IsMarked at unmarked
  unfold commentStyle?
  simp only [unmarked]
  split_ifs <;> simp_all

/-- The comment goes on to the first line without a marker. -/
theorem readLines_lineComment (l : Line) (ls : List Line) {rest : List Line}
    (unmarked : ∀ r ∈ rest.head?, ¬IsMarked r) :
    readLines (lineMarker ++ ' ' :: l) (lineComment ls ++ rest) = ⟨l :: ls, ls.length⟩ := by
  have run : (lineComment ls ++ rest).takeWhile (commentStyle? · == some .lines) = lineComment ls := by
    have all : ∀ l ∈ lineComment ls, (commentStyle? l == some .lines) = true := by
      intro l member
      obtain ⟨t, _, rfl⟩ := List.mem_map.mp member
      rfl
    have stop : rest.takeWhile (commentStyle? · == some .lines) = [] := by
      cases rest with
      | nil => rfl
      | cons r rest =>
        have other := commentStyle?_ne_lines (unmarked r rfl)
        rw [List.takeWhile_cons_of_neg (by simpa using other)]
    rw [List.takeWhile_append_of_pos all, stop, List.append_nil]
  have texts : (lineComment ls).map dropMarker = ls := by
    rw [lineComment, List.map_map]
    exact List.map_id ls
  simp only [readLines, run, List.map_cons, dropMarker_lineMarker, texts]
  simp [lineComment]

/-- A blank stands behind the star of the gutter, so a text that begins with a slash closes nothing. -/
theorem occurs_gutter (l : Line) :
    Text.occurs blockClose ([' ', '*', ' '] ++ l) = Text.occurs blockClose l := rfl

theorem dropGutter_gutter {l : Line} (text : IsCommentText l) :
    dropGutter ([' ', '*', ' '] ++ l) = l := by
  have cut : Text.cutBefore blockClose (Text.trimLeft ([' ', '*', ' '] ++ l)) = '*' :: ' ' :: l :=
    congrArg ('*' :: ' ' :: ·) (Text.cutBefore_of_not_occurs text.unclosed)
  rw [dropGutter, cut]
  exact text.trimmed

theorem linesToClose_append {ls : List Line} (unclosed : ∀ l ∈ ls, Text.occurs blockClose l = false)
    {last : Line} (closes : Text.occurs blockClose last = true) (rest : List Line) :
    linesToClose (ls ++ last :: rest) = ls.length + 1 := by
  induction ls with
  | nil => rw [List.nil_append, linesToClose, if_pos closes, List.length_nil]
  | cons l ls ih =>
    obtain ⟨here, later⟩ := List.forall_mem_cons.mp unclosed
    rw [List.cons_append, linesToClose, here, ih later, List.length_cons]
    rfl

theorem dropBlankEnd_concat_nil (ls : List Line) : dropBlankEnd (ls ++ [[]]) = dropBlankEnd ls := by
  rw [dropBlankEnd, List.reverse_append]
  rfl

/-- The comment goes on to the line that closes it. -/
theorem readBlock_blockComment {ls : List Line} (text : ∀ l ∈ ls, IsCommentText l)
    (rest : List Line) :
    readBlock blockOpen ((blockComment ls).tail ++ rest) =
      ⟨dropBlankEnd ([] :: ls), ls.length + 1⟩ := by
  let body := (ls.map fun l => [' ', '*', ' '] ++ l) ++ [' ' :: blockClose]
  have length : body.length = ls.length + 1 := by simp [body]
  have more : linesToClose (body ++ rest) = ls.length + 1 := by
    rw [List.append_assoc, List.singleton_append]
    refine (linesToClose_append (fun l member => ?_) rfl rest).trans (by rw [List.length_map])
    obtain ⟨t, inside, rfl⟩ := List.mem_map.mp member
    exact (occurs_gutter t).trans (text t inside).unclosed
  have texts : body.map dropGutter = ls ++ [[]] := by
    rw [List.map_append, List.map_map]
    congr 1
    exact (List.map_congr_left fun l member => dropGutter_gutter (text l member)).trans (List.map_id ls)
  have taken : (body ++ rest).take (ls.length + 1) = body := by rw [← length, List.take_left]
  change (⟨dropBlankEnd ([] :: ((body ++ rest).take (linesToClose (body ++ rest))).map dropGutter),
    linesToClose (body ++ rest)⟩ : CommentLines) = _
  rw [more, taken, texts, ← List.cons_append, dropBlankEnd_concat_nil]

/-- A comment in either style in front of the same lines gives blocks that read the same. -/
theorem scanLines_styles {ls : List Line} (nonempty : ls ≠ []) (text : ∀ l ∈ ls, IsCommentText l)
    {rest : List Line} (unmarked : ∀ r ∈ rest.head?, ¬IsMarked r) :
    List.Forall₂ Block.Alike (scanLines 1 (lineComment ls ++ rest))
      (scanLines 1 (blockComment ls ++ rest)) := by
  have reads : (Comment.ofText (String.ofList (Text.unlines ls))).unlined =
      (Comment.ofText (String.ofList (Text.unlines (dropBlankEnd ([] :: ls))))).unlined :=
    Comment.unlined_ofText_dropBlankEnd nonempty (fun l member => (text l member).single)
      fun l member => (text l member).trimmed
  have first : ∃ number, scanLines 1 (lineComment ls ++ rest) =
      (commentBlock 1 ls).withCode number rest :: scanLines number rest := by
    obtain ⟨l, ls, rfl⟩ := List.exists_cons_of_ne_nil nonempty
    have read := readLines_lineComment l ls unmarked
    rw [← List.length_map fun l => lineMarker ++ ' ' :: l] at read
    exact ⟨_, scanLines_comment (commentStyle?_lineMarker l) nofun read⟩
  have second : ∃ number, scanLines 1 (blockComment ls ++ rest) =
      (commentBlock 1 (dropBlankEnd ([] :: ls))).withCode number rest :: scanLines number rest := by
    have read := readBlock_blockComment text rest
    have length : (blockComment ls).tail.length = ls.length + 1 := by simp [blockComment]
    rw [← length] at read
    exact ⟨_, scanLines_comment rfl nofun read⟩
  obtain ⟨number, first⟩ := first
  obtain ⟨number', second⟩ := second
  rw [first, second]
  have alike : (commentBlock 1 ls).Alike (commentBlock 1 (dropBlankEnd ([] :: ls))) :=
    ⟨reads, rfl, rfl⟩
  exact .cons (alike.withCode number number' rest) (scanLines_alike number number' rest)

/-- A source that begins with some lines, and goes on below them if there is a rest. -/
def sourceOf (above : List Line) (rest : Option String) : String :=
  String.ofList (Text.unlines (above ++ (rest.map String.toList).toList))

/-- The lines of what is left of a source. -/
def restLines (rest : Option String) : List Line :=
  rest.elim [] fun r => Text.lines (Text.unifyLineEnds r.toList)

theorem lines_sourceOf {above : List Line} (nonempty : above ≠ [])
    (clean : ∀ l ∈ above, '\n' ∉ l ∧ '\r' ∉ l) (rest : Option String) :
    Text.lines (Text.unifyLineEnds (sourceOf above rest).toList) = above ++ restLines rest := by
  have single : ∀ l ∈ above, '\n' ∉ l := fun l member => (clean l member).1
  have plain : ∀ l ∈ above, '\r' ∉ l := fun l member => (clean l member).2
  rw [sourceOf, String.toList_ofList]
  cases rest with
  | some r =>
    simp only [Option.map_some, Option.toList_some, Text.unifyLineEnds_unlines plain,
      Text.lines_unlines_append single]
    rfl
  | none =>
    -- without a rest the last line ends the text, and nothing is there to unify
    obtain ⟨init, last, rfl⟩ : ∃ init last, above = init ++ [last] :=
      ⟨_, _, (List.dropLast_concat_getLast nonempty).symm⟩
    obtain ⟨init_plain, last_plain⟩ := List.forall_mem_append.mp plain
    have same := Text.unifyLineEnds_of_plain (last_plain last List.mem_cons_self)
    simp only [Option.map_none, Option.toList_none, List.append_nil,
      Text.unifyLineEnds_unlines init_plain, same, Text.lines_unlines nonempty single]
    exact (List.append_nil _).symm

theorem scanBlocks_styles {ls : List Line} (nonempty : ls ≠ []) (text : ∀ l ∈ ls, IsCommentText l)
    {rest : Option String} (unmarked : ∀ l ∈ (restLines rest).head?, ¬IsMarked l) :
    List.Forall₂ Block.Alike (scanBlocks (sourceOf (lineComment ls) rest))
      (scanBlocks (sourceOf (blockComment ls) rest)) := by
  have clean_lines : ∀ l ∈ lineComment ls, '\n' ∉ l ∧ '\r' ∉ l := by
    intro l member
    obtain ⟨t, inside, rfl⟩ := List.mem_map.mp member
    simp [lineMarker, (text t inside).single, (text t inside).plain]
  have clean_block : ∀ l ∈ blockComment ls, '\n' ∉ l ∧ '\r' ∉ l := by
    intro l member
    simp only [blockComment, List.mem_append, List.mem_cons, List.mem_map, List.not_mem_nil,
      or_false] at member
    rcases member with (rfl | ⟨t, inside, rfl⟩) | rfl
    · decide
    · simp [(text t inside).single, (text t inside).plain]
    · decide
  rw [scanBlocks, scanBlocks, lines_sourceOf (by simpa [lineComment] using nonempty) clean_lines,
    lines_sourceOf (by simp [blockComment]) clean_block]
  exact scanLines_styles nonempty text unmarked

end SheetDoc
