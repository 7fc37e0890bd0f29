import SheetDoc.Proofs.Block.Spans
import SheetDoc.Proofs.Comment.Layout

namespace SheetDoc

/-- Texts are pieces of lines one below the other, the first of which comes after `above` others. -/
def StandIn (ls texts : List Line) (above : Nat) : Prop :=
  ∀ i t, texts[i]? = some t → ∃ l, ls[above + i]? = some l ∧ t <:+: l

theorem getElem?_of_begins {ls more : List Line} (front : ls <+: more) {i : Nat} {l : Line}
    (atI : ls[i]? = some l) : more[i]? = some l := by
  obtain ⟨rest, rfl⟩ := front
  obtain ⟨bound, _⟩ := List.getElem?_eq_some_iff.mp atI
  rw [List.getElem?_append_left bound, atI]

theorem StandIn.of_begins {ls texts more : List Line} {above : Nat} (stand : StandIn ls more above)
    (front : texts <+: more) : StandIn ls texts above :=
  fun i t atI => stand i t (getElem?_of_begins front atI)

/-- The lines that some lines begin with, each cut down to a piece. -/
theorem standIn_map {ls front : List Line} (begins : front <+: ls) {cut : Line → Line}
    (piece : ∀ l, cut l <:+: l) : StandIn ls (front.map cut) 0 := by
  intro i t atI
  rw [List.getElem?_map] at atI
  obtain ⟨l, listed, rfl⟩ := Option.map_eq_some_iff.mp atI
  exact ⟨l, by rw [Nat.zero_add, getElem?_of_begins begins listed], piece l⟩

theorem StandIn.cons {ls texts : List Line} {line text : Line} (piece : text <:+: line)
    (stand : StandIn ls texts 0) : StandIn (line :: ls) (text :: texts) 0 := by
  intro i t atI
  cases i with
  | zero =>
    cases atI
    exact ⟨line, rfl, piece⟩
  | succ i =>
    obtain ⟨l, listed, inside⟩ := stand i t atI
    rw [Nat.zero_add] at listed ⊢
    exact ⟨l, listed, inside⟩

theorem StandIn.below {ls texts : List Line} (stand : StandIn ls texts 0) (line : Line) :
    StandIn (line :: ls) texts 1 := by
  intro i t atI
  obtain ⟨l, listed, inside⟩ := stand i t atI
  rw [Nat.zero_add] at listed
  exact ⟨l, by rw [Nat.add_comm, List.getElem?_cons_succ, listed], inside⟩

theorem dropSpace_suffix (l : Line) : dropSpace l <:+ l := by
  unfold dropSpace
  split
  · exact List.suffix_cons ' ' _
  · exact List.suffix_rfl

theorem dropMarker_piece (l : Line) : dropMarker l <:+: l := by
  have marker : dropMarker l <:+ Text.trimLeft l :=
    (dropSpace_suffix _).trans (List.drop_suffix _ _)
  exact (marker.trans (Text.trimLeft_suffix l)).isInfix

theorem dropGutter_piece (l : Line) : dropGutter l <:+: l := by
  have body : Text.cutBefore blockClose (Text.trimLeft l) <:+: l :=
    (Text.cutBefore_begins _ _).isInfix.trans (Text.trimLeft_suffix l).isInfix
  unfold dropGutter
  simp only
  refine (Text.trimRight_begins _).isInfix.trans ((dropSpace_suffix _).isInfix.trans ?_)
  split
  · rename_i r star
    rw [star] at body
    exact (List.suffix_cons '*' r).isInfix.trans body
  · exact body

theorem dropBlankEnd_begins (ls : List Line) : dropBlankEnd ls <+: ls := by
  have suffix := List.dropWhile_suffix Text.allBlank (l := ls.reverse)
  rw [dropBlankEnd, ← List.reverse_suffix, List.reverse_reverse]
  exact suffix

theorem standIn_posterLines (delimited : Bool) (ls : List Line) :
    StandIn ls (posterLines delimited ls).text 0 := by
  have nothing : StandIn ls [] 0 := nofun
  induction ls with
  | nil => exact nothing
  | cons l r ih =>
    simp only [posterLines]
    split
    · exact nothing
    · split
      · exact nothing
      · split
        · exact nothing
        · exact (ih nofun).cons (dropMarker_piece l)

theorem standIn_readBlock (first : Line) (rest : List Line) :
    StandIn (first :: rest) (readBlock first rest).text 0 := by
  have head : Text.trimRight (dropSpace (Text.cutBefore blockClose
      ((Text.trimLeft first).drop blockOpen.length))) <:+: first := by
    refine (Text.trimRight_begins _).isInfix.trans ((dropSpace_suffix _).isInfix.trans ?_)
    refine (Text.cutBefore_begins _ _).isInfix.trans ?_
    exact ((List.drop_suffix _ _).trans (Text.trimLeft_suffix first)).isInfix
  have inner := standIn_map (List.take_prefix (readBlock first rest).more rest) dropGutter_piece
  exact (inner.cons head).of_begins (dropBlankEnd_begins _)

/-- How many lines of a comment come before its text, by the line that opens it. -/
def CommentStyle.above (style : CommentStyle) (line : Line) : Nat :=
  if style = .poster ∧ isDelimiter line = true then 1 else 0

/-- The text of a comment stands in the lines that it is read from. -/
theorem standIn_read (style : CommentStyle) (line : Line) (rest : List Line) :
    StandIn (line :: rest) (style.read line rest).text (style.above line) := by
  cases style with
  | lines =>
    have run : line :: rest.takeWhile (fun l => commentStyle? l == some .lines) <+: line :: rest :=
      List.cons_prefix_cons.mpr ⟨rfl, List.takeWhile_prefix _⟩
    exact standIn_map run dropMarker_piece
  | block => exact standIn_readBlock line rest
  | poster =>
    have body := standIn_posterLines (isDelimiter line) rest
    by_cases delimited : isDelimiter line = true
    · rw [CommentStyle.above, if_pos ⟨rfl, delimited⟩]
      simp only [CommentStyle.read, readPoster, delimited, if_true]
      rw [delimited] at body
      exact body.below line
    · have plain : isDelimiter line = false := Bool.eq_false_iff.mpr delimited
      rw [CommentStyle.above, if_neg fun both => delimited both.2]
      simp only [CommentStyle.read, readPoster, plain, Bool.false_eq_true, if_false]
      rw [plain] at body
      exact body.cons (dropMarker_piece line)

/-- A poster alone can begin with a delimiter. -/
theorem isDelimiter_of_not_poster {line : Line} {style : CommentStyle}
    (opens : commentStyle? line = some style) (other : style ≠ .poster) :
    isDelimiter line = false := by
  by_contra delimits
  have marked : posterMarker <+: Text.trim line := by
    simp only [isDelimiter, Bool.not_eq_false, Bool.and_eq_true] at delimits
    exact List.isPrefixOf_iff_prefix.mp delimits.2
  have starts : Text.startsWith posterMarker (Text.trimLeft line) = true :=
    List.isPrefixOf_iff_prefix.mpr (marked.trans (Text.trimRight_begins _))
  unfold commentStyle? at opens
  rw [if_pos starts] at opens
  exact other (Option.some.inj opens).symm

/-- How many lines of a source a block begins with before its text: the delimiter, if there is one. -/
def Block.lead (source : List Line) (b : Block) : Nat :=
  if (lineAt? source b.commentStart.toNat).any isDelimiter then 1 else 0

/-- A block is read from the line that its comment begins in and those below it. -/
theorem mem_scanLines {number : Nat} {ls : List Line} {b : Block} (member : b ∈ scanLines number ls) :
    ∃ k line rest style, ls.drop k = line :: rest ∧ commentStyle? line = some style ∧
      b.commentStart = (number + k : Nat) ∧
      b.comment = String.ofList (Text.unlines (style.read line rest).text) := by
  fun_induction scanLines number ls with
  | case1 => cases member
  | case2 number line rest _ ih =>
    obtain ⟨k, line', rest', style, dropped, opens, start, comment⟩ := ih member
    refine ⟨k + 1, line', rest', style, dropped, opens, ?_, comment⟩
    rw [start]
    omega
  | case3 number line rest style opens found after next block ih =>
    rcases List.mem_cons.mp member with rfl | later
    · refine ⟨0, line, rest, style, rfl, opens, ?_, ?_⟩
      · split
        · rfl
        · exact block.commentStart_withCode next after
      · split
        · rfl
        · exact block.comment_withCode next after
    · obtain ⟨k, line', rest', style', dropped, opens', start, comment⟩ := ih later
      refine ⟨found.more + k + 1, line', rest', style', ?_, opens', ?_, comment⟩
      · rw [List.drop_succ_cons, ← List.drop_drop]
        exact dropped
      · rw [start]
        omega

theorem tagLine?_begins {l tag first : List Char} (found : tagLine? l = some (tag, first)) :
    '@' :: tag <+: l := by
  unfold tagLine? at found
  split at found
  · rename_i c r
    split at found
    · cases found
      exact List.cons_prefix_cons.mpr ⟨rfl, List.cons_prefix_cons.mpr ⟨rfl, List.takeWhile_prefix _⟩⟩
    · cases found
  · cases found

/-- Each tag opens the line that its offset counts to. -/
theorem splitTags_opens (n : Nat) (ls : List Line) :
    ∀ item ∈ (splitTags n ls).2, n ≤ item.offset ∧
      ∃ l, ls[item.offset - n]? = some l ∧ '@' :: item.tag.toList <+: l := by
  induction ls generalizing n with
  | nil => exact List.forall_mem_nil _
  | cons l rest ih =>
    have later : ∀ item ∈ (splitTags (n + 1) rest).2, n ≤ item.offset ∧
        ∃ l', (l :: rest)[item.offset - n]? = some l' ∧ '@' :: item.tag.toList <+: l' := by
      intro item member
      obtain ⟨below, l', listed, opens⟩ := ih (n + 1) item member
      have place : item.offset - n = item.offset - (n + 1) + 1 := by omega
      exact ⟨by omega, l', by rw [place, List.getElem?_cons_succ, listed], opens⟩
    simp only [splitTags]
    cases tagged : tagLine? l with
    | none => exact later
    | some found =>
      refine List.forall_mem_cons.mpr ⟨⟨Nat.le_refl n, l, ?_, ?_⟩, later⟩
      · rw [Nat.sub_self]
        rfl
      · rw [String.toList_ofList]
        exact tagLine?_begins tagged

/-- Each tag of a comment stands in the line of the comment that its offset counts to. -/
theorem Comment.mem_items {ls : List Line} (single : ∀ l ∈ ls, '\n' ∉ l) {item : Tagged}
    (member : item ∈ (Comment.ofText (String.ofList (Text.unlines ls))).items) :
    ∃ l, ls[item.offset]? = some l ∧ '@' :: item.tag.toList <:+: l := by
  obtain ⟨_, d, listed, opens⟩ := splitTags_opens 0 _ item member
  obtain ⟨l, listed, dedented⟩ := Text.dedent_getElem? listed
  have inside := opens.isInfix.trans dedented.isInfix
  rw [String.toList_ofList, Nat.sub_zero] at listed
  by_cases nonempty : ls = []
  · -- the text of no lines is one empty line, which holds no tag
    subst nonempty
    obtain rfl : l = [] := by
      have member := List.mem_of_getElem? listed
      simpa [Text.unlines, Text.lines, Text.splitOn] using member
    exact absurd (List.infix_nil.mp inside) (List.cons_ne_nil _ _)
  · rw [Text.lines_unlines nonempty single] at listed
    exact ⟨l, listed, inside⟩

/-- The lines that the numbers of a source count. -/
def sourceLines (text : String) : List Line := Text.lines (Text.unifyLineEnds text.toList)

/-- A tag stands in the line of a source that has the given number. -/
def Tagged.StandsIn (source : List Line) (number : Nat) (item : Tagged) : Prop :=
  ∃ line, lineAt? source number = some line ∧ '@' :: item.tag.toList <:+: line

/-- Each tag of a block stands in the line that its offset counts to, from the delimiter or, where
there is none, from the comment. -/
theorem mem_scanBlocks_items {text : String} {b : Block} (member : b ∈ scanBlocks text)
    {item : Tagged} (tagged : item ∈ (Comment.ofText b.comment).items) :
    ∃ number : Nat, b.commentStart + item.offset = number ∧
      item.StandsIn (sourceLines text) (number + b.lead (sourceLines text)) := by
  obtain ⟨k, line, rest, style, dropped, opens, start, comment⟩ := mem_scanLines member
  change (sourceLines text).drop k = line :: rest at dropped
  generalize sourced : sourceLines text = source at dropped ⊢
  have places : ∀ j, lineAt? source (k + 1 + j) = (line :: rest)[j]? := by
    intro j
    have next : k + 1 + j = k + j + 1 := by omega
    rw [next, lineAt?, ← dropped, List.getElem?_drop]
  have number : b.commentStart.toNat = k + 1 := by
    rw [start]
    omega
  have lead : b.lead source = style.above line := by
    have here := places 0
    rw [Nat.add_zero, List.getElem?_cons_zero] at here
    rw [Block.lead, number, here, Option.any_some, CommentStyle.above]
    by_cases poster : style = .poster
    · simp only [poster, true_and]
    · simp [poster, isDelimiter_of_not_poster opens poster]
  have single : ∀ l ∈ line :: rest, '\n' ∉ l := by
    intro l inside
    refine Text.single_of_mem_lines (s := Text.unifyLineEnds text.toList) ?_
    change l ∈ sourceLines text
    rw [sourced]
    exact List.mem_of_mem_drop (dropped ▸ inside)
  have stand := standIn_read style line rest
  have texts : ∀ t ∈ (style.read line rest).text, '\n' ∉ t := by
    intro t inside
    obtain ⟨i, atI⟩ := List.mem_iff_getElem?.mp inside
    obtain ⟨l, listed, piece⟩ := stand i t atI
    exact fun sep => single l (List.mem_of_getElem? listed) (piece.subset sep)
  rw [comment] at tagged
  obtain ⟨t, listed, opened⟩ := Comment.mem_items texts tagged
  obtain ⟨l, stands, piece⟩ := stand item.offset t listed
  refine ⟨k + 1 + item.offset, by omega, l, ?_, opened.trans piece⟩
  have place : k + 1 + item.offset + style.above line = k + 1 + (style.above line + item.offset) := by
    omega
  rw [lead, place, places, stands]

end SheetDoc
