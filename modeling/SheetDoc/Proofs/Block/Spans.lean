import Mathlib.Data.List.TakeWhile
import Mathlib.Logic.ExistsUnique
import SheetDoc.Block.Scan

namespace SheetDoc

/-- The line of a number; lines count from one. -/
def lineAt? (source : List Line) : Nat → Option Line
  | 0 => none
  | n + 1 => source[n]?

/-- The lines of the numbers from `first` to `last`. -/
def linesFromTo (source : List Line) (first last : Nat) : List Line :=
  (source.drop (first - 1)).take (last + 1 - first)

/-- The text of the line starts with the marker of line comments. -/
def IsMarked (line : Line) : Prop := Text.startsWith lineMarker (Text.trimLeft line) = true

/-- The text of the line starts with a comment of any kind, documentation or not. -/
def OpensComment (line : Line) : Prop :=
  Text.startsWith ['/', '/'] (Text.trimLeft line) = true ∨
    Text.startsWith ['/', '*'] (Text.trimLeft line) = true

/-- All lines between two lines are blank. -/
def BlankBetween (source : List Line) (above below : Nat) : Prop :=
  ∀ k line, above < k → k < below → lineAt? source k = some line → Text.allBlank line = true

/-- No code follows a line: there are only blank lines below it, or a comment is the next thing. -/
def NothingFollows (source : List Line) (last : Nat) : Prop :=
  BlankBetween source last (source.length + 1) ∨
    ∃ k line, last < k ∧ lineAt? source k = some line ∧ BlankBetween source last k ∧ OpensComment line

namespace Block

/-- The block documents nothing. -/
structure IsBare (b : Block) : Prop where
  code : b.code = ""
  codeStart : b.codeStart = none
  codeEnd : b.codeEnd = none

/-- The code of the block are the lines from `first` to `stop`, the next ones below line `last` that
are not blank. -/
structure Documents (source : List Line) (last : Nat) (b : Block) (first stop : Nat) : Prop where
  codeStart : b.codeStart = some (first : Int)
  codeEnd : b.codeEnd = some (stop : Int)
  below : last < first
  ordered : first ≤ stop
  inside : stop ≤ source.length
  blank : BlankBetween source last first
  code : b.code = String.ofList (Text.unlines (linesFromTo source first stop))
  opens : ∃ line, lineAt? source first = some line ∧ Text.allBlank line = false ∧ ¬OpensComment line

/-- The comment of the block ends on line `last`, and its code is what follows. A poster has none. -/
structure Stands (source : List Line) (b : Block) (last : Nat) : Prop where
  first_le : ∃ first : Nat, b.commentStart = first ∧ 1 ≤ first ∧ first ≤ last
  inside : last ≤ source.length
  poster : b.poster = true → b.IsBare
  code : b.poster = false →
    (∃ first stop, b.Documents source last first stop) ∨ b.IsBare ∧ NothingFollows source last

end Block

theorem lineAt?_append (before ls : List Line) (k : Nat) :
    lineAt? (before ++ ls) (before.length + (k + 1)) = ls[k]? := by
  rw [← Nat.add_assoc, lineAt?, List.getElem?_append_right (Nat.le_add_right _ _),
    Nat.add_sub_cancel_left]

theorem blankBetween_append (before ls : List Line) {blanks : List Line}
    (blank : ∀ l ∈ blanks, Text.allBlank l = true) :
    BlankBetween (before ++ (blanks ++ ls)) before.length (before.length + (blanks.length + 1)) := by
  intro k line above below atK
  obtain ⟨j, rfl⟩ := Nat.exists_eq_add_of_lt above
  rw [Nat.add_assoc, lineAt?_append, List.getElem?_append_left (by omega)] at atK
  exact blank line (List.mem_of_getElem? atK)

theorem linesFromTo_append (before middle ls : List Line) :
    linesFromTo (before ++ (middle ++ ls)) (before.length + 1) (before.length + middle.length) =
      middle := by
  have width : before.length + middle.length + 1 - (before.length + 1) = middle.length := by omega
  rw [linesFromTo, Nat.add_sub_cancel, List.drop_left, width, List.take_left]

/-- A construct is made of the lines that it begins with, one at least. -/
theorem constructLines_cons (depth : Int) (opened : Bool) (l : Line) (r : List Line) :
    ∃ code more, constructLines depth opened (l :: r) = l :: code ∧ r = code ++ more := by
  induction r generalizing depth opened l with
  | nil =>
    rw [constructLines]
    split <;> exact ⟨[], [], rfl, rfl⟩
  | cons l' r ih =>
    rw [constructLines]
    split
    · exact ⟨[], l' :: r, rfl, rfl⟩
    · obtain ⟨code, more, same, rfl⟩ := ih (depth + (withoutComment l).count '\x7b' -
        (withoutComment l).count '\x7d') (opened || (withoutComment l).contains '\x7b') l'
      exact ⟨l' :: code, more, by rw [same], rfl⟩

/-- What follows a comment after blank lines: nothing, another comment, or a construct. -/
inductive Following : List Line → Option (Nat × List Line) → Prop
  | nothing {ls : List Line} (blank : ∀ l ∈ ls, Text.allBlank l = true) : Following ls none
  | comment {blanks tail : List Line} {head : Line} (blank : ∀ l ∈ blanks, Text.allBlank l = true)
      (opens : OpensComment head) : Following (blanks ++ head :: tail) none
  | construct {blanks code more : List Line} {head : Line} (blank : ∀ l ∈ blanks, Text.allBlank l = true)
      (solid : Text.allBlank head = false) (plain : ¬OpensComment head) :
      Following (blanks ++ (head :: code ++ more)) (some (blanks.length, head :: code))

theorem following_constructAfter? (ls : List Line) : Following ls (constructAfter? ls) := by
  have parts := List.takeWhile_append_dropWhile (p := Text.allBlank) (l := ls)
  have blank : ∀ l ∈ ls.takeWhile Text.allBlank, Text.allBlank l = true := fun l =>
    List.mem_takeWhile_imp
  unfold constructAfter?
  cases tail : ls.dropWhile Text.allBlank with
  | nil =>
    rw [tail, List.append_nil] at parts
    exact .nothing (parts ▸ blank)
  | cons head tail' =>
    have solid : Text.allBlank head = false := by
      have := List.head_dropWhile_not Text.allBlank (l := ls) (by simp [tail])
      simpa [tail] using this
    rw [tail] at parts
    simp only
    split
    · rename_i opens
      rw [← parts]
      exact .comment blank (Bool.or_eq_true_iff.mp opens)
    · rename_i plain
      obtain ⟨code, more, same, rfl⟩ := constructLines_cons 0 false head tail'
      rw [same]
      conv => arg 1; rw [← parts]
      exact .construct blank solid fun opens => plain (Bool.or_eq_true_iff.mpr opens)

/-- The code below a comment is found there, or there is none to find. -/
theorem documents_withCode {b : Block} (bare : b.IsBare) (before after : List Line) :
    (∃ first stop, (b.withCode (before.length + 1) after).Documents (before ++ after) before.length
      first stop) ∨
      (b.withCode (before.length + 1) after).IsBare ∧ NothingFollows (before ++ after) before.length := by
  have following := following_constructAfter? after
  unfold Block.withCode
  generalize constructAfter? after = found at following ⊢
  cases following with
  | nothing blank =>
    refine Or.inr ⟨bare, Or.inl ?_⟩
    simpa [Nat.add_assoc] using blankBetween_append before [] blank
  | @comment blanks tail head blank opens =>
    refine Or.inr ⟨bare, Or.inr ⟨before.length + (blanks.length + 1), head, by omega, ?_,
      blankBetween_append _ _ blank, opens⟩⟩
    rw [lineAt?_append, List.getElem?_append_right (Nat.le_refl _), Nat.sub_self]
    rfl
  | @construct blanks code more head blank solid plain =>
    refine Or.inl ⟨before.length + (blanks.length + 1),
      before.length + (blanks.length + 1) + code.length, ?_⟩
    have above : (before ++ blanks).length = before.length + blanks.length := List.length_append
    have lines := linesFromTo_append (before ++ blanks) (head :: code) more
    rw [List.append_assoc, above, List.length_cons] at lines
    refine ⟨?_, ?_, by omega, by omega, ?_, blankBetween_append _ _ blank, ?_, head, ?_, solid, plain⟩
    · simp only [Option.some.injEq]
      omega
    · simp only [Option.some.injEq, List.length_cons]
      omega
    · simp only [List.length_append, List.length_cons]
      omega
    · have stop : before.length + (blanks.length + 1) + code.length =
          before.length + blanks.length + (code.length + 1) := by omega
      rw [stop, ← Nat.add_assoc, lines]
    · rw [lineAt?_append, List.getElem?_append_right (Nat.le_refl _), Nat.sub_self]
      rfl

theorem linesToClose_le (ls : List Line) : linesToClose ls ≤ ls.length := by
  induction ls with
  | nil => exact Nat.le_refl 0
  | cons l r ih =>
    rw [linesToClose]
    split
    · exact Nat.succ_le_succ (Nat.zero_le _)
    · exact Nat.succ_le_succ ih

theorem posterLines_more_le (delimited : Bool) (ls : List Line) :
    (posterLines delimited ls).more ≤ ls.length := by
  induction ls with
  | nil => exact Nat.le_refl 0
  | cons l r ih =>
    simp only [posterLines, List.length_cons]
    split
    · exact Nat.zero_le _
    · split
      · cases delimited <;> simp
      · split
        · exact Nat.zero_le _
        · exact Nat.succ_le_succ ih

/-- A comment takes up lines that are there. -/
theorem read_more_le (style : CommentStyle) (line : Line) (rest : List Line) :
    (style.read line rest).more ≤ rest.length := by
  cases style with
  | lines => exact (List.takeWhile_sublist _).length_le
  | poster => exact posterLines_more_le _ rest
  | block =>
    simp only [CommentStyle.read, readBlock]
    split
    · exact Nat.zero_le _
    · exact linesToClose_le rest

theorem commentStyle?_ne_none {line : Line} (marked : IsMarked line) : commentStyle? line ≠ none := by
  unfold IsMarked at marked
  unfold commentStyle?
  simp only [marked, if_true]
  split <;> simp

/-- The spans of the blocks in the lines below some others. -/
structure Spans (source before : List Line) (bs : List Block) (spans : List (Block × Nat)) : Prop where
  blocks : spans.map (·.1) = bs
  stands : ∀ s ∈ spans, s.1.Stands source s.2
  below : ∀ s ∈ spans, (before.length : Int) < s.1.commentStart
  ordered : spans.Pairwise fun s t => (s.2 : Int) < t.1.commentStart
  covers : ∀ k line, before.length < k → lineAt? source k = some line → IsMarked line →
    ∃ s ∈ spans, s.1.commentStart ≤ k ∧ k ≤ s.2

/-- The next span, of a comment that ends on the last of the lines in front of the rest. -/
theorem Spans.cons {source before inner : List Line} {line : Line} {b : Block} {bs : List Block}
    {spans : List (Block × Nat)} (start : b.commentStart = (before.length + 1 : Nat))
    (stands : b.Stands source (before ++ line :: inner).length)
    (rest : Spans source (before ++ line :: inner) bs spans) :
    Spans source before (b :: bs) ((b, (before ++ line :: inner).length) :: spans) where
  blocks := by rw [List.map_cons, rest.blocks]
  stands := List.forall_mem_cons.mpr ⟨stands, rest.stands⟩
  below := by
    refine List.forall_mem_cons.mpr ⟨by simp only [start]; omega, fun s member => ?_⟩
    have := rest.below s member
    simp only [List.length_append] at this
    omega
  ordered := List.pairwise_cons.mpr ⟨rest.below, rest.ordered⟩
  covers k line' below atK marked := by
    by_cases inside : k ≤ (before ++ line :: inner).length
    · exact ⟨_, List.mem_cons_self, by simp only [start]; omega, inside⟩
    · obtain ⟨s, member, covered⟩ := rest.covers k line' (by omega) atK marked
      exact ⟨s, List.mem_cons_of_mem _ member, covered⟩

/-- A line that opens no comment is in no span. -/
theorem Spans.skip {source before ls : List Line} {line : Line} {bs : List Block}
    {spans : List (Block × Nat)} (split : source = before ++ line :: ls)
    (plain : commentStyle? line = none) (rest : Spans source (before ++ [line]) bs spans) :
    Spans source before bs spans where
  blocks := rest.blocks
  stands := rest.stands
  below s member := by
    have := rest.below s member
    simp only [List.length_append, List.length_singleton] at this
    omega
  ordered := rest.ordered
  covers k line' below atK marked := by
    by_cases here : k = before.length + 1
    · rw [here, split, ← Nat.zero_add 1, lineAt?_append] at atK
      cases atK
      exact absurd plain (commentStyle?_ne_none marked)
    · refine rest.covers k line' ?_ atK marked
      simp only [List.length_append, List.length_singleton]
      omega

theorem exists_spans (source : List Line) (number : Nat) (ls : List Line) :
    ∀ before, source = before ++ ls → before.length + 1 = number →
      ∃ spans, Spans source before (scanLines number ls) spans := by
  fun_induction scanLines number ls with
  | case1 number =>
    rintro before split -
    refine ⟨[], rfl, by simp, by simp, .nil, fun k line below atK _ => ?_⟩
    obtain ⟨j, rfl⟩ := Nat.exists_eq_add_of_lt below
    rw [split, Nat.add_assoc, lineAt?_append] at atK
    simp at atK
  | case2 number line rest plain ih =>
    intro before split counted
    obtain ⟨spans, found⟩ := ih (before ++ [line]) (by simp [split]) (by simp [counted])
    exact ⟨spans, found.skip split plain⟩
  | case3 number line rest style opens found after next block ih =>
    intro before split counted
    have inner : rest = rest.take found.more ++ after := (List.take_append_drop ..).symm
    have taken : (rest.take found.more).length = found.more :=
      List.length_take_of_le (read_more_le style line rest)
    have parts : source = before ++ line :: rest.take found.more ++ after := by
      rw [List.append_assoc, List.cons_append, ← inner, split]
    have last : (before ++ line :: rest.take found.more).length + 1 = next := by
      simp only [List.length_append, List.length_cons, taken]
      omega
    obtain ⟨spans, rest'⟩ := ih _ parts last
    have start : block.commentStart = (before.length + 1 : Nat) := congrArg Nat.cast counted.symm
    have bare : block.IsBare := ⟨rfl, rfl, rfl⟩
    have stands : ∀ b : Block, b.commentStart = block.commentStart → (b.poster = true → b.IsBare) →
        (b.poster = false →
          (∃ first stop, b.Documents source (before ++ line :: rest.take found.more).length first stop) ∨
            b.IsBare ∧ NothingFollows source (before ++ line :: rest.take found.more).length) →
        b.Stands source (before ++ line :: rest.take found.more).length := by
      intro b same poster code
      refine ⟨⟨before.length + 1, same.trans start, by omega, ?_⟩, ?_, poster, code⟩
      · simp only [List.length_append, List.length_cons]
        omega
      · rw [parts]
        exact (List.prefix_append _ after).length_le
    split_ifs with poster
    · have isPoster : block.poster = true := poster
      exact ⟨_, rest'.cons start (stands block rfl (fun _ => bare) fun other => by
        rw [isPoster] at other
        cases other)⟩
    · have other : (block.withCode next after).poster = false := by
        rw [block.poster_withCode]
        simpa [block] using poster
      have same := block.commentStart_withCode next after
      refine ⟨_, rest'.cons (same.trans start) (stands _ same ?_ fun _ => ?_)⟩
      · rw [other]
        nofun
      · rw [← last, parts]
        exact documents_withCode bare _ after

/-- Where the blocks of a source stand: every block has a span of lines and, unless it is a poster, the
code that follows it; the spans come one below the other, and each line that starts with the marker
of line comments is in exactly one of them. -/
theorem scanBlocks_spans (text : String) :
    let source := Text.lines (Text.unifyLineEnds text.toList)
    ∃ spans : List (Block × Nat), spans.map (·.1) = scanBlocks text ∧
      (∀ s ∈ spans, s.1.Stands source s.2) ∧
      spans.Pairwise (fun s t : Block × Nat => (s.2 : Int) < t.1.commentStart) ∧
      ∀ (k : Nat) (line : Line), lineAt? source k = some line → IsMarked line →
        ∃! i : Nat, ∃ s : Block × Nat, spans[i]? = some s ∧ s.1.commentStart ≤ k ∧ k ≤ s.2 := by
  intro source
  obtain ⟨spans, found⟩ := exists_spans source 1 source [] rfl rfl
  refine ⟨spans, found.blocks, found.stands, found.ordered, fun k line atK marked => ?_⟩
  have inside : 0 < k := by
    cases k with
    | zero => cases atK
    | succ => exact Nat.succ_pos _
  obtain ⟨s, member, first, last⟩ := found.covers k line inside atK marked
  obtain ⟨i, isSpan, rfl⟩ := List.mem_iff_getElem.mp member
  have apart := List.pairwise_iff_getElem.mp found.ordered
  refine ⟨i, ⟨spans[i], List.getElem?_eq_getElem isSpan, first, last⟩, ?_⟩
  rintro j ⟨t, atJ, above, below⟩
  obtain ⟨isSpan', rfl⟩ := List.getElem?_eq_some_iff.mp atJ
  -- of two spans one ends above the other, so no line is in both
  rcases Nat.lt_trichotomy i j with before | same | after
  · have := apart i j isSpan isSpan' before
    omega
  · exact same.symm
  · have := apart j i isSpan' isSpan after
    omega

end SheetDoc
