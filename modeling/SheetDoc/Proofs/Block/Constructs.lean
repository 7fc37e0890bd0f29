import Mathlib.Data.List.Infix
import SheetDoc.Proofs.Block.Places
import SheetDoc.Proofs.Block.Styles

namespace SheetDoc

/-- What the characters of a construct belong to. -/
inductive Region
  | code
  /-- An address without quotes, where slashes open no comment. -/
  | address
  | quoted (quote : Char)
  | comment
  deriving DecidableEq

namespace Region

/-- The code of a line that begins in a region, without strings and comments, and the region that the
line ends in. -/
def read : Region → Line → Line × Region
  | region, [] => ([], region)
  | code, '/' :: '/' :: _ => ([], code)
  | code, '/' :: '*' :: r => comment.read r
  | code, 'u' :: 'r' :: 'l' :: '(' :: r => (address.read r).map (['u', 'r', 'l', '('] ++ ·) id
  | address, ')' :: r => (code.read r).map (')' :: ·) id
  | comment, '*' :: '/' :: r => code.read r
  | comment, _ :: r => comment.read r
  | quoted q, '\\' :: _ :: r => (quoted q).read r
  | quoted q, c :: r => if c = q then code.read r else (quoted q).read r
  | region, c :: r =>
    if c = '"' ∨ c = '\'' then (quoted c).read r else (region.read r).map (c :: ·) id

/-- The code of each line below each other, the first of which begins in the region. -/
def readLines : Region → List Line → List Line
  | _, [] => []
  | region, l :: ls => (region.read l).1 :: (region.read l).2.readLines ls

end Region

/-- The code of lines, without strings and comments. -/
def codeOf (ls : List Line) : List Line := Region.code.readLines ls

/-- How many more braces open than close in a text. -/
def braceDepth (s : Line) : Int := s.count '\x7b' - s.count '\x7d'

/-- Each brace of the text closes in it, and none closes that does not open in it. -/
def IsBalanced (s : Line) : Prop := (∀ front, front <+: s → 0 ≤ braceDepth front) ∧ braceDepth s = 0

/-- Lines that open a body without a statement before it, and close it on the last line. Of the code there
is a head in front of the brace that opens the body, and a rest behind the one that closes it. -/
structure IsConstruct (ls : List Line) (head body rest : Line) : Prop where
  code : Text.unlines (codeOf ls) = head ++ '\x7b' :: (body ++ '\x7d' :: rest)
  begins : ∃ line ∈ ls.head?, Text.allBlank line = false ∧ ¬OpensComment line
  unopened : '\x7b' ∉ head
  bodiless : ';' ∉ head
  balanced : IsBalanced body
  last : '\n' ∉ rest

/-- The scanner counts in each line of a construct what its code holds: what stands in strings and comments
nests on its line, nothing that it takes for a sign of the code stands above the body, and no more braces
are opened behind the body. -/
structure IsQuiet (ls : List Line) (head rest : Line) : Prop where
  nested : ∀ l ∈ ls.zip (codeOf ls), braceDepth (withoutComment l.1) = braceDepth l.2
  above : ∀ l ∈ (ls.zip (codeOf ls)).takeWhile fun l => !l.2.contains '\x7b',
    '\x7b' ∉ withoutComment l.1 ∧ ';' ∉ withoutComment l.1
  opens : ∃ l ∈ ls, '\x7b' ∈ withoutComment l
  front : '\x7d' ∉ head
  behind : braceDepth rest ≤ 0

section

variable {s t : Line}

theorem braceDepth_append (s t : Line) : braceDepth (s ++ t) = braceDepth s + braceDepth t := by
  simp only [braceDepth, List.count_append]
  omega

theorem braceDepth_open (s : Line) : braceDepth ('\x7b' :: s) = 1 + braceDepth s := by
  simp only [braceDepth, List.count_cons_self, List.count_cons_of_ne (show '\x7b' ≠ '\x7d' by decide)]
  omega

theorem braceDepth_close (s : Line) : braceDepth ('\x7d' :: s) = braceDepth s - 1 := by
  simp only [braceDepth, List.count_cons_self, List.count_cons_of_ne (show '\x7d' ≠ '\x7b' by decide)]
  omega

theorem braceDepth_of_plain (opened : '\x7b' ∉ s) (closed : '\x7d' ∉ s) : braceDepth s = 0 := by
  rw [braceDepth, List.count_eq_zero.mpr opened, List.count_eq_zero.mpr closed]
  rfl

/-- Line ends count for nothing. -/
theorem braceDepth_unlines (ls : List Line) : braceDepth (Text.unlines ls) = braceDepth ls.flatten := by
  induction ls with
  | nil => rfl
  | cons l rest ih =>
    cases rest with
    | nil => simp [Text.unlines]
    | cons l' rest =>
      have sep : braceDepth ['\n'] = 0 := by decide
      rw [Text.unlines_cons l (List.cons_ne_nil l' rest), List.flatten_cons, braceDepth_append,
        braceDepth_append l, ← ih, ← List.singleton_append, braceDepth_append, sep, Int.zero_add]

instance (s : Line) : Decidable (IsBalanced s) :=
  decidable_of_iff ((∀ front ∈ s.inits, 0 ≤ braceDepth front) ∧ braceDepth s = 0)
    (by simp only [IsBalanced, List.mem_inits])

end

instance (line : Line) : Decidable (OpensComment line) := inferInstanceAs (Decidable (_ ∨ _))

theorem Region.readLines_length (region : Region) (ls : List Line) :
    (region.readLines ls).length = ls.length := by
  induction ls generalizing region with
  | nil => rfl
  | cons l ls ih => rw [readLines, List.length_cons, ih, List.length_cons]

/-- What the lines below some others are read in does not change the code of these. -/
theorem Region.readLines_append (region : Region) (ls more : List Line) :
    ∃ later : Region, region.readLines (ls ++ more) = region.readLines ls ++ later.readLines more := by
  induction ls generalizing region with
  | nil => exact ⟨region, rfl⟩
  | cons l ls ih =>
    obtain ⟨later, same⟩ := ih (region.read l).2
    exact ⟨later, congrArg ((region.read l).1 :: ·) same⟩

/-- The text of lines that the scanner counts. -/
def scanned (ls : List Line) : Line := ls.flatMap withoutComment

/-- With the last of the lines the scanner has seen enough: all braces are closed, and there has been one
or there is a semicolon on this line. -/
def Suffices (ls : List Line) : Prop :=
  braceDepth (scanned ls) ≤ 0 ∧ ('\x7b' ∈ scanned ls ∨ ∃ l ∈ ls.getLast?, ';' ∈ withoutComment l)

instance (ls : List Line) : Decidable (Suffices ls) := inferInstanceAs (Decidable (_ ∧ _))

/-- The first lines that suffice are these, or these are all there are. -/
structure IsTaken (ls more : List Line) : Prop where
  goes : ∀ front, front <+: ls → front ≠ [] → front ≠ ls → ¬Suffices front
  stops : more ≠ [] → Suffices ls

theorem scanned_concat (ls : List Line) (l : Line) :
    scanned (ls ++ [l]) = scanned ls ++ withoutComment l := by
  rw [scanned, List.flatMap_append, List.flatMap_singleton]
  rfl

theorem suffices_concat (ls : List Line) (l : Line) :
    Suffices (ls ++ [l]) ↔ braceDepth (scanned (ls ++ [l])) ≤ 0 ∧
      ((scanned (ls ++ [l])).contains '\x7b' || (withoutComment l).contains ';') = true := by
  simp [Suffices]

/-- The scanner goes on as long as what it has seen does not suffice. -/
theorem constructLines_scanned (seen : List Line) (l : Line) (rest : List Line) :
    constructLines (braceDepth (scanned seen)) ((scanned seen).contains '\x7b') (l :: rest) =
      if Suffices (seen ++ [l]) then [l]
      else l :: constructLines (braceDepth (scanned (seen ++ [l])))
        ((scanned (seen ++ [l])).contains '\x7b') rest := by
  have depth : braceDepth (scanned seen) + ((withoutComment l).count '\x7b' : Int) -
      (withoutComment l).count '\x7d' = braceDepth (scanned (seen ++ [l])) := by
    rw [scanned_concat, braceDepth_append, braceDepth, braceDepth]
    omega
  have opened : ((scanned seen).contains '\x7b' || (withoutComment l).contains '\x7b') =
      (scanned (seen ++ [l])).contains '\x7b' := by
    rw [scanned_concat]
    simp [Bool.decide_or]
  rw [constructLines]
  simp only [depth, opened, suffices_concat, Bool.and_eq_true, decide_eq_true_eq]

/-- The first lines of some are the first one alone, or it and first lines of the others. -/
theorem forall_front_cons {P : List Line → Prop} (l : Line) {ls : List Line} (more : ls ≠ []) :
    (∀ front, front <+: l :: ls → front ≠ [] → front ≠ l :: ls → P front) ↔
      P [l] ∧ ∀ front, front <+: ls → front ≠ [] → front ≠ ls → P (l :: front) := by
  constructor
  · intro all
    have first : [l] <+: l :: ls := List.cons_prefix_cons.mpr ⟨rfl, List.nil_prefix⟩
    refine ⟨all [l] first (List.cons_ne_nil _ _) fun whole => more (List.cons.inj whole).2.symm, ?_⟩
    intro front begins _ other
    exact all (l :: front) (List.cons_prefix_cons.mpr ⟨rfl, begins⟩) (List.cons_ne_nil _ _)
      fun whole => other (List.cons.inj whole).2
  · intro both front begins some other
    obtain ⟨c, front, rfl⟩ := List.exists_cons_of_ne_nil some
    obtain ⟨rfl, begins'⟩ := List.cons_prefix_cons.mp begins
    by_cases void : front = []
    · rw [void]
      exact both.1
    · exact both.2 front begins' void fun whole => other (by rw [whole])

theorem constructLines_eq_nil_iff {depth : Int} {opened : Bool} {ls : List Line} :
    constructLines depth opened ls = [] ↔ ls = [] := by
  cases ls with
  | nil => simp [constructLines]
  | cons l r =>
    obtain ⟨code, rest, same, _⟩ := constructLines_cons depth opened l r
    simp [same]

/-- The lines of the construct are the first that suffice. -/
theorem constructLines_eq_iff (seen : List Line) (l : Line) (ls more : List Line) :
    constructLines (braceDepth (scanned seen)) ((scanned seen).contains '\x7b') (l :: ls ++ more) =
        l :: ls ↔
      (∀ front, front <+: l :: ls → front ≠ [] → front ≠ l :: ls → ¬Suffices (seen ++ front)) ∧
        (more ≠ [] → Suffices (seen ++ l :: ls)) := by
  induction ls generalizing seen l with
  | nil =>
    have only : ∀ front, front <+: [l] → front ≠ [] → front ≠ [l] → ¬Suffices (seen ++ front) := by
      intro front begins some other
      rcases List.prefix_cons_iff.mp begins with void | ⟨r, whole, rest⟩
      · exact absurd void some
      · exact absurd (whole.trans (by rw [List.prefix_nil.mp rest])) other
    rw [List.singleton_append, constructLines_scanned, and_iff_right only]
    split
    · rename_i enough
      exact iff_of_true rfl fun _ => enough
    · rename_i short
      rw [List.cons.injEq, and_iff_right rfl, constructLines_eq_nil_iff]
      exact ⟨fun void some => absurd void some, fun stops => by_contra fun some => short (stops some)⟩
  | cons l' ls ih =>
    have inner := ih (seen ++ [l]) l'
    simp only [List.append_assoc, List.singleton_append] at inner
    rw [List.cons_append, constructLines_scanned, forall_front_cons l (List.cons_ne_nil l' ls)]
    split
    · rename_i enough
      exact iff_of_false (by simp) fun taken => taken.1.1 enough
    · rename_i short
      rw [List.cons.injEq, and_iff_right rfl, and_iff_right short, inner]

theorem constructLines_eq_iff_isTaken {ls : List Line} (some : ls ≠ []) (more : List Line) :
    constructLines 0 false (ls ++ more) = ls ↔ IsTaken ls more := by
  obtain ⟨l, ls, rfl⟩ := List.exists_cons_of_ne_nil some
  exact (constructLines_eq_iff [] l ls more).trans
    ⟨fun taken => ⟨taken.1, taken.2⟩, fun taken => ⟨taken.goes, taken.stops⟩⟩

namespace IsConstruct

variable {ls front back more : List Line} {head body rest : Line}

/-- Above the last line stand the head alone, or the brace that opens the body and some of it. -/
theorem front_cases (construct : IsConstruct (front ++ back) head body rest) (some : front ≠ [])
    (some' : back ≠ []) : Text.unlines (codeOf front) <+: head ∨
      ∃ inner, inner <+: body ∧ Text.unlines (codeOf front) = head ++ '\x7b' :: inner := by
  obtain ⟨later, parts⟩ := Region.code.readLines_append front back
  have nonempty : ∀ (region : Region) {ls : List Line}, ls ≠ [] → region.readLines ls ≠ [] := by
    intro region ls some void
    exact some (List.length_eq_zero_iff.mp (by rw [← region.readLines_length ls, void, List.length_nil]))
  have code := construct.code
  rw [codeOf, parts, Text.unlines_append (nonempty _ some) (nonempty _ some')] at code
  rcases List.append_eq_append_iff.mp code with ⟨r, same, _⟩ | ⟨r, same, below⟩
  · exact .inl ⟨r, same.symm⟩
  · cases r with
    | nil => simp at below
    | cons c r =>
      obtain ⟨rfl, below'⟩ := List.cons.inj below
      rcases List.append_eq_append_iff.mp below' with ⟨r', rfl, end'⟩ | ⟨r', inner, _⟩
      · -- the line end would stand behind the body
        refine absurd ?_ construct.last
        cases r' with
        | nil => simp at end'
        | cons c r' => simp [(List.cons.inj end').2]
      · exact .inr ⟨r, ⟨r', inner.symm⟩, same⟩

/-- The head holds no brace. -/
theorem braceDepth_head (construct : IsConstruct ls head body rest) (quiet : IsQuiet ls head rest) :
    braceDepth head = 0 := braceDepth_of_plain construct.unopened quiet.front

end IsConstruct

namespace IsQuiet

variable {ls front back more : List Line} {head body rest : Line}

theorem zip_codeOf_begins (front back : List Line) :
    front.zip (codeOf front) <+: (front ++ back).zip (codeOf (front ++ back)) := by
  obtain ⟨later, parts⟩ := Region.code.readLines_append front back
  rw [codeOf, codeOf, parts, List.zip_append (Region.readLines_length _ front).symm]
  exact List.prefix_append _ _

/-- Counts that agree on each line agree on all. -/
theorem braceDepth_scanned_zip {codes : List Line} (same : ls.length = codes.length)
    (each : ∀ l ∈ ls.zip codes, braceDepth (withoutComment l.1) = braceDepth l.2) :
    braceDepth (scanned ls) = braceDepth codes.flatten := by
  induction ls generalizing codes with
  | nil =>
    rw [List.length_eq_zero_iff.mp same.symm]
    rfl
  | cons l ls ih =>
    have some : 0 < codes.length := by
      rw [← same]
      exact Nat.succ_pos _
    obtain ⟨code, codes, rfl⟩ := List.exists_cons_of_length_pos some
    obtain ⟨here, later⟩ := List.forall_mem_cons.mp each
    rw [scanned, List.flatMap_cons, List.flatten_cons, braceDepth_append, braceDepth_append, here]
    exact congrArg (braceDepth code + ·) (ih (Nat.succ.inj same) later)

/-- In the first lines the scanner counts the braces of the code. -/
theorem braceDepth_scanned (quiet : IsQuiet (front ++ back) head rest) :
    braceDepth (scanned front) = braceDepth (Text.unlines (codeOf front)) := by
  have each : ∀ l ∈ front.zip (codeOf front), braceDepth (withoutComment l.1) = braceDepth l.2 :=
    fun l member => quiet.nested l ((zip_codeOf_begins front back).subset member)
  rw [braceDepth_unlines]
  exact braceDepth_scanned_zip (Region.readLines_length _ front).symm each

/-- Above the line that opens the body the scanner sees neither a brace that opens nor a semicolon. -/
theorem above_of_head (quiet : IsQuiet (front ++ back) head rest)
    (unopened : '\x7b' ∉ Text.unlines (codeOf front)) :
    ∀ l ∈ front, '\x7b' ∉ withoutComment l ∧ ';' ∉ withoutComment l := by
  intro l member
  have unopened' : ∀ l ∈ front.zip (codeOf front), (!l.2.contains '\x7b') = true := by
    intro l inside
    simpa using fun opened => unopened (Text.mem_unlines (List.of_mem_zip inside).2 opened)
  obtain ⟨more, parts⟩ := zip_codeOf_begins front back
  have same : (codeOf front).length = front.length := Region.readLines_length _ front
  have fronts : (front.zip (codeOf front)).map Prod.fst = front := List.map_fst_zip (Nat.le_of_eq same.symm)
  rw [← fronts] at member
  obtain ⟨l, inside, rfl⟩ := List.mem_map.mp member
  refine quiet.above l ?_
  rw [← parts, List.takeWhile_append_of_pos unopened']
  exact List.mem_append_left _ inside

/-- Of a quiet construct the scanner takes all lines and no more. -/
theorem isTaken (quiet : IsQuiet ls head rest) (construct : IsConstruct ls head body rest)
    (more : List Line) : IsTaken ls more where
  goes front begins some other enough := by
    obtain ⟨back, rfl⟩ := begins
    have some' : back ≠ [] := fun void => other (by rw [void, List.append_nil])
    have depth := quiet.braceDepth_scanned
    rcases construct.front_cases some some' with inside | ⟨inner, begins, text⟩
    · have above := quiet.above_of_head fun opened => construct.unopened (inside.subset opened)
      rcases enough.2 with opened | ⟨l, last, ends⟩
      · obtain ⟨l, member, opened⟩ := List.mem_flatMap.mp opened
        exact (above l member).1 opened
      · exact (above l (List.mem_of_getLast? last)).2 ends
    · -- the body is open here
      have deep := construct.balanced.1 inner begins
      have closed := enough.1
      rw [depth, text, braceDepth_append, braceDepth_open, construct.braceDepth_head quiet] at closed
      omega
  stops _ := by
    obtain ⟨l, member, opened⟩ := quiet.opens
    have whole : IsQuiet (ls ++ []) head rest := by rwa [List.append_nil]
    have depth := whole.braceDepth_scanned
    rw [construct.code, braceDepth_append, braceDepth_open, braceDepth_append, braceDepth_close,
      construct.braceDepth_head quiet, construct.balanced.2] at depth
    have behind := quiet.behind
    exact ⟨by omega, .inl (List.mem_flatMap.mpr ⟨l, member, opened⟩)⟩

end IsQuiet

/-- The comment goes on to the first line of another kind. -/
theorem readLines_run (first : Line) {run rest : List Line}
    (lines : ∀ l ∈ run, commentStyle? l = some .lines)
    (stop : ∀ l ∈ rest.head?, commentStyle? l ≠ some .lines) :
    readLines first (run ++ rest) = ⟨(first :: run).map dropMarker, run.length⟩ := by
  have marked : ∀ l ∈ run, (commentStyle? l == some .lines) = true := by simpa using lines
  have taken : (run ++ rest).takeWhile (commentStyle? · == some .lines) = run := by
    rw [List.takeWhile_append_of_pos marked]
    cases rest with
    | nil => simp
    | cons l rest => rw [List.takeWhile_cons_of_neg (by simpa using stop l rfl), List.append_nil]
  simp only [readLines, taken]

theorem commentStyle?_ne_lines_of_plain {line : Line} (plain : ¬OpensComment line) :
    commentStyle? line ≠ some .lines := by
  refine commentStyle?_ne_lines fun marked => plain (.inl ?_)
  have slashes : ['/', '/'] <+: lineMarker := by decide
  exact List.isPrefixOf_iff_prefix.mpr (slashes.trans (List.isPrefixOf_iff_prefix.mp marked))

/-- Below a comment of marked lines at the beginning of a source stands its code, from the next line on. -/
theorem scanBlocks_below {text : String} {marked ls : List Line}
    (source : sourceLines text = marked ++ ls) (marks : marked ≠ [])
    (lines : ∀ l ∈ marked, commentStyle? l = some .lines)
    (begins : ∃ line ∈ ls.head?, Text.allBlank line = false ∧ ¬OpensComment line) :
    ∃ b, scanBlocks text = b :: scanLines (marked.length + 1) ls ∧ b.commentStart = 1 ∧
      b.codeStart = some (marked.length + 1 : Nat) ∧
      b.code = String.ofList (Text.unlines (constructLines 0 false ls)) := by
  obtain ⟨l, first, solid, plain⟩ := begins
  obtain ⟨ls, rfl⟩ : ∃ tail, ls = l :: tail := ⟨_, (List.head?_eq_some_iff.mp first).choose_spec⟩
  obtain ⟨top, run, rfl⟩ := List.exists_cons_of_ne_nil marks
  obtain ⟨opens, lines⟩ := List.forall_mem_cons.mp lines
  have stop : ∀ l' ∈ (l :: ls).head?, commentStyle? l' ≠ some .lines := by
    rintro _ ⟨⟩
    exact commentStyle?_ne_lines_of_plain plain
  have read := readLines_run top lines stop
  have follows : constructAfter? (l :: ls) = some (0, constructLines 0 false (l :: ls)) := by
    have plain' : (Text.startsWith ['/', '/'] (Text.trimLeft l) ||
        Text.startsWith ['/', '*'] (Text.trimLeft l)) = false := by
      simpa [OpensComment] using plain
    simp only [constructAfter?, List.dropWhile_cons_of_neg (Bool.eq_false_iff.mp solid),
      List.takeWhile_cons_of_neg (Bool.eq_false_iff.mp solid), plain', Bool.false_eq_true, if_false]
    rfl
  have next : 1 + 1 + run.length = (top :: run).length + 1 := by
    rw [List.length_cons]
    omega
  have scanned : scanBlocks text = _ :: _ :=
    (congrArg (scanLines 1) source).trans (scanLines_comment opens (by rintro ⟨⟩) read)
  rw [next] at scanned
  refine ⟨_, scanned, ?_, ?_, ?_⟩
  · exact Block.commentStart_withCode _ _ _
  · rw [Block.withCode, follows]
    rfl
  · rw [Block.withCode, follows]

/-- The construct below a comment of marked lines. The block takes code from the line below the comment, and
its code is the construct exactly when the lines of the construct are the first that suffice. This is so
when the construct is quiet. -/
theorem scanBlocks_construct {text : String} {marked ls more : List Line} {head body rest : Line}
    (source : sourceLines text = marked ++ (ls ++ more)) (marks : marked ≠ [])
    (lines : ∀ l ∈ marked, commentStyle? l = some .lines) (construct : IsConstruct ls head body rest) :
    ∃ b bs, scanBlocks text = b :: bs ∧ b.commentStart = 1 ∧ b.codeStart = some (marked.length + 1 : Nat) ∧
      (b.code = String.ofList (Text.unlines ls) ↔ IsTaken ls more) ∧
      (IsQuiet ls head rest → b.code = String.ofList (Text.unlines ls)) := by
  obtain ⟨l, first, solid, plain⟩ := construct.begins
  obtain ⟨tail, rfl⟩ : ∃ tail, ls = l :: tail := ⟨_, (List.head?_eq_some_iff.mp first).choose_spec⟩
  obtain ⟨b, scanned, start, codeStart, code⟩ := scanBlocks_below source marks lines ⟨l, rfl, solid, plain⟩
  have single : ∀ l' ∈ l :: (tail ++ more), '\n' ∉ l' := fun l' member =>
    Text.single_of_mem_lines (source ▸ List.mem_append_right _ member : l' ∈ sourceLines text)
  have captured : b.code = String.ofList (Text.unlines (l :: tail)) ↔ IsTaken (l :: tail) more := by
    obtain ⟨code', more', taken, parts⟩ := constructLines_cons 0 false l (tail ++ more)
    have whole : l :: (tail ++ more) = l :: code' ++ more' := congrArg (l :: ·) parts
    rw [code, String.ofList_inj, ← constructLines_eq_iff_isTaken (List.cons_ne_nil l tail)]
    refine ⟨Text.unlines_injective ?_ (List.cons_ne_nil _ _) (fun l' member => ?_) fun l' member => ?_,
      congrArg Text.unlines⟩
    · rw [List.cons_append, taken]
      exact List.cons_ne_nil _ _
    · rw [List.cons_append, taken] at member
      exact single l' (whole ▸ List.mem_append_left _ member)
    · exact single l' (List.mem_append_left more member)
  exact ⟨b, _, scanned, start, codeStart, captured,
    fun quiet => captured.mpr (quiet.isTaken construct more)⟩

/-- A construct with braces and semicolons in strings and comments, and with an address. -/
def dressed : List Line :=
  ["@mixin m($a: \"/\") /* a".toList, "  b */".toList, "\x7b // a \x7d and a ;".toList,
    "  c: url(http://d.e/f) /* \x7b; \x7d */; content: \"\\\"#\x7b$a\x7d;\";".toList, "\x7d // \x7b".toList]

def dressedText : String :=
  "/// Text\n///\n@mixin m($a: \"/\") /* a\n  b */\n\x7b // a \x7d and a ;\n" ++
    "  c: url(http://d.e/f) /* \x7b; \x7d */; content: \"\\\"#\x7b$a\x7d;\";\n\x7d // \x7b\n$g: 1;"

theorem scanBlocks_construct_dressed :
    sourceLines dressedText = ["/// Text".toList, "///".toList] ++ (dressed ++ ["$g: 1;".toList]) ∧
      IsConstruct dressed "@mixin m($a: ) \n\n".toList " \n  c: url(http://d.e/f) ; content: ;\n".toList
        " ".toList ∧
      IsQuiet dressed "@mixin m($a: ) \n\n".toList " ".toList ∧
      ∃ b bs, scanBlocks dressedText = b :: bs ∧ b.code = String.ofList (Text.unlines dressed) := by
  have source : sourceLines dressedText =
      ["/// Text".toList, "///".toList] ++ (dressed ++ ["$g: 1;".toList]) := by
    unfold sourceLines dressedText
    rw [String.toList_append, String.toList_ofList, String.toList_ofList]
    decide +kernel
  have construct : IsConstruct dressed "@mixin m($a: ) \n\n".toList
      " \n  c: url(http://d.e/f) ; content: ;\n".toList " ".toList :=
    ⟨by decide +kernel, by decide +kernel, by decide, by decide, by decide +kernel, by decide⟩
  have quiet : IsQuiet dressed "@mixin m($a: ) \n\n".toList " ".toList :=
    ⟨by decide +kernel, by decide +kernel, by decide +kernel, by decide, by decide⟩
  obtain ⟨b, bs, scanned, _, _, _, taken⟩ :=
    scanBlocks_construct source (List.cons_ne_nil _ _) (by decide +kernel) construct
  exact ⟨source, construct, quiet, b, bs, scanned, taken quiet⟩

/-- A body with a brace in a string. -/
def braced : List Line :=
  ["@mixin a \x7b".toList, "  content: \"\x7d\";".toList, "  b: c;".toList, "\x7d".toList]

def bracedText : String := "/// x\n@mixin a \x7b\n  content: \"\x7d\";\n  b: c;\n\x7d"

/-- The brace in the string closes the body. -/
theorem not_taken_braced :
    sourceLines bracedText = ["/// x".toList] ++ braced ∧
      IsConstruct braced "@mixin a ".toList "\n  content: ;\n  b: c;\n".toList [] ∧
      (scanBlocks bracedText).map Block.code = ["@mixin a \x7b\n  content: \"\x7d\";"] ∧
      ∀ b ∈ scanBlocks bracedText, b.code ≠ String.ofList (Text.unlines braced) := by
  have codes : (scanBlocks bracedText).map Block.code = ["@mixin a \x7b\n  content: \"\x7d\";"] := by
    decide +kernel
  refine ⟨by decide +kernel, ⟨by decide +kernel, by decide +kernel, by decide, by decide,
    by decide +kernel, List.not_mem_nil⟩, codes, fun b member same => ?_⟩
  have listed := List.mem_map_of_mem (f := Block.code) member
  rw [codes, List.mem_singleton, same] at listed
  revert listed
  decide +kernel

end SheetDoc
