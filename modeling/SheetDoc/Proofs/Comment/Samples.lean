import Mathlib.Data.List.DropRight
import SheetDoc.Extraction
import SheetDoc.Proofs.Comment.Indent
import SheetDoc.Proofs.Text.Names

namespace SheetDoc

namespace Text

/-- A line of indentation alone is emptied. -/
def emptied (l : List Char) : List Char := if l.all isIndent then [] else l

theorem isBlank_of_isIndent {c : Char} (indent : isIndent c = true) : isBlank c = true := by
  simp only [isIndent, Bool.or_eq_true, beq_iff_eq] at indent
  rcases indent with rfl | rfl <;> decide

theorem all_isIndent_of_text {l : List Char} (text : allBlank l = false) : l.all isIndent = false := by
  refine Bool.eq_false_iff.mpr fun indent => ?_
  have blank : allBlank l = true := List.all_eq_true.mpr fun c member =>
    isBlank_of_isIndent (List.all_eq_true.mp indent c member)
  rw [blank] at text
  cases text

theorem margin_eq_nil {ls : List (List Char)}
    (apart : ∀ c, isIndent c = true → ∃ l ∈ ls, l.all isIndent = false ∧ l.head? ≠ some c) :
    margin ls = [] := by
  cases same : margin ls with
  | nil => rfl
  | cons c m =>
    obtain ⟨l, member, text, _⟩ := apart ' ' rfl
    have begins : [c] <+: margin ls := by
      rw [same]
      exact List.cons_prefix_cons.mpr ⟨rfl, List.nil_prefix⟩
    obtain ⟨indent, all⟩ := (prefix_margin_iff ⟨l, member, text⟩).mp begins
    obtain ⟨l', member', text', other⟩ := apart c (by simpa using indent)
    obtain ⟨r, rfl⟩ := all l' member' text'
    exact absurd rfl other

/-- Where the lines share no indentation, only lines of indentation alone change. -/
theorem dedent_of_apart {ls : List (List Char)}
    (apart : ∀ c, isIndent c = true → ∃ l ∈ ls, l.all isIndent = false ∧ l.head? ≠ some c) :
    dedent ls = ls.map emptied := by
  simp only [dedent, margin_eq_nil apart]
  rfl

theorem allBlank_unlines (ls : List (List Char)) : allBlank (unlines ls) = ls.all allBlank := by
  cases ls with
  | nil => rfl
  | cons l rest =>
    have blank : isBlank '\n' = true := by decide
    rw [unlines_cons_below, allBlank, List.all_append, below, List.all_flatMap, List.all_cons]
    simp only [List.all_cons, blank, Bool.true_and]
    rfl

theorem allBlank_append (s t : List Char) : allBlank (s ++ t) = (allBlank s && allBlank t) :=
  List.all_append

theorem allBlank_trimRight (s : List Char) : allBlank (trimRight s) = allBlank s := by
  obtain ⟨a, blank, same⟩ := exists_trimRight s
  conv_rhs => rw [same, allBlank_append, blank, Bool.and_true]

theorem head?_trimRight {s : List Char} (some : trimRight s ≠ []) : (trimRight s).head? = s.head? := by
  obtain ⟨a, _, same⟩ := exists_trimRight s
  conv_rhs => rw [same, List.head?_append_of_ne_nil _ some]

theorem trimRight_append_trimRight (s t : List Char) : trimRight (s ++ trimRight t) = trimRight (s ++ t) := by
  obtain ⟨a, blank, same⟩ := exists_trimRight t
  conv_rhs => rw [same, ← List.append_assoc, trimRight_append _ blank]

/-- What stands above a line of blanks is trimmed with it, and a line with text by itself. -/
theorem trimRight_line (s l : List Char) : trimRight (s ++ '\n' :: l) =
    if trimRight l = [] then trimRight s else s ++ '\n' :: trimRight l := by
  split_ifs with void
  · have blank : allBlank ('\n' :: l) = true := by
      rw [allBlank, List.all_cons]
      exact Bool.and_eq_true_iff.mpr ⟨by decide, trimRight_eq_nil_iff.mp void⟩
    exact trimRight_append s blank
  · have text : allBlank l = false := Bool.eq_false_iff.mpr fun blank => void (trimRight_eq_nil_iff.mpr blank)
    have whole := trimRight_append_of_text (s ++ ['\n']) text
    simpa using whole

end Text

def isTagged (l : Line) : Bool := (tagLine? l).isSome

/-- A line as it is put back. -/
def laid (l : Line) : Line :=
  match tagLine? l with
  | some (tag, first) => '@' :: (tag ++ ' ' :: first)
  | none => l

theorem isBlank_of_isLetter {c : Char} (letter : isLetter c = true) : Text.isBlank c = false := by
  have cases : c.isUpper = true ∨ c.isLower = true := Bool.or_eq_true_iff.mp letter
  have range : 65 ≤ c.toNat ∧ c.toNat ≤ 90 ∨ 97 ≤ c.toNat ∧ c.toNat ≤ 122 := by
    rcases cases with upper | lower
    · exact .inl (of_decide_eq_true upper)
    · obtain ⟨least, most⟩ := Bool.and_eq_true_iff.mp lower
      exact .inr ⟨of_decide_eq_true least, of_decide_eq_true most⟩
  refine Bool.eq_false_iff.mpr fun blank => ?_
  simp only [Text.isBlank, Bool.or_eq_true, Bool.and_eq_true, decide_eq_true_eq, beq_iff_eq] at blank
  omega

section

variable {l : Line}

/-- A tag is put back as it was split off, but for what stands behind its word. -/
theorem laid_eq : isTagged l = false ∧ laid l = l ∨ isTagged l = true ∧ ∃ c r, isLetter c = true ∧
    l = '@' :: c :: r ∧ laid l = '@' :: c :: (r.takeWhile Text.isNameChar ++
      ' ' :: Text.trimLeft (r.dropWhile Text.isNameChar)) := by
  unfold isTagged laid tagLine?
  split
  · rename_i c r
    by_cases letter : isLetter c = true
    · simp [letter]
    · simp [letter]
  · exact .inl ⟨rfl, rfl⟩

theorem laid_of_plain (plain : isTagged l = false) : laid l = l := by
  rcases laid_eq (l := l) with ⟨_, same⟩ | ⟨tagged, _⟩
  · exact same
  · rw [plain] at tagged
    cases tagged

theorem isTagged_cons {c : Char} (letter : isLetter c = true) (r : Line) : isTagged ('@' :: c :: r) = true := by
  simp [isTagged, tagLine?, letter]

theorem isTagged_laid (l : Line) : isTagged (laid l) = isTagged l := by
  rcases laid_eq (l := l) with ⟨_, same⟩ | ⟨tagged, c, r, letter, rfl, same⟩
  · rw [same]
  · rw [same, isTagged_cons letter, isTagged_cons letter]

theorem isTagged_trimRight (l : Line) : isTagged (Text.trimRight l) = isTagged l := by
  rcases laid_eq (l := l) with ⟨plain, _⟩ | ⟨tagged, c, r, letter, rfl, _⟩
  · rcases laid_eq (l := Text.trimRight l) with ⟨plain', _⟩ | ⟨tagged, c, r, letter, same, _⟩
    · rw [plain, plain']
    · -- a text begins with what is left of it when it is trimmed
      obtain ⟨t, whole⟩ := Text.trimRight_begins l
      rw [same] at whole
      rw [← whole] at plain
      exact absurd (isTagged_cons letter (r ++ t)) (by simpa using plain)
  · rw [Text.trimRight_cons_of_text (by decide), Text.trimRight_cons_of_text (isBlank_of_isLetter letter),
      isTagged_cons letter, isTagged_cons letter]

theorem allBlank_of_isTagged (tagged : isTagged l = true) : Text.allBlank l = false := by
  rcases laid_eq (l := l) with ⟨plain, _⟩ | ⟨_, c, r, _, rfl, _⟩
  · rw [plain] at tagged
    cases tagged
  · rfl

theorem trimRight_laid (tagged : isTagged l = true) : Text.trimRight (laid l) ≠ [] := fun void => by
  rw [← isTagged_laid, ← isTagged_trimRight, void] at tagged
  cases tagged

theorem head?_laid (l : Line) : (laid l).head? = l.head? := by
  rcases laid_eq (l := l) with ⟨_, same⟩ | ⟨_, c, r, _, rfl, same⟩ <;> rw [same]
  rfl

theorem allBlank_laid (l : Line) : Text.allBlank (laid l) = Text.allBlank l := by
  rcases laid_eq (l := l) with ⟨_, same⟩ | ⟨_, c, r, _, rfl, same⟩ <;> rw [same]
  rfl

theorem trimRight_laid_eq_nil_iff : Text.trimRight (laid l) = [] ↔ Text.trimRight l = [] := by
  rw [Text.trimRight_eq_nil_iff, Text.trimRight_eq_nil_iff, allBlank_laid]

theorem not_mem_laid {d : Char} (absent : d ∉ l) (other : d ≠ ' ') : d ∉ laid l := by
  rcases laid_eq (l := l) with ⟨_, same⟩ | ⟨_, c, r, _, rfl, same⟩
  · rwa [same]
  · obtain ⟨sign, letter, rest⟩ : d ≠ '@' ∧ d ≠ c ∧ d ∉ r := by simpa using absent
    have front : d ∉ r.takeWhile Text.isNameChar := fun inside =>
      rest ((List.takeWhile_sublist _).subset inside)
    have back : d ∉ Text.trimLeft (r.dropWhile Text.isNameChar) := fun inside =>
      rest ((List.dropWhile_sublist _).subset ((List.dropWhile_sublist _).subset inside))
    simp [same, sign, letter, front, other, back]

end

/-- Whether blanks above some lines go: those above a tag, and those at the end. -/
def breaksOff : List Line → Bool
  | [] => true
  | l :: _ => isTagged l

/-- The lines of code as they are kept. -/
def keptLines : List Line → List Line
  | [] => []
  | l :: rest =>
    if breaksOff (keptLines rest) then
      if Text.trimRight (laid l) = [] then keptLines rest else Text.trimRight (laid l) :: keptLines rest
    else laid l :: keptLines rest

/-- A text with the lines below it put back. -/
def onto (above : List Char) (ls : List Line) : List Char :=
  (if breaksOff ls then Text.trimRight above else above) ++ Text.below ls

/-- A line is put back like those below it. -/
theorem onto_keptLines (above : List Char) (l : Line) (rest : List Line) :
    onto ((if isTagged l then Text.trimRight above else above) ++ '\n' :: laid l) (keptLines rest) =
      onto above (keptLines (l :: rest)) := by
  rw [keptLines]
  by_cases breaks : breaksOff (keptLines rest) = true
  · rw [if_pos breaks, onto, if_pos breaks, Text.trimRight_line]
    by_cases void : Text.trimRight (laid l) = []
    · have plain : isTagged l = false := Bool.eq_false_iff.mpr fun tagged => trimRight_laid tagged void
      rw [if_pos void, if_pos void, plain, onto, if_pos breaks]
      rfl
    · have tagged : breaksOff (Text.trimRight (laid l) :: keptLines rest) = isTagged l := by
        rw [breaksOff, isTagged_trimRight, isTagged_laid]
      rw [if_neg void, if_neg void, onto, tagged, List.append_assoc]
      rfl
  · have tagged : breaksOff (laid l :: keptLines rest) = isTagged l := isTagged_laid l
    rw [if_neg breaks, onto, if_neg breaks, onto, tagged, List.append_assoc]
    rfl

theorem exists_onto_keptLines (above : List Char) (ls : List Line) :
    ∃ s, onto above (keptLines ls) = Text.trimRight s := by
  induction ls generalizing above with
  | nil => exact ⟨above, List.append_nil _⟩
  | cons l rest ih =>
    obtain ⟨s, same⟩ := ih ((if isTagged l then Text.trimRight above else above) ++ '\n' :: laid l)
    exact ⟨s, (onto_keptLines above l rest).symm.trans same⟩

/-- Behind an example whatever no tag answers to is put back. -/
theorem foldExamplesFrom_splitTags {g : Registry} (sample : g.canonical? "example" = some "example")
    {ls : List Line} (unregistered : ∀ l ∈ ls, ∀ tag first, tagLine? l = some (tag, first) →
      g.has (String.ofList tag) = false) (above : List Char) (n offset : Nat) :
    Extractor.foldExamplesFrom g
        ⟨"example", String.ofList (Text.trimRight (above ++ Text.below (splitTags n ls).1)), offset⟩
        (splitTags n ls).2 =
      [⟨"example", String.ofList (onto above (keptLines ls)), offset⟩] := by
  induction ls generalizing above n with
  | nil =>
    rw [splitTags, Extractor.foldExamplesFrom, keptLines, onto, Text.below, List.flatMap_nil, List.append_nil,
      List.append_nil]
    rfl
  | cons l rest ih =>
    obtain ⟨here, later⟩ := List.forall_mem_cons.mp unregistered
    rw [← onto_keptLines]
    cases found : tagLine? l with
    | none =>
      have plain : isTagged l = false := by rw [isTagged, found]; rfl
      have next := ih later (above ++ '\n' :: l) (n + 1)
      rw [plain, laid_of_plain plain]
      simp only [splitTags, found]
      rw [List.append_assoc] at next
      exact next
    | some parts =>
      obtain ⟨tag, first⟩ := parts
      have tagged : isTagged l = true := by rw [isTagged, found]; rfl
      have laid : laid l = '@' :: (tag ++ ' ' :: first) := by rw [SheetDoc.laid, found]
      have next := ih later (Text.trimRight above ++ '\n' :: SheetDoc.laid l) (n + 1)
      rw [tagged, if_pos rfl, ← next]
      simp only [splitTags, found]
      rw [Extractor.foldExamplesFrom, here tag first found, sample]
      have code : Text.trimRight (Text.trimRight above ++ '\n' :: '@' :: tag ++
          ' ' :: Text.trimRight (Text.unlines (first :: (splitTags (n + 1) rest).1))) =
          Text.trimRight (Text.trimRight above ++ '\n' :: SheetDoc.laid l ++
            Text.below (splitTags (n + 1) rest).1) := by
        rw [laid, Text.unlines_cons_below]
        have glued := Text.trimRight_append_trimRight (Text.trimRight above ++ '\n' :: '@' :: (tag ++ [' ']))
          (first ++ Text.below (splitTags (n + 1) rest).1)
        simpa using glued
      have empty : Text.below [] = [] := rfl
      simp only [empty, List.append_nil, String.toList_ofList, code]
      rfl

section

variable {ls : List Line} {l : Line}

theorem mem_keptLines (member : l ∈ keptLines ls) :
    ∃ l' ∈ ls, l = laid l' ∨ l = Text.trimRight (laid l') ∧ l ≠ [] := by
  induction ls with
  | nil => cases member
  | cons l' rest ih =>
    have later : l ∈ keptLines rest → ∃ l'' ∈ l' :: rest,
        l = laid l'' ∨ l = Text.trimRight (laid l'') ∧ l ≠ [] := fun inside => by
      obtain ⟨l'', member, same⟩ := ih inside
      exact ⟨l'', List.mem_cons_of_mem l' member, same⟩
    rw [keptLines] at member
    split_ifs at member with _ void
    · exact later member
    · rcases List.mem_cons.mp member with rfl | inside
      · exact ⟨l', List.mem_cons_self, .inr ⟨rfl, void⟩⟩
      · exact later inside
    · rcases List.mem_cons.mp member with rfl | inside
      · exact ⟨l', List.mem_cons_self, .inl rfl⟩
      · exact later inside

/-- A line with text stays, with what it begins with. -/
theorem exists_keptLines (member : l ∈ ls) (text : Text.allBlank l = false) :
    ∃ l' ∈ keptLines ls, Text.allBlank l' = false ∧ l'.head? = l.head? := by
  induction ls with
  | nil => cases member
  | cons l' rest ih =>
    rw [keptLines]
    rcases List.mem_cons.mp member with rfl | inside
    · have solid : Text.allBlank (laid l) = false := (allBlank_laid l).trans text
      have some : Text.trimRight (laid l) ≠ [] := fun void => by
        rw [Text.trimRight_eq_nil_iff.mp void] at solid
        cases solid
      rw [if_neg some]
      split_ifs
      · exact ⟨_, List.mem_cons_self, (Text.allBlank_trimRight _).trans solid,
          (Text.head?_trimRight some).trans (head?_laid l)⟩
      · exact ⟨_, List.mem_cons_self, solid, head?_laid l⟩
    · obtain ⟨k, kept, same⟩ := ih inside
      split_ifs
      · exact ⟨k, kept, same⟩
      · exact ⟨k, List.mem_cons_of_mem _ kept, same⟩
      · exact ⟨k, List.mem_cons_of_mem _ kept, same⟩

theorem keptLines_eq_nil_iff : keptLines ls = [] ↔ ls.all Text.allBlank = true := by
  constructor
  · intro void
    refine List.all_eq_true.mpr fun l member => ?_
    by_contra text
    obtain ⟨k, inside, _⟩ := exists_keptLines member (Bool.eq_false_iff.mpr text)
    rw [void] at inside
    cases inside
  · intro blank
    induction ls with
    | nil => rfl
    | cons l rest ih =>
      obtain ⟨here, later⟩ := Bool.and_eq_true_iff.mp blank
      have void : Text.trimRight (laid l) = [] :=
        Text.trimRight_eq_nil_iff.mpr ((allBlank_laid l).trans here)
      have breaks : breaksOff [] = true := rfl
      rw [keptLines, ih later, if_pos breaks, if_pos void]

theorem not_mem_keptLines (single : ∀ l ∈ ls, '\n' ∉ l) : ∀ l ∈ keptLines ls, '\n' ∉ l := by
  intro l member
  obtain ⟨l', inside, rfl | ⟨rfl, _⟩⟩ := mem_keptLines member
  · exact not_mem_laid (single l' inside) (by decide)
  · exact fun break' => not_mem_laid (single l' inside) (by decide)
      ((Text.trimRight_begins _).subset break')

/-- No line that is kept can be emptied any more. -/
theorem emptied_of_mem_keptLines (emptied : ∀ l ∈ ls, Text.emptied l = l) (member : l ∈ keptLines ls) :
    Text.emptied l = l := by
  obtain ⟨l', inside, laid | ⟨trimmed, some⟩⟩ := mem_keptLines member
  · rcases laid_eq (l := l') with ⟨_, same⟩ | ⟨_, c, r, _, _, same⟩
    · rw [laid, same]
      exact emptied l' inside
    · rw [laid, same]
      rfl
  · have text : Text.allBlank l = false := by
      rw [trimmed, Text.allBlank_trimRight]
      exact Bool.eq_false_iff.mpr fun blank => some (trimmed.trans (Text.trimRight_eq_nil_iff.mpr blank))
    exact if_neg (Bool.eq_false_iff.mp (Text.all_isIndent_of_text text))

/-- Empty lines at the start are none that anything is put back behind. -/
theorem dropWhile_keptLines (ls : List Line) :
    (keptLines ls).dropWhile List.isEmpty = keptLines (ls.dropWhile List.isEmpty) := by
  induction ls with
  | nil => rfl
  | cons l rest ih =>
    by_cases void : l = []
    · subst void
      rw [List.dropWhile_cons_of_pos rfl, ← ih, keptLines]
      split_ifs with breaks empty
      · rfl
      · exact absurd rfl empty
      · exact List.dropWhile_cons_of_pos rfl
    · have first : ∀ k ∈ (keptLines (l :: rest)).head?, k ≠ [] := by
        rw [keptLines]
        split_ifs with breaks empty
        · cases below : keptLines rest with
          | nil => nofun
          | cons k more =>
            rintro _ ⟨⟩ rfl
            rw [below] at breaks
            cases breaks
        · rintro _ ⟨⟩
          exact empty
        · rintro _ ⟨⟩ void'
          have head := head?_laid l
          rw [void'] at head
          exact void (List.head?_eq_none_iff.mp head.symm)
      rw [List.dropWhile_cons_of_neg (by simpa using void)]
      cases same : keptLines (l :: rest) with
      | nil => rfl
      | cons k more => exact List.dropWhile_cons_of_neg (by simpa using first k (by rw [same]; rfl))

end

/-- The lines up to the last text, with the blanks behind it taken off. -/
def trimmedEnd : List Line → List Line
  | [] => []
  | l :: rest =>
    if trimmedEnd rest = [] then if Text.trimRight l = [] then [] else [Text.trimRight l]
    else l :: trimmedEnd rest

/-- Whether the lines are laid out as tags are put back: one space behind the word of a tag, and text up
to the end of the line above it. -/
def IsVerbatim : List Line → Prop
  | [] => True
  | l :: rest => IsVerbatim rest ∧
    if rest.all Text.allBlank then Text.trimRight (laid l) = Text.trimRight l
    else if breaksOff rest then l ≠ [] ∧ Text.trimRight (laid l) = l
    else laid l = l

instance decidableIsVerbatim : (ls : List Line) → Decidable (IsVerbatim ls)
  | [] => isTrue trivial
  | l :: rest =>
    have := decidableIsVerbatim rest
    inferInstanceAs (Decidable (IsVerbatim rest ∧
      if rest.all Text.allBlank then Text.trimRight (laid l) = Text.trimRight l
      else if breaksOff rest then l ≠ [] ∧ Text.trimRight (laid l) = l
      else laid l = l))

section

variable {ls : List Line}

theorem trimmedEnd_eq_nil_iff : trimmedEnd ls = [] ↔ ls.all Text.allBlank = true := by
  induction ls with
  | nil => exact iff_of_true rfl rfl
  | cons l rest ih =>
    rw [trimmedEnd, List.all_cons, Bool.and_eq_true_iff, ← ih, ← Text.trimRight_eq_nil_iff]
    by_cases void : trimmedEnd rest = []
    · by_cases blank : Text.trimRight l = [] <;> simp [void, blank]
    · simp [void]

theorem trimRight_below (above : List Char) (ls : List Line) : Text.trimRight (above ++ Text.below ls) =
    if trimmedEnd ls = [] then Text.trimRight above else above ++ Text.below (trimmedEnd ls) := by
  induction ls generalizing above with
  | nil => exact congrArg Text.trimRight (List.append_nil above)
  | cons l rest ih =>
    have split : above ++ Text.below (l :: rest) = above ++ '\n' :: l ++ Text.below rest := by
      rw [List.append_assoc]
      rfl
    rw [split, ih, trimmedEnd]
    by_cases void : trimmedEnd rest = []
    · rw [if_pos void, if_pos void, Text.trimRight_line]
      by_cases blank : Text.trimRight l = []
      · rw [if_pos blank, if_pos blank, if_pos rfl]
      · rw [if_neg blank, if_neg blank, if_neg (List.cons_ne_nil _ _), Text.below, List.flatMap_singleton]
    · rw [if_neg void, if_neg void, if_neg (List.cons_ne_nil _ _), List.append_assoc]
      rfl

/-- The text of the lines, trimmed, is that of the lines up to the last text. -/
theorem trimRight_unlines (text : ls.all Text.allBlank = false) :
    Text.trimRight (Text.unlines ls) = Text.unlines (trimmedEnd ls) := by
  have some : trimmedEnd ls ≠ [] := fun void => by
    rw [trimmedEnd_eq_nil_iff.mp void] at text
    cases text
  have nonempty : ls ≠ [] := by
    rintro rfl
    exact some rfl
  have whole := trimRight_below [] ls
  rw [if_neg some, Text.below_eq nonempty, Text.below_eq some, Text.trimRight_line] at whole
  split_ifs at whole
  · cases whole
  · exact (List.cons.inj whole).2

theorem keptLines_of_blank {rest : List Line} (blank : rest.all Text.allBlank = true) (l : Line) :
    keptLines (l :: rest) = if Text.trimRight (laid l) = [] then [] else [Text.trimRight (laid l)] := by
  have breaks : breaksOff [] = true := rfl
  rw [keptLines, keptLines_eq_nil_iff.mpr blank, if_pos breaks]

theorem trimmedEnd_of_blank {rest : List Line} (blank : rest.all Text.allBlank = true) (l : Line) :
    trimmedEnd (l :: rest) = if Text.trimRight l = [] then [] else [Text.trimRight l] := by
  rw [trimmedEnd, if_pos (trimmedEnd_eq_nil_iff.mpr blank)]

theorem trimmedEnd_of_text {rest : List Line} (text : rest.all Text.allBlank ≠ true) (l : Line) :
    trimmedEnd (l :: rest) = l :: trimmedEnd rest := by
  rw [trimmedEnd, if_neg (trimmedEnd_eq_nil_iff.not.mpr text)]

theorem length_keptLines_le (ls : List Line) : (keptLines ls).length ≤ (trimmedEnd ls).length := by
  induction ls with
  | nil => exact Nat.le_refl _
  | cons l rest ih =>
    by_cases blank : rest.all Text.allBlank = true
    · rw [keptLines_of_blank blank, trimmedEnd_of_blank blank]
      by_cases empty : Text.trimRight l = []
      · rw [if_pos (trimRight_laid_eq_nil_iff.mpr empty), if_pos empty]
      · rw [if_neg (trimRight_laid_eq_nil_iff.not.mpr empty), if_neg empty, List.length_singleton, List.length_singleton]
    · rw [trimmedEnd_of_text blank, keptLines, List.length_cons]
      split_ifs
      · exact Nat.le_succ_of_le ih
      · exact Nat.succ_le_succ ih
      · exact Nat.succ_le_succ ih

theorem breaksOff_trimmedEnd (text : ls.all Text.allBlank = false) :
    breaksOff (trimmedEnd ls) = breaksOff ls := by
  cases ls with
  | nil => cases text
  | cons l rest =>
    rw [trimmedEnd]
    split_ifs with void blank
    · rw [trimmedEnd_eq_nil_iff] at void
      rw [List.all_cons, Text.trimRight_eq_nil_iff.mp blank, void] at text
      cases text
    · exact isTagged_trimRight l
    · rfl

/-- Code is kept as it is written exactly when it is laid out as tags are put back. -/
theorem keptLines_eq_trimmedEnd_iff : keptLines ls = trimmedEnd ls ↔ IsVerbatim ls := by
  induction ls with
  | nil => exact iff_of_true rfl trivial
  | cons l rest ih =>
    rw [IsVerbatim, ← ih]
    by_cases blank : rest.all Text.allBlank = true
    · have below : keptLines rest = trimmedEnd rest :=
        (keptLines_eq_nil_iff.mpr blank).trans (trimmedEnd_eq_nil_iff.mpr blank).symm
      rw [keptLines_of_blank blank, trimmedEnd_of_blank blank, if_pos blank, and_iff_right below]
      by_cases empty : Text.trimRight l = []
      · have void := trimRight_laid_eq_nil_iff.mpr empty
        rw [if_pos void, if_pos empty]
        exact iff_of_true rfl (void.trans empty.symm)
      · rw [if_neg (trimRight_laid_eq_nil_iff.not.mpr empty), if_neg empty]
        exact List.singleton_inj
    · have breaks : keptLines rest = trimmedEnd rest → breaksOff (keptLines rest) = breaksOff rest := fun same =>
        (congrArg breaksOff same).trans (breaksOff_trimmedEnd (Bool.eq_false_iff.mpr blank))
      rw [trimmedEnd_of_text blank, if_neg blank, keptLines]
      constructor
      · intro same
        split_ifs at same with tagged empty
        · -- a line that goes leaves fewer lines than there were
          have shorter := length_keptLines_le rest
          rw [same, List.length_cons] at shorter
          omega
        · obtain ⟨line, below⟩ := List.cons.inj same
          rw [← breaks below, if_pos tagged]
          exact ⟨below, line ▸ empty, line⟩
        · obtain ⟨line, below⟩ := List.cons.inj same
          rw [← breaks below, if_neg tagged]
          exact ⟨below, line⟩
      · rintro ⟨below, line⟩
        rw [← breaks below] at line
        by_cases tagged : breaksOff (keptLines rest) = true
        · rw [if_pos tagged] at line
          rw [if_pos tagged, line.2, if_neg line.1, below]
        · rw [if_neg tagged] at line
          rw [if_neg tagged, line, below]

end

/-- The lines below the tag: those of indentation alone are empty, and empty ones at the start go. -/
def codeLines (ls : List Line) : List Line := (ls.map Text.emptied).dropWhile List.isEmpty

/-- Some line has text, and there is no indentation that all lines with text begin with. -/
def Unindented (ls : List Line) : Prop :=
  ∀ c, Text.isIndent c = true → ∃ l ∈ ls, Text.allBlank l = false ∧ l.head? ≠ some c

def exampleLine : Line := "@example".toList

/-- A comment that is an example with the given lines below its tag. -/
def exampleComment (ls : List Line) : String := String.ofList (Text.unlines (exampleLine :: ls))

section

variable {ls : List Line}

theorem emptied_of_text {l : Line} (text : Text.allBlank l = false) : Text.emptied l = l :=
  if_neg (Bool.eq_false_iff.mp (Text.all_isIndent_of_text text))

theorem single_emptied (single : ∀ l ∈ ls, '\n' ∉ l) : ∀ l ∈ ls.map Text.emptied, '\n' ∉ l := by
  refine List.forall_mem_map.mpr fun l member => ?_
  rw [Text.emptied]
  split_ifs
  · exact List.not_mem_nil
  · exact single l member

theorem emptied_emptied (l : Line) : Text.emptied (Text.emptied l) = Text.emptied l := by
  unfold Text.emptied
  split_ifs <;> rfl

theorem tagLine?_emptied (l : Line) : tagLine? (Text.emptied l) = tagLine? l := by
  by_cases tagged : isTagged l = true
  · rw [emptied_of_text (allBlank_of_isTagged tagged)]
  · have none : tagLine? l = none := by simpa [isTagged] using tagged
    rw [none, Text.emptied]
    split_ifs
    · rfl
    · exact none

theorem Unindented.emptied (apart : Unindented ls) : Unindented (ls.map Text.emptied) := by
  intro c indent
  obtain ⟨l, member, text, other⟩ := apart c indent
  exact ⟨l, List.mem_map.mpr ⟨l, member, emptied_of_text text⟩, text, other⟩

theorem Unindented.kept (apart : Unindented ls) : Unindented (keptLines ls) := by
  intro c indent
  obtain ⟨l, member, text, other⟩ := apart c indent
  obtain ⟨k, inside, text', head⟩ := exists_keptLines member text
  exact ⟨k, inside, text', head ▸ other⟩

theorem Unindented.codeLines (apart : Unindented ls) : Unindented (codeLines ls) := by
  intro c indent
  obtain ⟨l, member, text, other⟩ := apart.emptied c indent
  rw [← List.takeWhile_append_dropWhile (p := List.isEmpty) (l := ls.map Text.emptied)] at member
  refine ⟨l, (List.mem_append.mp member).resolve_left fun empty => ?_, text, other⟩
  have void : l.isEmpty = true := List.mem_takeWhile_imp empty
  rw [List.isEmpty_iff.mp void] at text
  cases text

theorem Unindented.text (apart : Unindented ls) : ls.all Text.allBlank = false := by
  obtain ⟨l, member, text, _⟩ := apart ' ' rfl
  refine Bool.eq_false_iff.mpr fun blank => ?_
  rw [List.all_eq_true.mp blank l member] at text
  cases text

theorem Unindented.dedent (apart : Unindented ls) : Text.dedent ls = ls.map Text.emptied :=
  Text.dedent_of_apart fun c indent => by
    obtain ⟨l, member, text, other⟩ := apart c indent
    exact ⟨l, member, Text.all_isIndent_of_text text, other⟩

/-- The comment has one tagged value, with the code below its tag. -/
theorem items_exampleComment {g : Registry} (sample : g.canonical? "example" = some "example")
    (single : ∀ l ∈ ls, '\n' ∉ l) (unregistered : ∀ l ∈ ls, ∀ tag first,
      tagLine? l = some (tag, first) → g.has (String.ofList tag) = false) :
    Extractor.foldExamples g (Comment.ofText (exampleComment ls)).items =
      [⟨"example", String.ofList (Text.below (keptLines (ls.map Text.emptied))), 0⟩] := by
  have single' : ∀ l ∈ exampleLine :: ls, '\n' ∉ l := List.forall_mem_cons.mpr ⟨by decide, single⟩
  have apart : Unindented (exampleLine :: ls) := fun c indent =>
    ⟨exampleLine, List.mem_cons_self, rfl, by
      rintro ⟨⟩
      cases indent⟩
  have unregistered' : ∀ l ∈ ls.map Text.emptied, ∀ tag first, tagLine? l = some (tag, first) →
      g.has (String.ofList tag) = false := by
    refine List.forall_mem_map.mpr fun l member tag first found => ?_
    rw [tagLine?_emptied] at found
    exact unregistered l member tag first found
  have opens : tagLine? exampleLine = some ("example".toList, []) := rfl
  have items : (Comment.ofText (exampleComment ls)).items =
      ⟨"example", String.ofList (Text.trimRight ([] ++ Text.below (splitTags 1 (ls.map Text.emptied)).1)), 0⟩ ::
        (splitTags 1 (ls.map Text.emptied)).2 := by
    rw [Comment.ofText_eq, exampleComment, String.toList_ofList,
      Text.lines_unlines (List.cons_ne_nil _ _) single', Comment.ofLines, apart.dedent, List.map_cons]
    have first : Text.emptied exampleLine = exampleLine := rfl
    simp only [first, splitTags, opens, Text.unlines_cons_below]
    rfl
  have code : onto [] (keptLines (ls.map Text.emptied)) = Text.below (keptLines (ls.map Text.emptied)) := by
    unfold onto
    split_ifs <;> rfl
  rw [items, Extractor.foldExamples, foldExamplesFrom_splitTags sample unregistered', code]

theorem dropWhile_unlines (single : ∀ l ∈ ls, '\n' ∉ l) :
    (Text.unlines ls).dropWhile (· == '\n') = Text.unlines (ls.dropWhile List.isEmpty) := by
  induction ls with
  | nil => rfl
  | cons l rest ih =>
    obtain ⟨here, later⟩ := List.forall_mem_cons.mp single
    cases l with
    | nil =>
      rw [List.dropWhile_cons_of_pos rfl, ← ih later]
      cases rest with
      | nil => rfl
      | cons => rw [Text.unlines_cons [] (List.cons_ne_nil _ _), List.nil_append, List.dropWhile_cons_of_pos rfl]
    | cons c r =>
      have other : ¬(c == '\n') = true := fun same => here (by simp [beq_iff_eq.mp same])
      rw [List.dropWhile_cons_of_neg (by simp), Text.unlines_cons_below, List.cons_append]
      exact List.dropWhile_cons_of_neg other

theorem trimLineBreaks_unlines (single : ∀ l ∈ ls, '\n' ∉ l)
    (last : ∀ c ∈ (Text.unlines ls).getLast?, c ≠ '\n') :
    trimLineBreaks (Text.unlines ls) = Text.unlines (ls.dropWhile List.isEmpty) := by
  rw [trimLineBreaks, dropWhile_unlines single]
  have begins := List.dropWhile_suffix (l := Text.unlines ls) (· == '\n')
  rw [dropWhile_unlines single] at begins
  obtain ⟨front, whole⟩ := begins
  refine List.rdropWhile_eq_self_iff.mpr fun some => ?_
  have ends : (Text.unlines ls).getLast? = Option.some ((Text.unlines (ls.dropWhile List.isEmpty)).getLast some) := by
    rw [← whole, List.getLast?_append, List.getLast?_eq_some_getLast some]
    rfl
  simpa using last _ ends

/-- The code of the example is what is kept of its lines. -/
theorem readExample_keptLines (single : ∀ l ∈ ls, '\n' ∉ l) (apart : Unindented ls) :
    readExample (String.ofList (Text.below (keptLines (ls.map Text.emptied)))) =
      .ok { code := String.ofList (Text.unlines (keptLines (codeLines ls))) } := by
  obtain ⟨above, listed⟩ : ∃ above, ls.map Text.emptied = above := ⟨_, rfl⟩
  have lines : ∀ l ∈ keptLines above, '\n' ∉ l := listed ▸ not_mem_keptLines (single_emptied single)
  have unindented : Unindented (keptLines above) := listed ▸ apart.emptied.kept
  have some : keptLines above ≠ [] := by
    obtain ⟨_, inside, _⟩ := unindented ' ' rfl
    exact List.ne_nil_of_mem inside
  have dedented : Text.dedent (keptLines above) = keptLines above := by
    rw [unindented.dedent]
    refine (List.map_congr_left fun l member => ?_).trans (List.map_id _)
    exact emptied_of_mem_keptLines (listed ▸ List.forall_mem_map.mpr fun l _ => emptied_emptied l) member
  have last : ∀ c ∈ (Text.unlines (keptLines above)).getLast?, c ≠ '\n' := by
    obtain ⟨s, trimmed⟩ := exists_onto_keptLines [] above
    have code : onto [] (keptLines above) = ['\n'] ++ Text.unlines (keptLines above) := by
      rw [onto, Text.below_eq some]
      split_ifs <;> rfl
    rintro c ends rfl
    have blank := Text.last_trimRight s '\n' (by rw [← trimmed, code, List.getLast?_append, ends]; rfl)
    revert blank
    decide
  have body : Text.breakAt? '\n' (Text.below (keptLines above)) = Option.some ([], Text.unlines (keptLines above)) := by
    rw [Text.below_eq some]
    rfl
  have code : trimLineBreaks (Text.unlines (Text.dedent (Text.lines (Text.unlines (keptLines above))))) =
      Text.unlines (keptLines (codeLines ls)) := by
    rw [Text.lines_unlines some lines, dedented, trimLineBreaks_unlines lines last, dropWhile_keptLines,
      codeLines, listed]
  have solid : Text.allBlank (Text.unlines (keptLines (codeLines ls))) = false := by
    rw [Text.allBlank_unlines]
    exact apart.codeLines.kept.text
  rw [listed]
  simp only [readExample, String.toList_ofList, body, Option.getD_some, code, solid]
  rfl

theorem not_mem_trimmedEnd (single : ∀ l ∈ ls, '\n' ∉ l) : ∀ l ∈ trimmedEnd ls, '\n' ∉ l := by
  induction ls with
  | nil => exact List.forall_mem_nil _
  | cons l rest ih =>
    obtain ⟨here, later⟩ := List.forall_mem_cons.mp single
    rw [trimmedEnd]
    split_ifs
    · exact List.forall_mem_nil _
    · rintro _ member inside
      rw [List.mem_singleton.mp member] at inside
      exact here ((Text.trimRight_begins l).subset inside)
    · exact List.forall_mem_cons.mpr ⟨here, ih later⟩

/-- The code is the trimmed text of its lines exactly when these are laid out as tags are put back. -/
theorem unlines_keptLines_eq_iff (single : ∀ l ∈ ls, '\n' ∉ l) (apart : Unindented ls) :
    Text.unlines (keptLines (codeLines ls)) = Text.trimRight (Text.unlines (codeLines ls)) ↔
      IsVerbatim (codeLines ls) := by
  have lines : ∀ l ∈ codeLines ls, '\n' ∉ l := fun l member =>
    single_emptied single l ((List.dropWhile_sublist _).subset member)
  have text := apart.codeLines.text
  have some : keptLines (codeLines ls) ≠ [] := fun void => by
    rw [keptLines_eq_nil_iff.mp void] at text
    cases text
  have some' : trimmedEnd (codeLines ls) ≠ [] := fun void => by
    rw [trimmedEnd_eq_nil_iff.mp void] at text
    cases text
  rw [trimRight_unlines text, ← keptLines_eq_trimmedEnd_iff]
  exact ⟨Text.unlines_injective some some' (not_mem_keptLines lines) (not_mem_trimmedEnd lines),
    congrArg Text.unlines⟩

end

end SheetDoc
