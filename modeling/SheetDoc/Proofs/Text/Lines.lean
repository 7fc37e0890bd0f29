import Mathlib.Data.List.TakeWhile
import SheetDoc.Text.Blank
import SheetDoc.Text.Lines
import SheetDoc.Text.Search

namespace SheetDoc.Text

theorem unlines_cons (l : List Char) {ls : List (List Char)} (more : ls ≠ []) :
    unlines (l :: ls) = l ++ '\n' :: unlines ls := by
  cases ls with
  | nil => exact absurd rfl more
  | cons l' rest => simp [unlines, List.intercalate]

/-- Lines put under others. -/
def below (ls : List (List Char)) : List Char := ls.flatMap ('\n' :: ·)

theorem unlines_cons_below (l : List Char) (ls : List (List Char)) :
    unlines (l :: ls) = l ++ below ls := by
  induction ls generalizing l with
  | nil => simp [unlines, below]
  | cons l' rest ih =>
    rw [unlines_cons l (List.cons_ne_nil l' rest), ih]
    rfl

theorem below_eq {ls : List (List Char)} (nonempty : ls ≠ []) : below ls = '\n' :: unlines ls := by
  obtain ⟨l, rest, rfl⟩ := List.exists_cons_of_ne_nil nonempty
  rw [unlines_cons_below]
  rfl

/-- Lines below others, with a line end in between. -/
theorem unlines_append {ls more : List (List Char)} (some : ls ≠ []) (some' : more ≠ []) :
    unlines (ls ++ more) = unlines ls ++ '\n' :: unlines more := by
  obtain ⟨l, rest, rfl⟩ := List.exists_cons_of_ne_nil some
  have under : below (rest ++ more) = below rest ++ below more := List.flatMap_append
  rw [List.cons_append, unlines_cons_below, unlines_cons_below, under, below_eq some', List.append_assoc]

theorem mem_unlines {ls : List (List Char)} {l : List Char} {c : Char} (member : l ∈ ls) (inside : c ∈ l) :
    c ∈ unlines ls := by
  induction ls with
  | nil => cases member
  | cons l' ls ih =>
    cases ls with
    | nil => simpa [unlines, List.mem_singleton.mp member] using inside
    | cons l'' ls =>
      rw [unlines_cons l' (List.cons_ne_nil l'' ls)]
      rcases List.mem_cons.mp member with rfl | later
      · exact List.mem_append_left _ inside
      · exact List.mem_append_right _ (List.mem_cons_of_mem _ (ih later))

theorem lines_append {s : List Char} (single : '\n' ∉ s) (t : List Char) :
    lines (s ++ '\n' :: t) = s :: lines t := by
  induction s with
  | nil => rfl
  | cons c r ih =>
    obtain ⟨other, single⟩ := not_or.mp (List.mem_cons.not.mp single)
    have rest := ih single
    rw [lines] at rest ⊢
    rw [List.cons_append, splitOn, if_neg (Ne.symm other), rest]
    rfl

theorem lines_of_single {s : List Char} (single : '\n' ∉ s) : lines s = [s] := by
  induction s with
  | nil => rfl
  | cons c r ih =>
    obtain ⟨other, single⟩ := not_or.mp (List.mem_cons.not.mp single)
    have rest := ih single
    rw [lines] at rest ⊢
    rw [splitOn, if_neg (Ne.symm other), rest]
    rfl

/-- Lines in front of a text are its first lines. -/
theorem lines_unlines_append {ls : List (List Char)} (single : ∀ l ∈ ls, '\n' ∉ l) (t : List Char) :
    lines (unlines (ls ++ [t])) = ls ++ lines t := by
  induction ls with
  | nil => simp [unlines, List.intercalate]
  | cons l rest ih =>
    obtain ⟨here, later⟩ := List.forall_mem_cons.mp single
    rw [List.cons_append, unlines_cons l (by simp), lines_append here, ih later, List.cons_append]

theorem lines_unlines {ls : List (List Char)} (nonempty : ls ≠ []) (single : ∀ l ∈ ls, '\n' ∉ l) :
    lines (unlines ls) = ls := by
  obtain ⟨above, last, rfl⟩ : ∃ above last, ls = above ++ [last] :=
    ⟨_, _, (List.dropLast_concat_getLast nonempty).symm⟩
  obtain ⟨above_single, last_single⟩ := List.forall_mem_append.mp single
  rw [lines_unlines_append above_single, lines_of_single (last_single last List.mem_cons_self)]

theorem unlines_injective {ls ls' : List (List Char)} (some : ls ≠ []) (some' : ls' ≠ [])
    (single : ∀ l ∈ ls, '\n' ∉ l) (single' : ∀ l ∈ ls', '\n' ∉ l) (same : unlines ls = unlines ls') :
    ls = ls' := by
  rw [← lines_unlines some single, same, lines_unlines some' single']

theorem unifyLineEnds_append {s : List Char} (plain : '\r' ∉ s) (t : List Char) :
    unifyLineEnds (s ++ t) = s ++ unifyLineEnds t := by
  induction s with
  | nil => rfl
  | cons c r ih =>
    obtain ⟨other, plain⟩ := not_or.mp (List.mem_cons.not.mp plain)
    rw [List.cons_append, unifyLineEnds, ih plain, List.cons_append]
    rintro r' rfl
    exact absurd rfl other

theorem unifyLineEnds_of_plain {s : List Char} (plain : '\r' ∉ s) : unifyLineEnds s = s := by
  simpa [unifyLineEnds] using unifyLineEnds_append plain []

theorem unifyLineEnds_cons {c : Char} {s : List Char} (single : ∀ d ∈ s.head?, d ≠ '\n') :
    unifyLineEnds (c :: s) = c :: unifyLineEnds s := by
  refine unifyLineEnds.eq_2 c s fun r _ same => ?_
  subst same
  exact single _ rfl rfl

theorem unifyLineEnds_of_single {s : List Char} (single : '\n' ∉ s) : unifyLineEnds s = s := by
  induction s with
  | nil => rfl
  | cons c r ih =>
    have later : '\n' ∉ r := fun inside => single (List.mem_cons_of_mem c inside)
    rw [unifyLineEnds_cons (fun d first same => later (same ▸ List.mem_of_mem_head? first)), ih later]

/-- A line loses the carriage return at its end, if there is one. -/
theorem exists_unifyLineEnds {s : List Char} (single : '\n' ∉ s) (t : List Char) :
    ∃ s', (s = s' ∨ s = s' ++ ['\r']) ∧ unifyLineEnds (s ++ '\n' :: t) = s' ++ '\n' :: unifyLineEnds t := by
  induction s with
  | nil => exact ⟨[], .inl rfl, rfl⟩
  | cons c r ih =>
    have later : '\n' ∉ r := fun inside => single (List.mem_cons_of_mem c inside)
    cases r with
    | nil =>
      by_cases returns : c = '\r'
      · subst returns
        exact ⟨[], .inr rfl, rfl⟩
      · refine ⟨[c], .inl rfl, unifyLineEnds.eq_2 c _ fun _ same _ => returns same⟩
    | cons d r =>
      obtain ⟨s', same, unified⟩ := ih later
      have first : unifyLineEnds (c :: (d :: r ++ '\n' :: t)) = c :: unifyLineEnds (d :: r ++ '\n' :: t) := by
        refine unifyLineEnds_cons ?_
        rintro _ ⟨⟩ rfl
        exact later List.mem_cons_self
      refine ⟨c :: s', ?_, first.trans (congrArg (c :: ·) unified)⟩
      rcases same with same | same
      · exact .inl (congrArg (c :: ·) same)
      · exact .inr (congrArg (c :: ·) same)

/-- Only the text behind lines without carriage returns can have line ends to unify. -/
theorem unifyLineEnds_unlines {ls : List (List Char)} (plain : ∀ l ∈ ls, '\r' ∉ l) (t : List Char) :
    unifyLineEnds (unlines (ls ++ [t])) = unlines (ls ++ [unifyLineEnds t]) := by
  induction ls with
  | nil => simp [unlines, List.intercalate]
  | cons l rest ih =>
    obtain ⟨here, later⟩ := List.forall_mem_cons.mp plain
    rw [List.cons_append, List.cons_append, unlines_cons l (by simp), unlines_cons l (by simp),
      unifyLineEnds_append here, ← ih later]
    rfl

theorem trimRight_append (s : List Char) {t : List Char} (blank : allBlank t = true) :
    trimRight (s ++ t) = trimRight s := by
  induction s with
  | nil => exact trimRight_eq_nil_iff.mpr blank
  | cons c r ih => rw [List.cons_append, trimRight, trimRight, ih]

theorem trim_append (s : List Char) {t : List Char} (blank : allBlank t = true) :
    trim (s ++ t) = trim s := by
  unfold trim trimLeft
  rw [List.dropWhile_append]
  split
  · rename_i void
    have none : t.dropWhile isBlank = [] := List.dropWhile_eq_nil_iff.mpr (List.all_eq_true.mp blank)
    rw [none, List.isEmpty_iff.mp void]
  · exact trimRight_append _ blank

theorem trim_cons {c : Char} (blank : isBlank c = true) (s : List Char) : trim (c :: s) = trim s := by
  unfold trim trimLeft
  rw [List.dropWhile_cons_of_pos blank]

theorem exists_blank_unlines_concat (ls : List (List Char)) :
    ∃ t, allBlank t = true ∧ unlines (ls ++ [[]]) = unlines ls ++ t := by
  induction ls with
  | nil => exact ⟨[], rfl, rfl⟩
  | cons l rest ih =>
    cases rest with
    | nil => exact ⟨['\n'], rfl, by simp [unlines, List.intercalate]⟩
    | cons l' rest =>
      obtain ⟨t, blank, same⟩ := ih
      refine ⟨t, blank, ?_⟩
      rw [List.cons_append, unlines_cons l (by simp), same, unlines_cons l (by simp),
        List.append_assoc, List.cons_append]

/-- Empty lines below others only add blanks. -/
theorem exists_blank_unlines_append (ls : List (List Char)) (k : Nat) :
    ∃ t, allBlank t = true ∧ unlines (ls ++ List.replicate k []) = unlines ls ++ t := by
  induction k with
  | zero => exact ⟨[], rfl, by simp⟩
  | succ k ih =>
    obtain ⟨t, blank, same⟩ := ih
    obtain ⟨t', blank', same'⟩ := exists_blank_unlines_concat (ls ++ List.replicate k [])
    refine ⟨t ++ t', ?_, ?_⟩
    · rw [allBlank, List.all_append, Bool.and_eq_true]
      exact ⟨blank, blank'⟩
    · rw [List.replicate_succ', ← List.append_assoc, same', same, List.append_assoc]

theorem trimRight_unlines_append (ls : List (List Char)) (k : Nat) :
    trimRight (unlines (ls ++ List.replicate k [])) = trimRight (unlines ls) := by
  obtain ⟨t, blank, same⟩ := exists_blank_unlines_append ls k
  rw [same, trimRight_append _ blank]

theorem trim_unlines_append (ls : List (List Char)) (k : Nat) :
    trim (unlines (ls ++ List.replicate k [])) = trim (unlines ls) := by
  obtain ⟨t, blank, same⟩ := exists_blank_unlines_append ls k
  rw [same, trim_append _ blank]

/-- An empty line above others only adds a blank. -/
theorem trim_unlines_cons_nil (ls : List (List Char)) :
    trim (unlines ([] :: ls)) = trim (unlines ls) := by
  cases ls with
  | nil => rfl
  | cons l rest => rw [unlines_cons [] (by simp), List.nil_append, trim_cons rfl]

theorem single_of_mem_lines {s l : List Char} (member : l ∈ lines s) : '\n' ∉ l := by
  have general : ∀ s : List Char, ∀ l ∈ splitOn '\n' s, '\n' ∉ l := by
    intro s
    induction s with
    | nil => simp [splitOn]
    | cons c r ih =>
      rw [splitOn]
      by_cases sep : c = '\n'
      · rw [if_pos sep]
        exact List.forall_mem_cons.mpr ⟨List.not_mem_nil, ih⟩
      · rw [if_neg sep]
        cases parts : splitOn '\n' r with
        | nil => exact absurd parts (splitOn_ne_nil '\n' r)
        | cons p ps =>
          rw [parts] at ih
          obtain ⟨here, later⟩ := List.forall_mem_cons.mp ih
          refine List.forall_mem_cons.mpr ⟨fun inside => ?_, later⟩
          rcases List.mem_cons.mp inside with same | inside
          · exact sep same.symm
          · exact here inside
  exact general s l member

theorem trimLeft_suffix (s : List Char) : trimLeft s <:+ s := List.dropWhile_suffix isBlank

theorem trimRight_begins (s : List Char) : trimRight s <+: s := by
  induction s with
  | nil => exact List.prefix_rfl
  | cons c r ih =>
    rw [trimRight]
    split
    · split
      · exact List.nil_prefix
      · exact ⟨r, rfl⟩
    · rename_i rest
      rw [rest] at ih
      exact List.cons_prefix_cons.mpr ⟨rfl, ih⟩

theorem cutBefore_begins (pattern s : List Char) : cutBefore pattern s <+: s := by
  induction s with
  | nil => exact List.prefix_rfl
  | cons c r ih =>
    rw [cutBefore]
    split
    · exact List.nil_prefix
    · exact List.cons_prefix_cons.mpr ⟨rfl, ih⟩

theorem cutBefore_of_not_occurs {pattern s : List Char} (absent : occurs pattern s = false) :
    cutBefore pattern s = s := by
  induction s with
  | nil => rfl
  | cons c r ih =>
    obtain ⟨here, later⟩ := Bool.or_eq_false_iff.mp absent
    rw [cutBefore, here, ih later]
    rfl

/-- A line without indentation is the end of the line that it was. -/
theorem dedent_getElem? {ls : List (List Char)} {i : Nat} {d : List Char}
    (atI : (dedent ls)[i]? = some d) : ∃ l, ls[i]? = some l ∧ d <:+ l := by
  rw [dedent, List.getElem?_map] at atI
  obtain ⟨l, listed, rfl⟩ := Option.map_eq_some_iff.mp atI
  refine ⟨l, listed, ?_⟩
  split
  · exact List.nil_suffix
  · exact List.drop_suffix _ l

theorem dedent_cons_nil (ls : List (List Char)) : dedent ([] :: ls) = [] :: dedent ls := rfl

theorem dedent_append_replicate (ls : List (List Char)) (k : Nat) :
    dedent (ls ++ List.replicate k []) = dedent ls ++ List.replicate k [] := by
  have same : margin (ls ++ List.replicate k []) = margin ls := by simp [margin]
  simp only [dedent, same, List.map_append, List.map_replicate]
  rfl

end SheetDoc.Text
