import SheetDoc.Block.Scan
import SheetDoc.Comment
import SheetDoc.Proofs.Text.Lines

namespace SheetDoc

/-- A tagged value without the place of its line. -/
def Tagged.unlined (t : Tagged) : Tagged := { t with offset := 0 }

/-- A comment without the places of its lines. -/
def Comment.unlined (c : Comment) : Comment := { c with items := c.items.map Tagged.unlined }

/-- The comment that some lines make. -/
def Comment.ofLines (ls : List Line) : Comment :=
  let (loose, items) := splitTags 0 (Text.dedent ls)
  { description := String.ofList (Text.trim (Text.unlines (Text.dedent loose))), items := items }

theorem Comment.ofText_eq (text : String) : ofText text = ofLines (Text.lines text.toList) := rfl

theorem splitTags_fst (n m : Nat) (ls : List Line) : (splitTags n ls).1 = (splitTags m ls).1 := by
  induction ls generalizing n m with
  | nil => rfl
  | cons l rest ih =>
    simp only [splitTags, ih (n + 1) (m + 1)]
    cases tagLine? l <;> rfl

theorem splitTags_snd (n m : Nat) (ls : List Line) :
    (splitTags n ls).2.map Tagged.unlined = (splitTags m ls).2.map Tagged.unlined := by
  induction ls generalizing n m with
  | nil => rfl
  | cons l rest ih =>
    simp only [splitTags]
    cases tagLine? l with
    | none => exact ih (n + 1) (m + 1)
    | some tag =>
      simp only [List.map_cons, splitTags_fst (n + 1) (m + 1), ih (n + 1) (m + 1)]
      rfl

theorem splitTags_replicate (n k : Nat) :
    splitTags n (List.replicate k []) = (List.replicate k [], []) := by
  induction k generalizing n with
  | zero => rfl
  | succ k ih => simp only [List.replicate_succ, splitTags, ih, tagLine?]

/-- Empty lines below others go to the last tag, where they are trimmed away, or to the description. -/
theorem exists_splitTags_append_replicate (n k : Nat) (ls : List Line) :
    ∃ j, splitTags n (ls ++ List.replicate k []) =
      ((splitTags n ls).1 ++ List.replicate j [], (splitTags n ls).2) := by
  induction ls generalizing n with
  | nil => exact ⟨k, splitTags_replicate n k⟩
  | cons l rest ih =>
    obtain ⟨j, same⟩ := ih (n + 1)
    simp only [List.cons_append, splitTags, same]
    cases tagLine? l with
    | none => exact ⟨j, rfl⟩
    | some tag =>
      refine ⟨0, ?_⟩
      simp only [← List.cons_append, Text.trimRight_unlines_append]
      rfl

namespace Comment

theorem ofLines_append_replicate (ls : List Line) (k : Nat) :
    ofLines (ls ++ List.replicate k []) = ofLines ls := by
  obtain ⟨j, same⟩ := exists_splitTags_append_replicate 0 k (Text.dedent ls)
  simp only [ofLines, Text.dedent_append_replicate, same, Text.trim_unlines_append]

theorem ofLines_cons_nil (ls : List Line) : (ofLines ([] :: ls)).unlined = (ofLines ls).unlined := by
  simp only [ofLines, unlined, Text.dedent_cons_nil, splitTags, tagLine?,
    Text.trim_unlines_cons_nil, splitTags_fst 1 0, splitTags_snd 1 0]

end Comment

/-- Lines that end in no blanks are, but for empty ones at their end, what is left of them when the
blank lines at their end go. -/
theorem exists_dropBlankEnd_append {ls : List Line} (trimmed : ∀ l ∈ ls, Text.trimRight l = l) :
    ∃ k, ls = dropBlankEnd ls ++ List.replicate k [] := by
  have parts := congrArg List.reverse (List.takeWhile_append_dropWhile (p := Text.allBlank) (l := ls.reverse))
  rw [List.reverse_append, List.reverse_reverse] at parts
  refine ⟨(ls.reverse.takeWhile Text.allBlank).reverse.length, parts.symm.trans ?_⟩
  rw [dropBlankEnd]
  congr 1
  refine List.eq_replicate_iff.mpr ⟨rfl, fun l member => ?_⟩
  have inside := List.mem_reverse.mp member
  have blank : Text.allBlank l = true := List.mem_takeWhile_imp inside
  rw [← trimmed l (List.mem_reverse.mp ((List.takeWhile_sublist _).subset inside))]
  exact Text.trimRight_eq_nil_iff.mpr blank

theorem dropBlankEnd_subset (ls : List Line) : dropBlankEnd ls ⊆ ls := fun _ member =>
  List.mem_reverse.mp ((List.dropWhile_sublist _).subset (List.mem_reverse.mp member))

theorem lines_dropBlankEnd_cons_nil {ls : List Line} (single : ∀ l ∈ ls, '\n' ∉ l) :
    Text.lines (Text.unlines (dropBlankEnd ([] :: ls))) = [] :: dropBlankEnd ls := by
  unfold dropBlankEnd
  rw [List.reverse_cons, List.dropWhile_append]
  split
  · -- of blank lines nothing is left, and a text of no lines is one empty line
    rename_i void
    rw [List.isEmpty_iff.mp void]
    rfl
  · rw [List.reverse_append]
    refine Text.lines_unlines (by simp) (List.forall_mem_cons.mpr ⟨by simp, fun l member => ?_⟩)
    exact single l (dropBlankEnd_subset ls member)

/-- A comment reads the same, but for the places of its tags, when an empty line is put above it and
the blank lines at its end are left out. -/
theorem Comment.unlined_ofText_dropBlankEnd {ls : List Line} (nonempty : ls ≠ [])
    (single : ∀ l ∈ ls, '\n' ∉ l) (trimmed : ∀ l ∈ ls, Text.trimRight l = l) :
    (ofText (String.ofList (Text.unlines ls))).unlined =
      (ofText (String.ofList (Text.unlines (dropBlankEnd ([] :: ls))))).unlined := by
  obtain ⟨k, same⟩ := exists_dropBlankEnd_append trimmed
  rw [ofText_eq, ofText_eq, String.toList_ofList, String.toList_ofList, Text.lines_unlines nonempty single,
    lines_dropBlankEnd_cons_nil single, ofLines_cons_nil]
  conv => lhs; rw [same]
  rw [ofLines_append_replicate]

end SheetDoc
