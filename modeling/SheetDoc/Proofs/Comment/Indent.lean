import SheetDoc.Proofs.Comment.Layout

namespace SheetDoc

namespace Text

/-- A text with something in front of each of its lines. -/
def indented (p text : String) : String :=
  String.ofList (unlines ((lines text.toList).map (p.toList ++ ·)))

section

variable {m p s t : List Char} {ls : List (List Char)}

theorem prefix_commonStart_iff : m <+: commonStart s t ↔ m <+: s ∧ m <+: t := by
  fun_induction commonStart s t generalizing m with
  | case1 a r t ih =>
    cases m with
    | nil => simp
    | cons c m =>
      simp only [List.cons_prefix_cons, ih]
      exact and_and_left
  | case2 a r b t apart =>
    cases m with
    | nil => simp
    | cons c m =>
      simp only [List.prefix_nil, List.cons_prefix_cons, reduceCtorEq, false_iff]
      rintro ⟨⟨rfl, _⟩, rfl, _⟩
      exact apart rfl
  | case3 s t none =>
    refine ⟨fun empty => ?_, fun both => ?_⟩
    · rw [List.prefix_nil.mp empty]
      exact ⟨List.nil_prefix, List.nil_prefix⟩
    · cases m with
      | nil => exact List.nil_prefix
      | cons c m =>
        obtain ⟨⟨r, rfl⟩, r', rfl⟩ := both
        exact absurd rfl (none c _ c _ rfl)

theorem prefix_takeWhile_iff {q : Char → Bool} : m <+: s.takeWhile q ↔ m.all q = true ∧ m <+: s := by
  constructor
  · intro begins
    refine ⟨List.all_eq_true.mpr fun c member => ?_, begins.trans (List.takeWhile_prefix q)⟩
    exact List.mem_takeWhile_imp (begins.subset member)
  · rintro ⟨all, r, rfl⟩
    rw [List.takeWhile_append_of_pos (List.all_eq_true.mp all)]
    exact List.prefix_append m _

/-- The margin is the longest indentation that every line with text begins with. -/
theorem prefix_margin_iff (text : ∃ l ∈ ls, l.all isIndent = false) :
    m <+: margin ls ↔
      m.all isIndent = true ∧ ∀ l ∈ ls, l.all isIndent = false → m <+: l := by
  have folded : ∀ (rest : List (List Char)) (start : List Char),
      m <+: rest.foldl (fun m k => commonStart m (k.takeWhile isIndent)) start ↔
        m <+: start ∧ ∀ l ∈ rest, m <+: l.takeWhile isIndent := by
    intro rest
    induction rest with
    | nil => simp
    | cons l rest ih =>
      intro start
      rw [List.foldl_cons, ih, prefix_commonStart_iff, List.forall_mem_cons, and_assoc]
  have lines : (∀ l ∈ ls, l.all isIndent = false → m <+: l) ↔
      ∀ l ∈ ls.filter (!·.all isIndent), m <+: l := by
    simp only [List.mem_filter, Bool.not_eq_true', and_imp]
  rw [lines, margin]
  split
  · rename_i none
    obtain ⟨l, member, text⟩ := text
    have listed : l ∈ ls.filter (!·.all isIndent) := List.mem_filter.mpr ⟨member, by simp [text]⟩
    rw [none] at listed
    cases listed
  · rename_i first rest listed
    simp only [listed, folded, prefix_takeWhile_iff, List.forall_mem_cons]
    constructor
    · rintro ⟨⟨indent, here⟩, others⟩
      exact ⟨indent, here, fun l member => (others l member).2⟩
    · rintro ⟨indent, here, others⟩
      exact ⟨⟨indent, here⟩, fun l member => ⟨indent, others l member⟩⟩

theorem all_indent_append (indent : p.all isIndent = true) (l : List Char) :
    (p ++ l).all isIndent = l.all isIndent := by rw [List.all_append, indent, Bool.true_and]

/-- Indentation in front of every line goes in front of the margin. -/
theorem margin_indented (indent : p.all isIndent = true) (text : ∃ l ∈ ls, l.all isIndent = false) :
    margin (ls.map (p ++ ·)) = p ++ margin ls := by
  have text' : ∃ l ∈ ls.map (p ++ ·), l.all isIndent = false := by
    obtain ⟨l, member, text⟩ := text
    exact ⟨p ++ l, List.mem_map_of_mem member, (all_indent_append indent l).trans text⟩
  have begins : ∀ m, p ++ m <+: margin (ls.map (p ++ ·)) ↔ m <+: margin ls := by
    intro m
    rw [prefix_margin_iff text', prefix_margin_iff text, all_indent_append indent, List.forall_mem_map]
    simp only [all_indent_append indent, List.prefix_append_right_inj]
  obtain ⟨q, same⟩ : p <+: margin (ls.map (p ++ ·)) := by
    simpa using (begins []).mpr List.nil_prefix
  -- the two margins begin with the same texts, themselves among them
  rw [← same] at begins ⊢
  simp only [List.prefix_append_right_inj] at begins
  have shorter := (begins q).mp List.prefix_rfl
  exact congrArg (p ++ ·) (shorter.eq_of_length_le ((begins _).mpr List.prefix_rfl).length_le)

theorem dedent_indented (indent : p.all isIndent = true) (ls : List (List Char)) :
    dedent (ls.map (p ++ ·)) = dedent ls := by
  rw [dedent, dedent, List.map_map]
  refine List.map_congr_left fun l member => ?_
  simp only [Function.comp_apply, all_indent_append indent]
  split
  · rfl
  · rename_i text
    rw [margin_indented indent ⟨l, member, Bool.eq_false_iff.mpr text⟩, List.length_append,
      List.drop_append, List.drop_of_length_le (Nat.le_add_right _ _), List.nil_append,
      Nat.add_sub_cancel_left]

theorem lines_indented {p : String} (indent : p.toList.all isIndent = true) (text : String) :
    lines (indented p text).toList = (lines text.toList).map (p.toList ++ ·) := by
  have inline : '\n' ∉ p.toList := fun member => by
    have := List.all_eq_true.mp indent '\n' member
    cases this
  have nonempty : (lines text.toList).map (p.toList ++ ·) ≠ [] :=
    List.map_eq_nil_iff.not.mpr (splitOn_ne_nil '\n' text.toList)
  rw [indented, String.toList_ofList]
  refine lines_unlines nonempty (List.forall_mem_map.mpr fun l member inside => ?_)
  exact (List.mem_append.mp inside).elim inline (single_of_mem_lines member)

end

end Text

/-- Spaces and tabs in front of every line of a comment change neither its description nor any of its
tagged values, nor the places of these. -/
theorem Comment.ofText_indented {p : String} (indent : ∀ c ∈ p.toList, c = ' ' ∨ c = '\t')
    (text : String) : ofText (Text.indented p text) = ofText text := by
  have indent : p.toList.all Text.isIndent = true :=
    List.all_eq_true.mpr fun c member => by simpa [Text.isIndent] using indent c member
  rw [ofText_eq, ofText_eq, ofLines, ofLines, Text.lines_indented indent, Text.dedent_indented indent]

/-- A line of indentation alone, a wide blank and a tag behind more indentation than the others. -/
theorem Comment.ofText_indented_mixed :
    (∀ c ∈ "\t ".toList, c = ' ' ∨ c = '\t') ∧
      ofText "\t  \u2003Adds.\n\t \t\n\t  @todo x\n\t   @author me" =
        ofText " \u2003Adds.\n\t\n @todo x\n  @author me" ∧
      ofText " \u2003Adds.\n\t\n @todo x\n  @author me" =
        ⟨"Adds.", [⟨"todo", "x\n @author me", 2⟩]⟩ := by
  have indent : ∀ c ∈ "\t ".toList, c = ' ' ∨ c = '\t' := by simp
  have same : Text.indented "\t " " \u2003Adds.\n\t\n @todo x\n  @author me" =
      "\t  \u2003Adds.\n\t \t\n\t  @todo x\n\t   @author me" := by decide +kernel
  exact ⟨indent, same ▸ ofText_indented indent _, by decide +kernel⟩

end SheetDoc
