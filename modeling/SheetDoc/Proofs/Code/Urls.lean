import SheetDoc.Block.Scan
import SheetDoc.Proofs.Code.Separators

namespace SheetDoc

open Text (isBlank isNameChar)

/-- What stands behind the first slashes of a line. -/
def behindSlashes : List Char → List Char
  | '/' :: '/' :: t => t
  | _ :: r => behindSlashes r
  | [] => []

/-- A line with `__` in place of its first slashes. -/
def maskSlashes : List Char → List Char
  | '/' :: '/' :: t => '_' :: '_' :: t
  | c :: r => c :: maskSlashes r
  | [] => []

variable {c : Char} {l s t w : List Char} {ls : List (List Char)}

theorem slashes_cases (c : Char) (r : List Char) :
    (∃ t, c = '/' ∧ r = '/' :: t) ∨
      Text.startsWith ['/', '/'] (c :: r) = false ∧ ∀ t, c = '/' → r = '/' :: t → False := by
  cases begins : Text.startsWith ['/', '/'] (c :: r) with
  | true =>
    obtain ⟨t, same⟩ := List.isPrefixOf_iff_prefix.mp begins
    cases same
    exact .inl ⟨t, rfl, rfl⟩
  | false =>
    refine .inr ⟨rfl, ?_⟩
    rintro t rfl rfl
    cases begins

/-- The first slashes of a line stand between what is in front of them and what is behind. -/
theorem split_slashes (occurs : Text.occurs ['/', '/'] l = true) :
    l = Text.cutBefore ['/', '/'] l ++ '/' :: '/' :: behindSlashes l ∧
      maskSlashes l = Text.cutBefore ['/', '/'] l ++ '_' :: '_' :: behindSlashes l := by
  induction l with
  | nil => cases occurs
  | cons c r ih =>
    rcases slashes_cases c r with ⟨t, rfl, rfl⟩ | ⟨none, apart⟩
    · exact ⟨rfl, rfl⟩
    · have later : Text.occurs ['/', '/'] r = true := by simpa [Text.occurs, none] using occurs
      obtain ⟨whole, masked⟩ := ih later
      rw [Text.cutBefore, none, behindSlashes.eq_2 c r apart, maskSlashes.eq_2 c r apart]
      exact ⟨congrArg (c :: ·) whole, congrArg (c :: ·) masked⟩

theorem maskSlashes_of_not_occurs (absent : Text.occurs ['/', '/'] l = false) :
    maskSlashes l = l ∧ behindSlashes l = [] := by
  induction l with
  | nil => exact ⟨rfl, rfl⟩
  | cons c r ih =>
    obtain ⟨none, later⟩ := Bool.or_eq_false_iff.mp absent
    obtain ⟨same, void⟩ := ih later
    rcases slashes_cases c r with ⟨t, rfl, rfl⟩ | ⟨_, apart⟩
    · cases none
    · rw [maskSlashes.eq_2 c r apart, behindSlashes.eq_2 c r apart, same]
      exact ⟨rfl, void⟩

/-- In front of the first slashes there are none. -/
theorem not_occurs_cutBefore (l : List Char) :
    Text.occurs ['/', '/'] (Text.cutBefore ['/', '/'] l) = false := by
  induction l with
  | nil => rfl
  | cons c r ih =>
    rcases slashes_cases c r with ⟨t, rfl, rfl⟩ | ⟨none, apart⟩
    · rfl
    · rw [Text.cutBefore, none]
      refine Bool.or_eq_false_iff.mpr ⟨Bool.eq_false_iff.mpr fun begins => ?_, ih⟩
      -- what begins the cut line begins the line as well
      have front := Text.cutBefore_begins ['/', '/'] r
      have whole := (List.isPrefixOf_iff_prefix.mp begins).trans (List.cons_prefix_cons.mpr ⟨rfl, front⟩)
      rw [Text.startsWith, List.isPrefixOf_iff_prefix.mpr whole] at none
      cases none

theorem occurs_iff_inside (some : w ≠ []) : Text.occurs w s = true ↔ w <:+: s := by
  induction s with
  | nil => simp [Text.occurs, some]
  | cons c r ih =>
    rw [Text.occurs, Bool.or_eq_true, ih, List.infix_cons_iff]
    exact or_congr_left List.isPrefixOf_iff_prefix

theorem not_occurs_of_infix (some : w ≠ []) (absent : Text.occurs w t = false) (inside : s <:+: t) :
    Text.occurs w s = false := by
  refine Bool.eq_false_iff.mpr fun occurs => Bool.eq_false_iff.mp absent ?_
  exact (occurs_iff_inside some).mpr (((occurs_iff_inside some).mp occurs).trans inside)

/-- Without comments a line of code ends in front of its first slashes. -/
theorem dropComments_append_below {u : List Char} (opens : Text.occurs ['/', '*'] l = false)
    (single : '\n' ∉ l) (below : BeginsBelow u) :
    dropComments (l ++ u) = Text.cutBefore ['/', '/'] l ++ dropComments u := by
  induction l with
  | nil => rfl
  | cons c r ih =>
    obtain ⟨star, later⟩ := Bool.or_eq_false_iff.mp opens
    obtain ⟨_, rest⟩ := not_or.mp (List.mem_cons.not.mp single)
    rcases slashes_cases c r with ⟨t, rfl, rfl⟩ | ⟨none, apart⟩
    · obtain ⟨_, behind⟩ := not_or.mp (List.mem_cons.not.mp rest)
      rw [List.cons_append, List.cons_append, dropComments_line, dropWhile_of_single behind below]
      rfl
    · have plain : c = '/' → ∀ d ∈ (r ++ u).head?, d ≠ '*' ∧ d ≠ '/' := by
        rintro rfl d first
        cases r with
        | nil =>
          rw [below d first]
          decide
        | cons e r =>
          cases first
          refine ⟨?_, fun same => apart r rfl (by rw [same])⟩
          rintro rfl
          cases star
      rw [List.cons_append, dropComments_cons plain, ih later rest, Text.cutBefore, none]
      rfl

theorem dropComments_below (opens : ∀ l ∈ ls, Text.occurs ['/', '*'] l = false)
    (single : ∀ l ∈ ls, '\n' ∉ l) :
    dropComments (Text.below ls) = Text.below (ls.map (Text.cutBefore ['/', '/'])) := by
  induction ls with
  | nil => exact dropComments_nil
  | cons l ls ih =>
    obtain ⟨here, opens⟩ := List.forall_mem_cons.mp opens
    obtain ⟨line, single⟩ := List.forall_mem_cons.mp single
    have down : Text.below (l :: ls) = '\n' :: (l ++ Text.below ls) := rfl
    rw [down, dropComments_cons (by rintro ⟨⟩),
      dropComments_append_below here line (beginsBelow_below ls), ih opens single]
    rfl

theorem dropComments_unlines (opens : ∀ l ∈ ls, Text.occurs ['/', '*'] l = false)
    (single : ∀ l ∈ ls, '\n' ∉ l) :
    dropComments (Text.unlines ls) = Text.unlines (ls.map (Text.cutBefore ['/', '/'])) := by
  cases ls with
  | nil => exact dropComments_nil
  | cons l ls =>
    obtain ⟨here, opens⟩ := List.forall_mem_cons.mp opens
    obtain ⟨line, single⟩ := List.forall_mem_cons.mp single
    rw [List.map_cons, Text.unlines_cons_below, Text.unlines_cons_below,
      dropComments_append_below here line (beginsBelow_below ls), dropComments_below opens single]

/-- What a line with an address goes on with behind the text in front of it. -/
def addressTail (l : List Char) : List Char := ':' :: '_' :: '_' :: behindSlashes l

/-- The slashes of a line that the scanner keeps as it is belong to an address. -/
theorem kept_cases (kept : withoutComment l = l) :
    Text.occurs ['/', '/'] l = false ∨
      ∃ front, Text.cutBefore ['/', '/'] l = front ++ [':'] ∧ maskSlashes l = front ++ addressTail l := by
  cases occurs : Text.occurs ['/', '/'] l with
  | false => exact .inl rfl
  | true =>
    simp only [withoutComment] at kept
    split_ifs at kept with colon
    · obtain ⟨front, cut⟩ := List.getLast?_eq_some_iff.mp colon
      refine .inr ⟨front, cut, ?_⟩
      rw [(split_slashes occurs).2, cut, List.append_assoc]
      rfl
    · have none := not_occurs_cutBefore l
      rw [kept, occurs] at none
      cases none

theorem suffix_of_suffix_append_cons {a x : List Char} (absent : c ∉ w) (ends : w <:+ a ++ c :: x) :
    w <:+ x := by
  rcases List.suffix_or_suffix_of_suffix ends (List.suffix_append a (c :: x)) with shorter | longer
  · rcases List.suffix_cons_iff.mp shorter with rfl | inside
    · exact absurd List.mem_cons_self absent
    · exact inside
  · exact absurd (longer.subset List.mem_cons_self) absent

/-- A line with an address awaits a name where what stands behind the slashes does. -/
theorem awaitsName_of_addressTail (awaits : AwaitsName (addressTail l)) :
    AwaitsName (behindSlashes l) := by
  obtain ⟨w, listed, ends⟩ := awaits
  have sign : ∀ w ∈ namingWords, '_' ∉ '@' :: w := by decide
  have text : Text.allBlank ('_' :: behindSlashes l) = false := rfl
  have trimmed : Text.trimRight (addressTail l) = [':', '_'] ++ '_' :: Text.trimRight (behindSlashes l) := by
    have split : addressTail l = [':', '_'] ++ '_' :: behindSlashes l := rfl
    rw [split, Text.trimRight_append_of_text _ text, Text.trimRight]
    cases Text.trimRight (behindSlashes l) <;> rfl
  rw [trimmed] at ends
  exact ⟨w, listed, suffix_of_suffix_append_cons (sign w listed) ends⟩

section

variable (k : Kind)

theorem namesRead_colon (s t : List Char) :
    namesRead (s ++ ':' :: t) k = namesRead s k ++ namesRead (':' :: t) k :=
  namesRead_append (.inl rfl) t k

theorem namesRead_void : namesRead [] k = [] :=
  List.self_eq_append_left.mp (namesRead_colon k [] [])

theorem namesRead_below (closed : ¬AwaitsName s) (ls : List (List Char)) :
    namesRead (s ++ Text.below ls) k = namesRead s k ++ namesRead (Text.below ls) k := by
  cases ls with
  | nil => simp [Text.below, namesRead_void]
  | cons l ls => exact namesRead_append (.inr ⟨rfl, closed⟩) _ k

theorem namesRead_unlines (ls : List (List Char)) :
    namesRead (Text.unlines ls) k = namesRead (Text.below ls) k := by
  cases ls with
  | nil => rfl
  | cons l ls =>
    rw [Text.unlines_cons_below]
    exact (namesRead_line _ k).symm

/-- The names of a text in which a colon and what follows it end a line. -/
theorem namesRead_parts (closed : ¬AwaitsName (':' :: t)) (s : List Char) (ls : List (List Char)) :
    namesRead (s ++ (':' :: t ++ Text.below ls)) k =
      namesRead s k ++ (namesRead (':' :: t) k ++ namesRead (Text.below ls) k) := by
  rw [List.cons_append, namesRead_colon, ← List.cons_append, namesRead_below k closed]

/-- The names of masked lines are those of the lines that end in front of their slashes, with the names
behind the slashes between them. -/
theorem namesRead_masked (kept : ∀ l ∈ ls, withoutComment l = l)
    (closed : ∀ l ∈ ls, ¬AwaitsName (behindSlashes l)) (above : List Char) :
    let cut := namesRead (above ++ Text.below (ls.map (Text.cutBefore ['/', '/']))) k
    let masked := namesRead (above ++ Text.below (ls.map maskSlashes)) k
    cut.Sublist masked ∧ masked.Perm (cut ++ ls.flatMap fun l => namesRead (addressTail l) k) := by
  induction ls generalizing above with
  | nil => simp
  | cons l ls ih =>
    obtain ⟨here, kept⟩ := List.forall_mem_cons.mp kept
    obtain ⟨ends, closed⟩ := List.forall_mem_cons.mp closed
    have down : ∀ g : List Char → List Char, above ++ Text.below ((l :: ls).map g) =
        above ++ '\n' :: (g l ++ Text.below (ls.map g)) := fun _ => rfl
    rw [down, down, List.flatMap_cons]
    rcases kept_cases here with plain | ⟨front, cut, masked⟩
    · obtain ⟨same, void⟩ := maskSlashes_of_not_occurs plain
      have nothing : namesRead (addressTail l) k = [] := by
        rw [addressTail, void]
        cases k <;> decide +kernel
      have further : ∀ u : List Char, above ++ '\n' :: (l ++ u) = (above ++ '\n' :: l) ++ u := by simp
      rw [same, Text.cutBefore_of_not_occurs plain, nothing, further, further]
      exact ih kept closed _
    · have closed' : ¬AwaitsName (addressTail l) := fun awaits => ends (awaitsName_of_addressTail awaits)
      have colon : namesRead [':'] k = [] := by cases k <;> decide +kernel
      have before : ∀ x u : List Char, above ++ '\n' :: (front ++ x ++ u) =
          (above ++ '\n' :: front) ++ (x ++ u) := by simp
      rw [cut, masked, before, before, namesRead_parts k (t := []) (by decide), addressTail,
        namesRead_parts k closed', colon, List.nil_append]
      obtain ⟨listed, order⟩ := ih kept closed []
      constructor
      · exact (listed.trans (List.sublist_append_right _ _)).append_left _
      · rw [List.append_assoc]
        exact ((order.append_left _).trans (List.perm_append_comm_assoc _ _ _)).append_left _

end

/-- Whether a name counts as a use of a construct of the kind, with these parameters. -/
def countsAs (own : List String) (k : Kind) (name : List Char) : Bool :=
  match k with
  | .function => !commonFunctions.contains (String.ofList name)
  | .var => !own.contains (String.ofList name)
  | _ => true

/-- The kinds of the constructs that code uses. -/
def usedKinds : List Kind := [.function, .mixin, .placeholder, .var]

variable {r : Record} {own : List String}

/-- The uses of code are the names that are read for each kind and count. -/
theorem usesOf_eq (r : Record) (code : List Char) : usesOf r code = usedKinds.flatMap fun k =>
    ((namesRead code k).filter (countsAs (ownParameters r code) k)).map fun n => (k, String.ofList n) := by
  have whole : ∀ (k : Kind) (names : List (List Char)), (∀ n, countsAs (ownParameters r code) k n = true) →
      names.filter (countsAs (ownParameters r code) k) = names :=
    fun k names counts => List.filter_eq_self.mpr fun n _ => counts n
  simp only [usedKinds, List.flatMap_cons, List.flatMap_nil, List.append_nil, usesOf, List.filter_map]
  rw [whole .mixin _ fun _ => rfl, whole .placeholder _ fun _ => rfl]
  simp only [List.append_assoc]
  rfl

theorem mem_usesOf_iff {code : List Char} {use : Kind × String} : use ∈ usesOf r code ↔
    ∃ n ∈ namesRead code use.1, countsAs (ownParameters r code) use.1 n = true ∧
      use.2 = String.ofList n := by
  rw [usesOf_eq, List.mem_flatMap]
  constructor
  · rintro ⟨k, _, listed⟩
    obtain ⟨n, kept, rfl⟩ := List.mem_map.mp listed
    obtain ⟨read, counts⟩ := List.mem_filter.mp kept
    exact ⟨n, read, counts, rfl⟩
  · rintro ⟨n, read, counts, name⟩
    refine ⟨use.1, ?_, List.mem_map.mpr ⟨n, List.mem_filter.mpr ⟨read, counts⟩, by rw [← name]⟩⟩
    generalize use.1 = k at read
    cases k with
    | css => cases read
    | unknown => cases read
    | _ => decide

/-- What a line uses behind its first slashes, parameters aside. -/
def usesBehind (r : Record) (own : List String) (l : List Char) : List (Kind × String) :=
  (usesOf r (addressTail l)).filter fun use => !(use.1 = .var && own.contains use.2)

/-- A text that begins with a colon is no signature. -/
theorem ownParameters_addressTail (r : Record) (l code : List Char) :
    ownParameters r (addressTail l) ⊆ ownParameters r code := by
  have none : signatureParameters (String.ofList (addressTail l)) = [] := by
    rw [signatureParameters, String.toList_ofList]
    rfl
  rw [ownParameters, none]
  exact List.subset_append_right _ _

theorem mem_usesBehind_iff {code : List Char} (given : ownParameters r code = own) {use : Kind × String} :
    use ∈ usesBehind r own l ↔ ∃ n ∈ namesRead (addressTail l) use.1,
      countsAs own use.1 n = true ∧ use.2 = String.ofList n := by
  subst given
  have inside := ownParameters_addressTail r l code
  rw [usesBehind, List.mem_filter, mem_usesOf_iff]
  obtain ⟨k, name⟩ := use
  cases k with
  | var =>
    constructor
    · rintro ⟨⟨n, read, _, rfl⟩, other⟩
      exact ⟨n, read, by simpa [countsAs] using other, rfl⟩
    · rintro ⟨n, read, counts, rfl⟩
      have other : String.ofList n ∉ ownParameters r code := by simpa [countsAs] using counts
      exact ⟨⟨n, read, by simpa [countsAs] using fun own => other (inside own), rfl⟩, by simpa using other⟩
  | _ => simp [countsAs]

/-- What is added to a list in places and does not count leaves what counts. -/
theorem filter_eq_of_sublist_of_perm {α : Type} {as bs more : List α} {p : α → Bool}
    (listed : as.Sublist bs) (order : bs.Perm (as ++ more)) (none : ∀ a ∈ more, p a = false) :
    bs.filter p = as.filter p := by
  refine ((listed.filter p).eq_of_length ?_).symm
  have void : more.filter p = [] := List.filter_eq_nil_iff.mpr fun a inside => by simp [none a inside]
  rw [(order.filter p).length_eq, List.filter_append, void, List.append_nil]

section

variable (kept : ∀ l ∈ ls, withoutComment l = l) (closed : ∀ l ∈ ls, ¬AwaitsName (behindSlashes l))
  (given : ownParameters r (Text.unlines (ls.map (Text.cutBefore ['/', '/']))) = own)
  (alike : ownParameters r (Text.unlines (ls.map maskSlashes)) = own)

include kept closed given alike

/-- Masked lines use what the text in front of the slashes uses, and what stands behind these. -/
theorem mem_usesOf_masked {use : Kind × String} : use ∈ usesOf r (Text.unlines (ls.map maskSlashes)) ↔
    use ∈ usesOf r (Text.unlines (ls.map (Text.cutBefore ['/', '/']))) ∨
      ∃ l ∈ ls, use ∈ usesBehind r own l := by
  have names : ∀ n, n ∈ namesRead (Text.unlines (ls.map maskSlashes)) use.1 ↔
      n ∈ namesRead (Text.unlines (ls.map (Text.cutBefore ['/', '/']))) use.1 ∨
        ∃ l ∈ ls, n ∈ namesRead (addressTail l) use.1 := by
    intro n
    rw [namesRead_unlines, namesRead_unlines, ← List.mem_flatMap, ← List.mem_append]
    exact (namesRead_masked use.1 kept closed []).2.mem_iff
  simp only [mem_usesBehind_iff given, mem_usesOf_iff, alike, given, names]
  constructor
  · rintro ⟨n, before | ⟨l, inside, behind⟩, counts⟩
    · exact .inl ⟨n, before, counts⟩
    · exact .inr ⟨l, inside, n, behind, counts⟩
  · rintro (⟨n, before, counts⟩ | ⟨l, inside, n, behind, counts⟩)
    · exact ⟨n, .inl before, counts⟩
    · exact ⟨n, .inr ⟨l, inside, behind⟩, counts⟩

/-- Where nothing is used behind slashes, masked lines use the same. -/
theorem usesOf_masked_eq (idle : ∀ l ∈ ls, usesBehind r own l = []) :
    usesOf r (Text.unlines (ls.map maskSlashes)) =
      usesOf r (Text.unlines (ls.map (Text.cutBefore ['/', '/']))) := by
  rw [usesOf_eq, usesOf_eq, alike, given]
  refine congrArg (usedKinds.flatMap ·) (funext fun k => congrArg (List.map _) ?_)
  obtain ⟨listed, order⟩ := namesRead_masked k kept closed []
  rw [namesRead_unlines, namesRead_unlines]
  refine filter_eq_of_sublist_of_perm listed order fun n behind => ?_
  obtain ⟨l, inside, read⟩ := List.mem_flatMap.mp behind
  refine Bool.eq_false_iff.mpr fun counts => ?_
  have used : (k, String.ofList n) ∈ usesBehind r own l :=
    (mem_usesBehind_iff given).mpr ⟨n, read, counts, rfl⟩
  rw [idle l inside] at used
  cases used

end

/-- A masked line opens no comment. -/
theorem plain_maskSlashes (opens : Text.occurs ['/', '*'] l = false)
    (once : Text.occurs ['/', '/'] (behindSlashes l) = false) :
    Text.occurs ['/', '*'] (maskSlashes l) = false ∧ Text.occurs ['/', '/'] (maskSlashes l) = false := by
  cases occurs : Text.occurs ['/', '/'] l with
  | false =>
    rw [(maskSlashes_of_not_occurs occurs).1]
    exact ⟨opens, occurs⟩
  | true =>
    obtain ⟨whole, masked⟩ := split_slashes occurs
    have front := (Text.cutBefore_begins ['/', '/'] l).isInfix
    have behind : behindSlashes l <:+: l := ⟨Text.cutBefore ['/', '/'] l ++ ['/', '/'], [], by
      simpa using whole.symm⟩
    have parts : ∀ w : List Char, w ≠ [] → '_' ∉ w → Text.occurs w (maskSlashes l) =
        (Text.occurs w (Text.cutBefore ['/', '/'] l) || Text.occurs w (behindSlashes l)) := by
      intro w some absent
      have last := occurs_append_cons some absent [] (behindSlashes l)
      rw [masked, occurs_append_cons some absent]
      exact congrArg (_ || ·) last
    rw [parts _ (by decide) (by decide), parts _ (by decide) (by decide), not_occurs_cutBefore, once,
      not_occurs_of_infix (by decide) opens front, not_occurs_of_infix (by decide) opens behind]
    exact ⟨rfl, rfl⟩

theorem not_mem_maskSlashes (single : '\n' ∉ l) : '\n' ∉ maskSlashes l := by
  cases occurs : Text.occurs ['/', '/'] l with
  | false => rwa [(maskSlashes_of_not_occurs occurs).1]
  | true =>
    obtain ⟨whole, masked⟩ := split_slashes occurs
    rw [whole] at single
    rw [masked]
    simpa using single

end SheetDoc
