import SheetDoc.Code.Declaration
import SheetDoc.Proofs.Text.Lines

namespace SheetDoc

namespace Text

variable {s t b : List Char}

-- Without this all characters there are may be gone through, where those of the text are meant.
instance decidableForallMem (s : List Char) (p : Char → Prop) [DecidablePred p] : Decidable (∀ c ∈ s, p c) :=
  List.decidableBAll p s

/-- A name as stylesheets have it. -/
structure IsName (s : List Char) : Prop where
  nonempty : s ≠ []
  all : ∀ c ∈ s, isNameChar c = true

instance (s : List Char) : Decidable (IsName s) :=
  decidable_of_iff (s ≠ [] ∧ ∀ c ∈ s, isNameChar c = true)
    ⟨fun ⟨nonempty, all⟩ => ⟨nonempty, all⟩, fun name => ⟨name.nonempty, name.all⟩⟩

/-- A text that neither begins nor ends with a blank. -/
def IsTrimmed (s : List Char) : Prop := trim s = s

instance (s : List Char) : Decidable (IsTrimmed s) := inferInstanceAs (Decidable (trim s = s))

theorem IsName.not_mem (name : IsName s) {c : Char} (other : isNameChar c = false) : c ∉ s := by
  intro member
  rw [name.all c member] at other
  cases other

def blankPoints : List Nat :=
  [0x9, 0xA, 0xB, 0xC, 0xD, 0x1C, 0x1D, 0x1E, 0x1F, 0x20, 0x85, 0xA0, 0x1680, 0x2000, 0x2001, 0x2002,
    0x2003, 0x2004, 0x2005, 0x2006, 0x2007, 0x2008, 0x2009, 0x200A, 0x2028, 0x2029, 0x202F, 0x205F,
    0x3000]

/-- There are only so many blanks. -/
theorem of_isBlank {p : Char → Prop} (each : ∀ n ∈ blankPoints, p (Char.ofNat n)) {c : Char}
    (blank : isBlank c = true) : p c := by
  have listed : c.toNat ∈ blankPoints := by
    simp only [isBlank, Bool.or_eq_true, Bool.and_eq_true, decide_eq_true_eq, beq_iff_eq] at blank
    simp only [blankPoints, List.mem_cons, List.not_mem_nil, or_false]
    omega
  rw [← Char.ofNat_toNat c]
  exact each _ listed

theorem isNameChar_of_isBlank {c : Char} (blank : isBlank c = true) : isNameChar c = false :=
  of_isBlank (p := fun c => isNameChar c = false) (by decide +kernel) blank

theorem isBlank_of_isNameChar {c : Char} (name : isNameChar c = true) : isBlank c = false := by
  by_contra blank
  rw [isNameChar_of_isBlank (by simpa using blank)] at name
  cases name

theorem not_mem_of_allBlank (blank : allBlank s = true) {c : Char} (text : isBlank c = false) :
    c ∉ s := by
  intro member
  rw [List.all_eq_true.mp blank c member] at text
  cases text

theorem trimLeft_append (blank : allBlank b = true) (s : List Char) : trimLeft (b ++ s) = trimLeft s := by
  unfold trimLeft
  exact List.dropWhile_append_of_pos (List.all_eq_true.mp blank)

theorem trimLeft_of_head {c : Char} (text : isBlank c = false) (s : List Char) :
    trimLeft (c :: s) = c :: s :=
  List.dropWhile_cons_of_neg (by simp [text])

theorem trimLeft_of_solid (solid : ∀ c ∈ s.head?, isBlank c = false) : trimLeft s = s := by
  cases s with
  | nil => rfl
  | cons c r => exact trimLeft_of_head (solid c rfl) r

theorem trimLeft_of_allBlank (blank : allBlank s = true) : trimLeft s = [] :=
  List.dropWhile_eq_nil_iff.mpr (List.all_eq_true.mp blank)

theorem head?_trimLeft (s : List Char) : ∀ c ∈ (trimLeft s).head?, isBlank c = false := by
  intro c first
  have solid := List.head?_dropWhile_not isBlank s
  rwa [show (s.dropWhile isBlank).head? = some c from first] at solid

theorem trim_trimLeft (s : List Char) : trim (trimLeft s) = trim s := by
  rw [trim, trimLeft_of_solid (head?_trimLeft s), trim]

theorem trim_append_left (blank : allBlank b = true) (s : List Char) : trim (b ++ s) = trim s := by
  rw [trim, trimLeft_append blank, trim]

/-- Blanks on both sides go. -/
theorem trim_between {a : List Char} (before : allBlank b = true) (after : allBlank a = true)
    (s : List Char) : trim (b ++ (s ++ a)) = trim s := by
  rw [trim_append_left before, trim_append s after]

/-- Text behind others keeps what stands before it from being trimmed. -/
theorem trimRight_append_of_text (s : List Char) {t : List Char} (text : allBlank t = false) :
    trimRight (s ++ t) = s ++ trimRight t := by
  induction s with
  | nil => rfl
  | cons c r ih =>
    rw [List.cons_append, trimRight, ih]
    split
    · rename_i void
      have none := (List.append_eq_nil_iff.mp void).2
      rw [trimRight_eq_nil_iff.mp none] at text
      cases text
    · rename_i same
      rw [← same, List.cons_append]

theorem trimRight_concat {c : Char} (text : isBlank c = false) (s : List Char) :
    trimRight (s ++ [c]) = s ++ [c] := by
  rw [trimRight_append_of_text s (by simp [allBlank, text])]
  simp [trimRight, text]

theorem trimRight_of_last (last : ∀ c ∈ s.getLast?, isBlank c = false) : trimRight s = s := by
  rcases List.eq_nil_or_concat s with rfl | ⟨r, c, rfl⟩
  · rfl
  · rw [List.concat_eq_append] at last ⊢
    exact trimRight_concat (last c List.getLast?_concat) r

theorem trimRight_cons_of_text {c : Char} (text : isBlank c = false) (s : List Char) :
    trimRight (c :: s) = c :: trimRight s := by
  rw [trimRight]
  split
  · rename_i void
    rw [void, if_neg (by simp [text])]
  · rename_i same
    rw [same]

theorem exists_trimRight (s : List Char) : ∃ a, allBlank a = true ∧ s = trimRight s ++ a := by
  induction s with
  | nil => exact ⟨[], rfl, rfl⟩
  | cons c r ih =>
    obtain ⟨a, blank, same⟩ := ih
    cases text : isBlank c with
    | false =>
      refine ⟨a, blank, ?_⟩
      rw [trimRight_cons_of_text text, List.cons_append, ← same]
    | true =>
      by_cases void : trimRight r = []
      · refine ⟨c :: r, ?_, by simp [trimRight, void, text]⟩
        simpa [allBlank, text] using trimRight_eq_nil_iff.mp void
      · obtain ⟨d, t, left⟩ := List.exists_cons_of_ne_nil void
        refine ⟨a, blank, ?_⟩
        rw [trimRight, left, List.cons_append, ← left, ← same]

theorem last_trimRight (s : List Char) : ∀ c ∈ (trimRight s).getLast?, isBlank c = false := by
  induction s with
  | nil => rintro _ ⟨⟩
  | cons c r ih =>
    rw [trimRight]
    split
    · split_ifs with blank
      · rintro _ ⟨⟩
      · rintro _ ⟨⟩
        simpa using blank
    · rename_i d t left
      rw [List.getLast?_cons_cons, ← left]
      exact ih

/-- What is trimmed off a text are blanks. -/
theorem exists_trim (s : List Char) :
    ∃ b a, allBlank b = true ∧ allBlank a = true ∧ s = b ++ (trim s ++ a) := by
  obtain ⟨a, blank, same⟩ := exists_trimRight (trimLeft s)
  refine ⟨s.takeWhile isBlank, a, List.all_eq_true.mpr fun c => List.mem_takeWhile_imp, blank, ?_⟩
  rw [trim, ← same]
  exact (List.takeWhile_append_dropWhile).symm

theorem mem_trimRight {c : Char} (member : c ∈ s) (text : isBlank c = false) : c ∈ trimRight s := by
  obtain ⟨a, after, same⟩ := exists_trimRight s
  rw [same] at member
  simpa [not_mem_of_allBlank after text] using member

theorem mem_trim {c : Char} (member : c ∈ s) (text : isBlank c = false) : c ∈ trim s := by
  obtain ⟨b, a, before, after, same⟩ := exists_trim s
  rw [same] at member
  simpa [not_mem_of_allBlank before text, not_mem_of_allBlank after text] using member

/-- How much text there is, blanks not counted. -/
def ink (s : List Char) : Nat := s.countP (!isBlank ·)

theorem ink_append (s t : List Char) : ink (s ++ t) = ink s + ink t := List.countP_append

theorem ink_of_allBlank (blank : allBlank s = true) : ink s = 0 :=
  List.countP_eq_zero.mpr fun c member => by simpa using List.all_eq_true.mp blank c member

theorem ink_pos {c : Char} (member : c ∈ s) (text : isBlank c = false) : 0 < ink s :=
  List.countP_pos_iff.mpr ⟨c, member, by simp [text]⟩

theorem ink_trim (s : List Char) : ink (trim s) = ink s := by
  obtain ⟨b, a, before, after, same⟩ := exists_trim s
  have whole := congrArg ink same
  simp only [ink_append, ink_of_allBlank before, ink_of_allBlank after] at whole
  omega

/-- A text is trimmed when neither its first character nor its last is blank. -/
theorem isTrimmed_iff :
    IsTrimmed s ↔ (∀ c ∈ s.head?, isBlank c = false) ∧ ∀ c ∈ s.getLast?, isBlank c = false := by
  constructor
  · intro trimmed
    have left : trimLeft s <:+ s := trimLeft_suffix s
    have right : trimRight (trimLeft s) <+: trimLeft s := trimRight_begins (trimLeft s)
    have whole : trimLeft s = s := by
      refine left.eq_of_length_le ?_
      have shorter := right.length_le
      rwa [show trimRight (trimLeft s) = s from trimmed] at shorter
    refine ⟨fun c first => ?_, fun c last => ?_⟩
    · obtain ⟨r, rfl⟩ := List.head?_eq_some_iff.mp first
      by_contra blank
      have shorter := trimLeft_length_le r
      rw [trimLeft, List.dropWhile_cons_of_pos (by simpa using blank)] at whole
      rw [trimLeft, whole, List.length_cons] at shorter
      omega
    · obtain ⟨r, rfl⟩ := List.getLast?_eq_some_iff.mp last
      by_contra blank
      have shorter := (trimRight_begins r).length_le
      rw [IsTrimmed, trim, whole, trimRight_append r (by simpa [allBlank] using blank)] at trimmed
      rw [trimmed, List.length_append, List.length_singleton] at shorter
      omega
  · rintro ⟨first, last⟩
    cases s with
    | nil => rfl
    | cons c r =>
      rw [IsTrimmed, trim, trimLeft_of_head (first c rfl)]
      exact trimRight_of_last last

variable {sep : Char}

theorem breakAt?_append (absent : sep ∉ s) (t : List Char) :
    breakAt? sep (s ++ sep :: t) = some (s, t) := by
  induction s with
  | nil => exact if_pos rfl
  | cons c r ih =>
    obtain ⟨here, later⟩ := not_or.mp (List.mem_cons.not.mp absent)
    rw [List.cons_append, breakAt?, if_neg (Ne.symm here), ih later]
    rfl

theorem breakAt?_fst {a : List Char} (found : breakAt? sep s = some (a, t)) :
    a = s.takeWhile (· != sep) := by
  induction s generalizing a with
  | nil => cases found
  | cons c r ih =>
    rw [breakAt?] at found
    split_ifs at found with here
    · cases found
      simp [here]
    · obtain ⟨⟨a', t'⟩, found, same⟩ := Option.map_eq_some_iff.mp found
      cases same
      rw [ih found, List.takeWhile_cons_of_pos (by simpa using here)]

theorem breakAt?_eq_none (absent : sep ∉ s) : breakAt? sep s = none := by
  induction s with
  | nil => rfl
  | cons c r ih =>
    obtain ⟨here, later⟩ := not_or.mp (List.mem_cons.not.mp absent)
    rw [breakAt?, if_neg (Ne.symm here), ih later]
    rfl

theorem takeWhile_append_of_absent (absent : sep ∉ s) (t : List Char) :
    (s ++ t).takeWhile (· != sep) = s ++ t.takeWhile (· != sep) :=
  List.takeWhile_append_of_pos fun c member => by
    simpa using fun same : c = sep => absent (same ▸ member)

end Text

/-- A name is read up to what no name has. -/
theorem readName?_append {n t : List Char} (name : Text.IsName n)
    (apart : ∀ c ∈ t.head?, Text.isNameChar c = false) : readName? (n ++ t) = some (n, t) := by
  obtain ⟨c, r, rfl⟩ := List.exists_cons_of_ne_nil name.nonempty
  have taken : (c :: r ++ t).takeWhile Text.isNameChar = c :: r := by
    rw [List.takeWhile_append_of_pos name.all]
    cases t with
    | nil => simp
    | cons d t => rw [List.takeWhile_cons_of_neg (by simp [apart d rfl]), List.append_nil]
  have left : (c :: r ++ t).dropWhile Text.isNameChar = t := by
    rw [List.dropWhile_append_of_pos name.all]
    cases t with
    | nil => rfl
    | cons d t => exact List.dropWhile_cons_of_neg (by simp [apart d rfl])
  simp only [readName?, taken, left]

end SheetDoc
