import SheetDoc.Proofs.Text.Names

namespace SheetDoc.Text

/-- A space in front of a text, unless it has one or there is no text. -/
def spaced : List Char → List Char
  | [] => []
  | c :: r => if c = ' ' then c :: r else ' ' :: c :: r

/-- The text with one space for each run of blanks, and none at its end. -/
def squeeze : List Char → List Char
  | [] => []
  | c :: r => if isBlank c then spaced (squeeze r) else c :: squeeze r

section

variable {c : Char} {s t : List Char}

theorem squeeze_cons_blank (blank : isBlank c = true) (r : List Char) :
    squeeze (c :: r) = spaced (squeeze r) := if_pos blank

theorem squeeze_cons_text (text : isBlank c = false) (r : List Char) : squeeze (c :: r) = c :: squeeze r :=
  if_neg (by simp [text])

theorem spaced_space (t : List Char) : spaced (' ' :: t) = ' ' :: t := rfl

/-- What does not tell two spaces from one, nor one from none at the end, finds the same behind a
space. -/
theorem congr_spaced {β : Sort*} (f : List Char → β) (last : f [' '] = f [])
    (twice : ∀ t, f (' ' :: ' ' :: t) = f (' ' :: t)) (t : List Char) : f (spaced t) = f (' ' :: t) := by
  cases t with
  | nil => exact last.symm
  | cons c r =>
    rw [spaced]
    split_ifs with space
    · rw [space, twice]
    · rfl

/-- What goes on alike behind each blank, however many there are, finds the same in a squeezed text that
begins with one. -/
theorem congr_squeeze_cons {β : Sort*} (f g : List Char → β) (void : f [] = g [])
    (skips : ∀ c, isBlank c = true → ∀ r, f (c :: r) = g r)
    (again : ∀ c, isBlank c = true → ∀ r, g (c :: r) = g r) (blank : isBlank c = true)
    (same : g (squeeze s) = g s) : f (squeeze (c :: s)) = f (c :: s) := by
  have space : isBlank ' ' = true := by decide
  have behind : f (spaced (squeeze s)) = f (' ' :: squeeze s) := by
    refine congr_spaced f ?_ (fun t => ?_) _
    · rw [skips ' ' space, void]
    · rw [skips ' ' space, skips ' ' space, again ' ' space]
  rw [squeeze_cons_blank blank, behind, skips ' ' space, same, skips c blank]

theorem spaced_spaced (t : List Char) : spaced (spaced t) = spaced t := by
  cases t with
  | nil => rfl
  | cons c r =>
    rw [spaced]
    split_ifs with space
    · rw [space, spaced_space]
    · rw [spaced_space]

theorem squeeze_append_congr (s : List Char) {t t' : List Char} (same : squeeze t = squeeze t') :
    squeeze (s ++ t) = squeeze (s ++ t') := by
  induction s with
  | nil => exact same
  | cons c r ih => rw [List.cons_append, List.cons_append, squeeze, squeeze, ih]

theorem squeeze_eq_nil_iff : squeeze s = [] ↔ allBlank s = true := by
  induction s with
  | nil => exact iff_of_true rfl rfl
  | cons c r ih =>
    cases text : isBlank c with
    | true =>
      have void : ∀ t, spaced t = [] ↔ t = [] := by
        intro t
        cases t with
        | nil => exact Iff.rfl
        | cons d t =>
          rw [spaced]
          split_ifs <;> simp
      rw [squeeze_cons_blank text, void, ih, allBlank, allBlank, List.all_cons, text, Bool.true_and]
    | false => simp [squeeze_cons_text text, allBlank, text]

/-- Blanks in front of some count as one, and as none at the end. -/
theorem squeeze_append_of_allBlank (blank : allBlank s = true) (t : List Char) :
    squeeze (s ++ t) = if s = [] then squeeze t else spaced (squeeze t) := by
  induction s with
  | nil => rfl
  | cons c r ih =>
    obtain ⟨here, later⟩ := Bool.and_eq_true_iff.mp (show (isBlank c && allBlank r) = true from blank)
    rw [List.cons_append, squeeze_cons_blank here, ih later, if_neg (List.cons_ne_nil c r)]
    split_ifs
    · rfl
    · exact spaced_spaced _

/-- Only blanks change, so a text without any stays as it is. -/
theorem squeeze_of_solid (solid : ∀ c ∈ s, isBlank c = false) : squeeze s = s := by
  induction s with
  | nil => rfl
  | cons c r ih =>
    obtain ⟨here, later⟩ := List.forall_mem_cons.mp solid
    rw [squeeze_cons_text here, ih later]

end

theorem space_mem_spaced {t : List Char} (some : t ≠ []) : ' ' ∈ spaced t := by
  cases t with
  | nil => exact absurd rfl some
  | cons c r =>
    rw [spaced]
    split_ifs with space
    · exact space ▸ List.mem_cons_self
    · exact List.mem_cons_self

/-- Where no space is left and the text does not end with a blank, it had none. -/
theorem squeeze_eq_self {s : List Char} (last : ∀ c ∈ s.getLast?, isBlank c = false)
    (solid : ' ' ∉ squeeze s) : squeeze s = s := by
  induction s with
  | nil => rfl
  | cons c r ih =>
    have later : ∀ d ∈ r.getLast?, isBlank d = false := fun d ends => last d (by
      rw [List.getLast?_cons, show r.getLast? = some d from ends]
      rfl)
    cases text : isBlank c with
    | true =>
      rw [squeeze_cons_blank text] at solid
      by_cases void : squeeze r = []
      · -- all is blank, the end with it
        have whole : allBlank (c :: r) = true :=
          Bool.and_eq_true_iff.mpr ⟨text, squeeze_eq_nil_iff.mp void⟩
        obtain ⟨d, ends⟩ := Option.isSome_iff_exists.mp (List.getLast?_isSome.mpr (List.cons_ne_nil c r))
        have blank := List.all_eq_true.mp whole d (List.mem_of_getLast? ends)
        rw [last d ends] at blank
        cases blank
      · exact absurd (space_mem_spaced void) solid
    | false =>
      rw [squeeze_cons_text text] at solid ⊢
      rw [ih later fun inside => solid (List.mem_cons_of_mem c inside)]

theorem squeeze_append_blank {b : List Char} (s : List Char) (blank : allBlank b = true) :
    squeeze (s ++ b) = squeeze s := by
  have same : squeeze b = squeeze [] := squeeze_eq_nil_iff.mpr blank
  rw [squeeze_append_congr s same, List.append_nil]

section

variable {p : Char → Bool} (stop : ∀ c, isBlank c = true → p c = false)

include stop

theorem takeWhile_spaced (t : List Char) : (spaced t).takeWhile p = [] := by
  have space : p ' ' = false := stop ' ' (by decide)
  refine (congr_spaced (List.takeWhile p ·) ?_ (fun t => ?_) t).trans ?_ <;>
    simp [space]

theorem takeWhile_squeeze (s : List Char) : (squeeze s).takeWhile p = s.takeWhile p := by
  induction s with
  | nil => rfl
  | cons c r ih =>
    cases text : isBlank c with
    | true =>
      rw [squeeze_cons_blank text, takeWhile_spaced stop,
        List.takeWhile_cons_of_neg (by simp [stop c text])]
    | false => rw [squeeze_cons_text text, List.takeWhile_cons, List.takeWhile_cons, ih]

theorem dropWhile_spaced (t : List Char) : (spaced t).dropWhile p = spaced t := by
  have space : p ' ' = false := stop ' ' (by decide)
  cases t with
  | nil => rfl
  | cons c r =>
    rw [spaced]
    split_ifs with here
    · exact List.dropWhile_cons_of_neg (by simp [here, space])
    · exact List.dropWhile_cons_of_neg (by simp [space])

theorem dropWhile_squeeze (s : List Char) : (squeeze s).dropWhile p = squeeze (s.dropWhile p) := by
  induction s with
  | nil => rfl
  | cons c r ih =>
    cases text : isBlank c with
    | true =>
      rw [squeeze_cons_blank text, dropWhile_spaced stop, List.dropWhile_cons_of_neg (by simp [stop c text]),
        squeeze_cons_blank text]
    | false =>
      rw [squeeze_cons_text text, List.dropWhile_cons, List.dropWhile_cons, ih]
      split_ifs
      · rfl
      · exact (squeeze_cons_text text r).symm

theorem any_head?_squeeze (s : List Char) : (squeeze s).head?.any p = s.head?.any p := by
  cases s with
  | nil => rfl
  | cons c r =>
    cases text : isBlank c with
    | true =>
      have space : p ' ' = false := stop ' ' (by decide)
      rw [squeeze_cons_blank text]
      refine (congr_spaced (fun t => t.head?.any p) ?_ (fun t => rfl) _).trans ?_
      · simp [space]
      · simp [space, stop c text]
    | false => rw [squeeze_cons_text text]; rfl

end

/-- Readers that go on over blanks take the same but for these. -/
theorem squeeze_takeWhile {p : Char → Bool} (goes : ∀ c, isBlank c = true → p c = true) (s : List Char) :
    squeeze ((squeeze s).takeWhile p) = squeeze (s.takeWhile p) := by
  induction s with
  | nil => rfl
  | cons c r ih =>
    cases text : isBlank c with
    | true =>
      have skips : ∀ c, isBlank c = true → ∀ r, squeeze (List.takeWhile p (c :: r)) =
          spaced (squeeze (r.takeWhile p)) := by
        intro c blank r
        rw [List.takeWhile_cons_of_pos (goes c blank), squeeze_cons_blank blank]
      refine congr_squeeze_cons (fun t => squeeze (t.takeWhile p)) (fun t => spaced (squeeze (t.takeWhile p)))
        rfl skips (fun c blank r => ?_) text (congrArg spaced ih)
      rw [skips c blank, spaced_spaced]
    | false =>
      rw [squeeze_cons_text text, List.takeWhile_cons, List.takeWhile_cons]
      split_ifs
      · rw [squeeze_cons_text text, squeeze_cons_text text, ih]
      · rfl

theorem head?_squeeze_beq {d : Char} (text : isBlank d = false) (s : List Char) :
    ((squeeze s).head? == some d) = (s.head? == some d) := by
  have stop : ∀ c, isBlank c = true → (c == d) = false := by
    rintro c blank
    refine beq_false_of_ne fun same => ?_
    rw [same, text] at blank
    cases blank
  have any : ∀ o : Option Char, (o == some d) = o.any (· == d) := fun o => by cases o <;> rfl
  rw [any, any, any_head?_squeeze stop]

theorem trimLeft_spaced (t : List Char) : trimLeft (spaced t) = trimLeft t := by
  have space : ∀ t, trimLeft (' ' :: t) = trimLeft t := fun t => List.dropWhile_cons_of_pos (by decide)
  exact (congr_spaced trimLeft rfl (fun t => space _) t).trans (space t)

theorem trimLeft_squeeze (s : List Char) : trimLeft (squeeze s) = squeeze (trimLeft s) := by
  induction s with
  | nil => rfl
  | cons c r ih =>
    cases text : isBlank c with
    | true =>
      rw [squeeze_cons_blank text, trimLeft_spaced, ih, trimLeft, trimLeft, List.dropWhile_cons_of_pos text]
    | false =>
      rw [squeeze_cons_text text, trimLeft_of_head text, trimLeft_of_head text, squeeze_cons_text text]

theorem squeeze_trim (s : List Char) : squeeze (trim s) = trimLeft (squeeze s) := by
  obtain ⟨a, blank, same⟩ := exists_trimRight (trimLeft s)
  rw [trimLeft_squeeze, same, squeeze_append_blank _ blank]
  rfl

/-- A trimmed text is a word without blanks when its squeezed text is. -/
theorem trim_eq_iff {s w : List Char} (solid : ∀ c ∈ w, isBlank c = false) :
    trim s = w ↔ squeeze (trim s) = w := by
  constructor
  · rintro same
    rw [same, squeeze_of_solid solid]
  · intro same
    have space : ' ' ∉ squeeze (trim s) := fun inside => by
      have blank := solid ' ' (same ▸ inside)
      cases blank
    exact (squeeze_eq_self (last_trimRight _) space).symm.trans same

theorem after?_squeeze {word : List Char} (solid : ∀ c ∈ word, isBlank c = false) (s : List Char) :
    after? word (squeeze s) = (after? word s).map squeeze := by
  induction word generalizing s with
  | nil => rfl
  | cons d ds ih =>
    obtain ⟨here, later⟩ := List.forall_mem_cons.mp solid
    cases s with
    | nil => rfl
    | cons c r =>
      cases text : isBlank c with
      | false =>
        rw [squeeze_cons_text text, after?, after?]
        split_ifs
        · exact ih later r
        · rfl
      | true =>
        have other : ∀ c, isBlank c = true → d ≠ c := by
          rintro c blank rfl
          rw [here] at blank
          cases blank
        have space : ∀ t, after? (d :: ds) (' ' :: t) = none := fun t => if_neg (other ' ' (by decide))
        rw [squeeze_cons_blank text, after?, if_neg (other c text)]
        exact (congr_spaced (after? (d :: ds)) (space []) (fun t => (space _).trans (space t).symm) _).trans
          (space _)

end SheetDoc.Text
