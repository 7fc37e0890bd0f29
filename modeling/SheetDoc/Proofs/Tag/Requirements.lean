import SheetDoc.Proofs.Tag.Entries
import SheetDoc.Proofs.Text.Lowercase

namespace SheetDoc

namespace Text

theorem lowerAfter_of_ascii {s : List Char} (ascii : ∀ c ∈ s, c.toNat < 0x80) (before : List Char) :
    lowerAfter before s = s.map Char.toLower := by
  induction s generalizing before with
  | nil => rfl
  | cons c r ih =>
    obtain ⟨here, later⟩ := List.forall_mem_cons.mp ascii
    have other : (c.toNat == 0x3A3) = false := beq_false_of_ne (by omega)
    simp only [lowerAfter, other, lowerChar, here, if_true, Bool.false_eq_true, if_false, ih later,
      List.singleton_append, List.map_cons]

/-- The letters that small ones are the lower case of. -/
theorem letter_of_toLower {c : Char} (small : 0x61 ≤ c.toLower.toNat ∧ c.toLower.toNat ≤ 0x7A) :
    0x41 ≤ c.toNat ∧ c.toNat ≤ 0x7A := by
  by_cases upper : 0x41 ≤ c.toNat ∧ c.toNat ≤ 0x5A
  · omega
  · rw [toLower_of_other upper] at small
    omega

end Text

/-- A kind that a reference can name, with its word in any spelling. -/
structure SpelledKind where
  kind : Kind
  word : List Char

structure SpelledKind.IsPlain (k : SpelledKind) : Prop where
  referable : k.kind.isReferable = true
  lower : k.word.map Char.toLower = k.kind.word.toList

namespace SpelledKind

variable {k : SpelledKind}

theorem IsPlain.letter (plain : k.IsPlain) : ∀ c ∈ k.word, 0x41 ≤ c.toNat ∧ c.toNat ≤ 0x7A := by
  have small : ∀ kind : Kind, ∀ c ∈ kind.word.toList, 0x61 ≤ c.toNat ∧ c.toNat ≤ 0x7A := by
    intro kind
    cases kind <;> decide
  intro c member
  exact Text.letter_of_toLower (small k.kind _ (plain.lower ▸ List.mem_map_of_mem member))

theorem IsPlain.solid (plain : k.IsPlain) : ∀ c ∈ k.word, Text.isBlank c = false := by
  intro c member
  have letter := plain.letter c member
  refine Bool.eq_false_iff.mpr fun blank => ?_
  simp only [Text.isBlank, Bool.or_eq_true, Bool.and_eq_true, decide_eq_true_eq, beq_iff_eq] at blank
  omega

/-- The kind of a reference is the one whose word is written in any spelling. -/
theorem referredKind_word (plain : k.IsPlain) (tag : String) (sign : Option Kind) :
    referredKind tag (some k.word) sign = .ok k.kind := by
  have trimmed : Text.trim k.word = k.word := Text.isTrimmed_iff.mpr
    ⟨fun c first => plain.solid c (List.mem_of_head? first),
      fun c last => plain.solid c (List.mem_of_getLast? last)⟩
  have lowered : Text.lower (Text.trim ((some k.word).getD [])) = k.kind.word.toList := by
    rw [Option.getD_some, trimmed, ← plain.lower]
    exact Text.lowerAfter_of_ascii (fun c member => by have := plain.letter c member; omega) []
  obtain ⟨c, r, same⟩ : ∃ c r, k.kind.word.toList = c :: r := by cases k.kind <;> exact ⟨_, _, rfl⟩
  have word : String.ofList (c :: r) = k.kind.word := by rw [← same, String.ofList_toList]
  simp only [referredKind, lowered, same, word, Kind.ofWord?_word, plain.referable, if_true]

end SpelledKind

/-- The parts of a requirement as they are written. -/
structure RequireParts where
  type : Option SpelledKind
  sign : Option Char
  name : List Char
  description : Option (List Char)
  url : Option (List Char)

/-- The kind that a sign in front of a name tells. -/
def signedKind : Option Char → Kind
  | some '$' => .var
  | some '%' => .placeholder
  | _ => .function

namespace RequireParts

/-- No part ends before it is over. -/
structure IsPlain (p : RequireParts) : Prop where
  type : ∀ k ∈ p.type, k.IsPlain
  sign : ∀ c ∈ p.sign, c = '$' ∨ c = '%'
  name : Text.IsName p.name
  description : ∀ d ∈ p.description, d ≠ [] ∧ Text.IsTrimmed d ∧ '<' ∉ d
  url : ∀ u ∈ p.url, u ≠ [] ∧ Text.IsTrimmed u ∧ '>' ∉ u

def text (p : RequireParts) (g : Gaps) : String :=
  String.ofList (g.start ++ g.typed (p.type.map (·.word)) (p.sign.toList ++ (p.name ++
    g.described p.description (g.bracketed '<' '>' p.url g.ending))))

/-- The requirement that is meant. -/
def entry (p : RequireParts) : Require where
  name := String.ofList p.name
  kind := (p.type.map (·.kind)).getD (signedKind p.sign)
  description := String.ofList (p.description.getD [])
  url := p.url.map String.ofList

end RequireParts

section

variable {g : Gaps} {p : RequireParts}

theorem sigilName?_append {sign : Option Char} (signed : ∀ c ∈ sign, c = '$' ∨ c = '%') {n s : List Char}
    (name : Text.IsName n) (apart : ∀ c ∈ s.head?, Text.isNameChar c = false) :
    sigilName? (sign.toList ++ (n ++ s)) = some (sign.bind sigilKind?, n, s) := by
  have read : readName? (n ++ s) = some (n, s) := readName?_append name apart
  cases sign with
  | some c =>
    rcases signed c rfl with rfl | rfl <;> simp [sigilName?, sigilKind?, read]
  | none =>
    obtain ⟨c, r, rfl⟩ := List.exists_cons_of_ne_nil name.nonempty
    have own : sigilKind? c = none := by
      have listed := name.all c List.mem_cons_self
      unfold sigilKind?
      split
      · revert listed
        decide
      · revert listed
        decide
      · rfl
    rw [List.cons_append] at read
    simp [sigilName?, own, read]

/-- A description ends at an address, and an address at the end of the text. -/
theorem describedUrl?_append {b d : List Char} (before : Text.allBlank b = true) {url : Option (List Char)}
    (ending : Text.allBlank g.ending = true) (unopened : '<' ∉ d) (unclosed : ∀ u ∈ url, '>' ∉ u) :
    ∃ a, Text.allBlank a = true ∧
      describedUrl? (d ++ url.elim g.ending fun u => b ++ '<' :: (u ++ '>' :: g.ending)) =
        some (d ++ a, url) := by
  have gap : ∀ {b : List Char}, Text.allBlank b = true → '<' ∉ d ++ b := fun blank =>
    List.not_mem_append unopened (Text.not_mem_of_allBlank blank (by decide))
  cases url with
  | none =>
    refine ⟨g.ending, ending, ?_⟩
    simp only [Option.elim_none, describedUrl?, Text.breakAt?_eq_none (gap ending)]
  | some u =>
    refine ⟨b, before, ?_⟩
    have opens : Text.breakAt? '<' (d ++ (b ++ '<' :: (u ++ '>' :: g.ending))) =
        some (d ++ b, u ++ '>' :: g.ending) := by
      rw [← List.append_assoc]
      exact Text.breakAt?_append (gap before) _
    simp only [Option.elim_some, describedUrl?, opens, Text.breakAt?_append (unclosed u rfl), ending, if_true]

/-- What stands behind a name is its description and its address. -/
theorem describedUrl?_described (blank : g.IsBlank) (plain : p.IsPlain) :
    ∃ a, Text.allBlank a = true ∧
      describedUrl? (afterDash (Text.trimLeft (g.described p.description (g.bracketed '<' '>' p.url g.ending)))) =
        some (p.description.getD [] ++ a, p.url) := by
  have unclosed : ∀ u ∈ p.url, '>' ∉ u := fun u given => (plain.url u given).2.2
  rw [trimLeft_described blank]
  cases description : p.description with
  | some d =>
    obtain ⟨nonempty, trimmed, unopened⟩ := plain.description d description
    obtain ⟨c, r, rfl⟩ := List.exists_cons_of_ne_nil nonempty
    have first : Text.isBlank c = false := (Text.isTrimmed_iff.mp trimmed).1 c rfl
    have body : afterDash ('-' :: (g.afterDash ++ (c :: r ++ g.bracketed '<' '>' p.url g.ending))) =
        c :: r ++ g.bracketed '<' '>' p.url g.ending := by
      rw [afterDash, Text.trimLeft_append blank.afterDash, List.cons_append, Text.trimLeft_of_head first]
    rw [Option.elim_some, body]
    exact describedUrl?_append blank.beforeBracket blank.ending unopened unclosed
  | none =>
    cases url : p.url with
    | none =>
      refine ⟨[], rfl, ?_⟩
      simp only [Option.elim_none, Gaps.bracketed, Text.trimLeft_of_allBlank blank.ending]
      rfl
    | some u =>
      have body : Text.trimLeft (g.bracketed '<' '>' (some u) g.ending) = '<' :: (u ++ '>' :: g.ending) :=
        (Text.trimLeft_append blank.beforeBracket _).trans (Text.trimLeft_of_head (by decide) _)
      rw [Option.elim_none, body]
      rw [url] at unclosed
      have void : Text.allBlank [] = true := rfl
      exact describedUrl?_append void blank.ending (List.not_mem_nil : '<' ∉ []) unclosed

/-- A requirement that is written with blanks between its parts is read back. -/
theorem readRequire_text (plain : p.IsPlain) (blank : g.IsBlank) : readRequire (p.text g) = .ok p.entry := by
  let rest := g.described p.description (g.bracketed '<' '>' p.url g.ending)
  have apart : ∀ c ∈ rest.head?, Text.isNameChar c = false := by
    have gap : ∀ c, Text.isBlank c = true → Text.isNameChar c = false := fun _ => Text.isNameChar_of_isBlank
    have sign : Text.isNameChar '<' = false := by decide
    have bracketed : ∀ c ∈ (g.bracketed '<' '>' p.url g.ending).head?, Text.isNameChar c = false :=
      head?_bracketed gap blank sign p.url (head?_of_allBlank gap blank.ending)
    exact head?_described gap blank p.description bracketed
  have solid : ∀ c ∈ (p.sign.toList ++ (p.name ++ rest)).head?, Text.isBlank c = false ∧ c ≠ '\x7b' := by
    cases sign : p.sign with
    | some c =>
      rintro _ ⟨⟩
      rcases plain.sign c sign with rfl | rfl <;> decide
    | none =>
      obtain ⟨c, r, same⟩ := List.exists_cons_of_ne_nil plain.name.nonempty
      have here := plain.name.all c (by simp [same])
      rw [same]
      rintro _ ⟨⟩
      exact ⟨Text.isBlank_of_isNameChar here, by rintro rfl; revert here; decide⟩
  have absent : ∀ t ∈ p.type.map (·.word), '\x7d' ∉ t := by
    intro t spelled inside
    obtain ⟨k, given, rfl⟩ := Option.map_eq_some_iff.mp spelled
    have letter := (plain.type k given).letter _ inside
    revert letter
    decide
  have type : optionalPart '\x7b' '\x7d' (p.text g).toList =
      (p.type.map (·.word), p.sign.toList ++ (p.name ++ rest)) := by
    rw [RequireParts.text, String.toList_ofList]
    exact optionalPart_typed blank absent solid
  have kind : referredKind "require" (p.type.map (·.word)) (p.sign.bind sigilKind?) = .ok p.entry.kind := by
    cases given : p.type with
    | some k =>
      refine (SpelledKind.referredKind_word (plain.type k given) _ _).trans ?_
      simp [RequireParts.entry, given]
    | none =>
      have told : (p.sign.bind sigilKind?).getD .function = signedKind p.sign := by
        cases sign : p.sign with
        | none => rfl
        | some c => rcases plain.sign c sign with rfl | rfl <;> rfl
      simp only [RequireParts.entry, given, Option.map_none, Option.getD_none, ← told]
      rfl
  obtain ⟨a, after, described⟩ := describedUrl?_described blank plain
  have description : trimmedText (p.description.getD [] ++ a) = String.ofList (p.description.getD []) := by
    rw [trimmedText, Text.trim_append _ after]
    cases given : p.description with
    | none => rfl
    | some d => exact congrArg String.ofList (plain.description d given).2.1
  have address : (if Text.trim (p.url.getD []) = [] then none else
      some (String.ofList (Text.trim (p.url.getD [])))) = p.url.map String.ofList := by
    cases given : p.url with
    | none => rfl
    | some u =>
      obtain ⟨nonempty, trimmed, -⟩ := plain.url u given
      rw [Option.getD_some, show Text.trim u = u from trimmed, if_neg nonempty]
      rfl
  simp only [readRequire, type, sigilName?_append plain.sign plain.name apart, rest, described, kind]
  change Except.ok _ = _
  rw [description, address]
  rfl

end

namespace Tag

/-- A requirement is read back and stands behind the others, unless one of its kind and name is there. -/
theorem parse_require {p : RequireParts} {g : Gaps} (plain : p.IsPlain) (blank : g.IsBlank) (r : Record) :
    p.entry.autofill = false ∧ p.entry.item = none ∧
      ((∃ e ∈ r.requires, e.key = p.entry.key) → require.parse.map (· (p.text g) r) = some (.ok r)) ∧
      (r.Holds .require → (∀ e ∈ r.requires, e.key ≠ p.entry.key) →
        require.parse.map (· (p.text g) r) = some (.ok { r with requires := r.requires ++ [p.entry] })) := by
  have parses : require.parse.map (· (p.text g) r) = some ((addRequire p.entry r).mapError .misuse) := by
    simp only [require, storing, Option.map_some, readRequire_text plain blank]
  refine ⟨rfl, rfl, ?_, fun holds fresh => ?_⟩
  · rintro ⟨e, listed, same⟩
    have known : r.requires.any (Require.same p.entry) = true :=
      List.any_eq_true.mpr ⟨e, listed, beq_iff_eq.mpr same.symm⟩
    rw [parses, addRequire, if_pos known]
    rfl
  · have other : ¬r.requires.any (Require.same p.entry) = true := by
      rintro known
      obtain ⟨e, listed, same⟩ := List.any_eq_true.mp known
      exact fresh e listed (beq_iff_eq.mp same).symm
    rw [parses, addRequire, if_neg other, holds.flaw, holds.adding]
    rfl

/-- Hyphens at the ends of the name, a dash and brackets in the other parts. -/
def hyphenated : RequireParts where
  type := some ⟨.mixin, "MiXin".toList⟩
  sign := some '%'
  name := "-a-".toList
  description := some "- x > \x7by\x7d\nz".toList
  url := some "u<v -".toList

theorem parse_require_hyphenated :
    hyphenated.IsPlain ∧ wideGaps.IsBlank ∧ documented.Holds .require ∧
      hyphenated.text wideGaps = "\n \x7bMiXin\x7d\t%-a- -  - x > \x7by\x7d\nz \n<u<v ->\n" ∧
      hyphenated.entry =
        { name := "-a-", kind := .mixin, description := "- x > \x7by\x7d\nz", url := some "u<v -" } ∧
      require.parse.map (· (hyphenated.text wideGaps) documented) =
        some (.ok { documented with requires := [hyphenated.entry] }) ∧
      ∀ known : Record, known.requires = [{ name := "-a-", kind := .mixin, autofill := true }] →
        require.parse.map (· (hyphenated.text wideGaps) known) = some (.ok known) := by
  have plain : hyphenated.IsPlain := by
    refine ⟨?_, ?_, by decide, ?_, ?_⟩
    · rintro _ ⟨⟩
      exact ⟨rfl, by decide⟩
    all_goals
      rintro _ ⟨⟩
      decide
  have blank : wideGaps.IsBlank := by decide
  have fresh : ∀ e ∈ documented.requires, e.key ≠ hyphenated.entry.key := nofun
  refine ⟨plain, blank, rfl, by decide +kernel, by decide +kernel,
    (parse_require plain blank documented).2.2.2 rfl fresh, fun known same => ?_⟩
  refine (parse_require plain blank known).2.2.1 ⟨_, by rw [same]; exact List.mem_singleton_self _, ?_⟩
  decide +kernel

end Tag

end SheetDoc
