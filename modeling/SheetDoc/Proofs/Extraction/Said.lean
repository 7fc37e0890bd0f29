import SheetDoc.Proofs.Extraction.Draft

namespace SheetDoc

/-- Whether a word means the tag of a name. -/
def Registry.means (g : Registry) (name word : String) : Bool :=
  match g.get? word with
  | .ok (some a) => a.name == name
  | _ => false

/-- The value that an item gives with the tag of a name, if it means the tag and can be read. -/
def Registry.hears? {α : Type} (g : Registry) (name : String) (read : String → Except TagFault α)
    (item : Tagged) : Option α :=
  if g.means name item.tag then (read item.raw).toOption else none

namespace Extractor

/-- The values that the comment of a block gives with the tag of a name. -/
def said {α : Type} (x : Extractor) (name : String) (read : String → Except TagFault α) (b : Block) :
    List α :=
  (Comment.ofText b.comment).items.filterMap (x.registry.hears? name read)

/-- What a comment says with a tag it has been read from. -/
theorem mem_said {α : Type} {x : Extractor} {name : String} {b : Block}
    {read : String → Except TagFault α} {v : α} (member : v ∈ x.said name read b) :
    ∃ raw, read raw = .ok v := by
  obtain ⟨item, _, heard⟩ := List.mem_filterMap.mp member
  unfold Registry.hears? at heard
  split at heard
  · cases given : read item.raw with
    | error fault => simp [given, Except.toOption] at heard
    | ok v' => exact ⟨item.raw, by simpa [given, Except.toOption] using heard⟩
  · cases heard

/-- What an item of a comment does to the record, by the value that it gives with a tag: a value is put
into the field, unless the tag stands once and is set. -/
def Hears {α : Type} (a : Tag) (f : Field) (put : α → Record → Except Misuse Record) :
    Option α → Record → Record → Prop
  | none, r, r' => r.Keeps a f r'
  | some v, r, r' =>
    if !a.multiple && r.has a.name then r' = r
    else ∃ m, put v r = .ok m ∧ mark m a.name = .ok r'

section

variable {x : Extractor} {c : Config} {name word : String}

theorem not_means_of_not_has (unknown : x.registry.has word = false) :
    x.registry.means name word = false := by
  simp only [Registry.means, Registry.get?, Registry.canonical?_of_not_has unknown]

/-- A word for an example means no other tag. -/
theorem IsBuiltin.not_means_of_sample (standard : x.IsBuiltin c) (other : name ≠ "example")
    (sample : x.registry.canonical? word = some "example") : x.registry.means name word = false := by
  have named := standard.named Tag.sample (by simp [Tag.builtins])
  unfold Registry.means Registry.get?
  simp only [sample, String.reduceEq, if_false]
  cases listed : x.registry.tags.get? "example" with
  | none => rfl
  | some a =>
    have known : x.registry.canonical? "example" = some "example" :=
      if_pos (by rw [Assoc.has, listed]; rfl)
    have found : x.registry.get? "example" = .ok (some a) := by
      simp only [Registry.get?, known, String.reduceEq, if_false, listed]
    cases found.symm.trans named
    exact beq_eq_false_iff_ne.mpr (Ne.symm other)

theorem IsBuiltin.filterMap_foldExamplesFrom {α : Type} (standard : x.IsBuiltin c)
    (other : name ≠ "example") (read : String → Except TagFault α) (last : Tagged)
    (items : List Tagged) :
    (foldExamplesFrom x.registry last items).filterMap (x.registry.hears? name read) =
      (last :: items).filterMap (x.registry.hears? name read) := by
  induction items generalizing last with
  | nil => rfl
  | cons item rest ih =>
    rw [foldExamplesFrom]
    split
    · rename_i folded
      obtain ⟨unknown, sample⟩ := Bool.and_eq_true_iff.mp folded
      -- Neither the example nor the code behind it means the tag, whatever text they have.
      have silent : ∀ raw, x.registry.hears? name read { last with raw := raw } = none := fun raw =>
        if_neg (Bool.eq_false_iff.mp (standard.not_means_of_sample other (beq_iff_eq.mp sample)))
      have unheard : x.registry.hears? name read item = none :=
        if_neg (Bool.eq_false_iff.mp (not_means_of_not_has (by simpa using unknown)))
      rw [ih, List.filterMap_cons_none (silent _), List.filterMap_cons_none (silent last.raw),
        List.filterMap_cons_none unheard]
    · rw [List.filterMap_cons, ih]
      rfl

/-- To put code back into its example changes nothing of what is said with other tags. -/
theorem IsBuiltin.filterMap_foldExamples {α : Type} (standard : x.IsBuiltin c)
    (other : name ≠ "example") (read : String → Except TagFault α) (items : List Tagged) :
    (foldExamples x.registry items).filterMap (x.registry.hears? name read) =
      items.filterMap (x.registry.hears? name read) := by
  cases items with
  | nil => rfl
  | cons item rest => exact standard.filterMap_foldExamplesFrom other read item rest

end

section

variable {α : Type} {x : Extractor} {c : Config} {a : Tag} {f : Field} {r r' m : Record}
  {read : String → Except TagFault α} {put : α → Record → Except Misuse Record}

/-- A tag that may stand everywhere parses, unless it stands once and is set. -/
theorem applyTag_of_free {item : Tagged} {parse : String → Record → Except Failure Record}
    (found : x.registry.get? item.tag = .ok (some a)) (parses : a.parse = some parse)
    (free : a.allowedOn = none) (poster : Bool) (line : Int) (typed : r.Typed) :
    (x.applyTag poster line r item).result =
      if !a.multiple && r.has a.name then .ok r
      else
        match parse item.raw r with
        | .ok m => (mark m a.name).mapError .misuse
        | .error (.tag _) => .ok r
        | .error failure => .error failure := by
  have allowed : a.allowsKind r.kind = true := by
    rw [Tag.allowsKind, Tag.allows, free]
    rfl
  rw [applyTag_of_typed found parses poster line typed, allowed]
  simp only [Bool.not_true, Bool.and_false, Bool.false_eq_true, if_false]
  split_ifs
  · rfl
  · cases parse item.raw r with
    | ok m => rfl
    | error failure => cases failure <;> rfl

theorem get?_of_means (standard : x.IsBuiltin c) (builtin : a ∈ Tag.builtins c) {word : String}
    (means : x.registry.means a.name word = true) : x.registry.get? word = .ok (some a) := by
  unfold Registry.means at means
  split at means
  · rename_i b found
    have member : b ∈ Tag.builtins c := standard.listed ▸ Registry.mem_of_get? found
    cases Registry.eq_of_name member builtin (beq_iff_eq.mp means)
    exact found
  · cases means

/-- One item of a comment against the tag that is listened for. -/
theorem applyTag_hears (standard : x.IsBuiltin c) (owns : a.Owns c f)
    (parses : a.parse = some (storing read put)) (free : a.allowedOn = none) {poster : Bool} {line : Int}
    {item : Tagged} (typed : r.Typed) (done : (x.applyTag poster line r item).result = .ok r') :
    Hears a f put (x.registry.hears? a.name read item) r r' := by
  by_cases means : x.registry.means a.name item.tag = true
  · have found := get?_of_means standard owns.builtin means
    rw [applyTag_of_free found parses free poster line typed, storing] at done
    rw [Registry.hears?, if_pos means]
    cases given : read item.raw with
    | error fault =>
      simp only [given, ite_self] at done
      cases done
      exact Record.Keeps.refl typed
    | ok v =>
      simp only [given] at done
      unfold Hears
      simp only [Except.toOption]
      split
      · rename_i twice
        rw [if_pos twice] at done
        exact (Except.ok.inj done).symm
      · rename_i fresh
        rw [if_neg fresh] at done
        cases puts : put v r with
        | error fault => simp [puts, Except.mapError] at done
        | ok m =>
          simp only [puts, Except.mapError] at done
          exact ⟨m, rfl, mapError_eq_ok.mp done⟩
  · rw [Registry.hears?, if_neg means]
    rcases applyTag_keeps standard owns typed done with keeps | ⟨_, _, found, _⟩
    · exact keeps
    · exact absurd (by simp [Registry.means, found]) means

/-- What holds of the values that a comment has given so far and the record that it has made, and each
item keeps, holds in the end. -/
theorem applyTags_hears {P : List α → Record → Prop} (standard : x.IsBuiltin c) (owns : a.Owns c f)
    (parses : a.parse = some (storing read put)) (free : a.allowedOn = none)
    (typed : ∀ vs r, P vs r → r.Typed)
    (step : ∀ vs v? r r', P vs r → Hears a f put v? r r' → P (vs ++ v?.toList) r') {poster : Bool}
    {start : Int} {items : List Tagged} {vs : List α} (holds : P vs r)
    (done : (x.applyTags poster start r items).result = .ok r') :
    P (vs ++ items.filterMap (x.registry.hears? a.name read)) r' := by
  induction items generalizing vs r with
  | nil =>
    cases done
    exact (List.append_nil vs).symm ▸ holds
  | cons item rest ih =>
    obtain ⟨m, first, later⟩ := Report.andThen_eq_ok.mp done
    have next := step _ _ _ _ holds (applyTag_hears standard owns parses free (typed _ _ holds) first)
    have split : (item :: rest).filterMap (x.registry.hears? a.name read) =
        (x.registry.hears? a.name read item).toList ++
          rest.filterMap (x.registry.hears? a.name read) := by
      rw [List.filterMap_cons]
      cases x.registry.hears? a.name read item <;> rfl
    rw [split, ← List.append_assoc]
    exact ih next later

theorem tags_said {P : List α → Record → Prop} (standard : x.IsBuiltin c) (owns : a.Owns c f)
    (other : a.name ≠ "example") (parses : a.parse = some (storing read put)) (free : a.allowedOn = none)
    (typed : ∀ vs r, P vs r → r.Typed)
    (step : ∀ vs v? r r', P vs r → Hears a f put v? r r' → P (vs ++ v?.toList) r') {b : Block}
    {file : FileRef} (holds : P [] (blank b file))
    (done : (x.applyTags b.poster b.commentStart (blank b file)
      (foldExamples x.registry (Comment.ofText b.comment).items)).result = .ok r) :
    P (x.said a.name read b) r := by
  have whole := applyTags_hears standard owns parses free typed step holds done
  rwa [standard.filterMap_foldExamples other] at whole

end

end Extractor

/-- A record with the first of some values in the field of a tag, or with what stands there at the
start where there is none. -/
structure Record.First {α : Type} (a : Tag) (f : Field) (start : Value) (value : α → Value) (vs : List α)
    (r : Record) : Prop where
  typed : r.Typed
  has : r.has a.name = vs.head?.isSome
  own : r.own f = .ok (vs.head?.elim start value)

namespace Record

variable {α : Type} {c : Config} {a b : Tag} {f : Field} {start : Value} {value : α → Value} {vs : List α}
  {v? : Option α} {put : α → Record → Except Misuse Record} {r r' : Record}

theorem First.keeps (first : r.First a f start value vs) (keeps : r.Keeps a f r') :
    r'.First a f start value vs :=
  ⟨keeps.typed, keeps.has.trans first.has, keeps.own.trans first.own⟩

/-- The values after the first one are refused. -/
theorem First.hears (owns : a.Owns c f) (once : a.multiple = false)
    (puts : ∀ v r m, r.Typed → r.own f = .ok start → put v r = .ok m → m.Typed ∧ m.own f = .ok (value v))
    (first : r.First a f start value vs) (hears : Extractor.Hears a f put v? r r') :
    r'.First a f start value (vs ++ v?.toList) := by
  cases v? with
  | none => exact (List.append_nil vs).symm ▸ first.keeps hears
  | some v =>
    simp only [Extractor.Hears, once, Bool.not_false, Bool.true_and, first.has] at hears
    cases vs with
    | cons v₀ rest =>
      cases (if_pos rfl).mp hears
      exact ⟨first.typed, first.has, first.own⟩
    | nil =>
      obtain ⟨m, put, marked⟩ := hears
      obtain ⟨typed, own⟩ := puts v r m first.typed first.own put
      obtain ⟨tagged, has⟩ := wrote_mark typed marked
      exact ⟨tagged.typed, by simp [has], (tagged.own owns.not_tags owns.stored).trans own⟩

end Record

/-- What the code does not fill in, the draft of a block has from the comment. -/
theorem Extractor.extract_first {α : Type} {x : Extractor} {c : Config} {a : Tag} {f : Field}
    {read : String → Except TagFault α} {put : α → Record → Except Misuse Record} {value : α → Value}
    {r : Record} (standard : x.IsBuiltin c) (owns : a.Owns c f) (other : a.name ≠ "example")
    (parses : a.parse = some (storing read put)) (free : a.allowedOn = none) (once : a.multiple = false)
    (unfilled : a.autofill = none) (apart : f ≠ .parameter) {start : Value}
    (puts : ∀ v r m, r.Typed → r.own f = .ok start → put v r = .ok m → m.Typed ∧ m.own f = .ok (value v))
    {b : Block} {file : FileRef} (begins : (blank b file).own f = .ok start)
    (done : (x.extract b file).result = .ok (some r)) :
    r.First a f start value (x.said a.name read b) := by
  obtain ⟨m, tagged, rest⟩ := extract_ok done
  have first : m.First a f start value (x.said a.name read b) :=
    tags_said (P := fun vs r => r.First a f start value vs) standard owns other parses free
      (fun _ _ first => first.typed) (fun _ _ _ _ first hears => first.hears owns once puts hears)
      ⟨rfl, rfl, begins⟩ tagged
  split at rest
  · exact rest ▸ first
  · obtain ⟨n, filled, autofilled⟩ := rest
    have filled := first.keeps (fillSignatureDefaults_keeps owns apart first.typed filled)
    refine foldlM_keeps (fun b member r r' done first => first.keeps ?_) autofilled filled
    obtain ⟨inside, fills⟩ := standard.filling b member
    exact runAutofill_keeps owns first.typed inside (by rintro rfl; exact fills unfilled) done

end SheetDoc
