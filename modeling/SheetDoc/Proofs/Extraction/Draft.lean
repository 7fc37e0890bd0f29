import SheetDoc.Proofs.Tag.Frame

namespace SheetDoc

/-- What a field that can be merged into holds on a new record. -/
def Field.empty (f : Field) : Value := if f.entry?.isSome then .list [] else .null

/-- What the tag of a field can put there: one group, one of the two access levels. -/
def Field.fits : Field → Value → Prop
  | .group, v => ∃ name, v = .texts [name]
  | .access, v => v = .text Tag.publicWord ∨ v = .text Tag.privateWord
  | _, _ => True

/-- A builtin tag and the field that it writes, its own one or the context. -/
structure Tag.Owns (c : Config) (a : Tag) (f : Field) : Prop where
  builtin : a ∈ Tag.builtins c
  place : a.place = f

/-- A builtin tag with a field that a record can have from a poster. -/
structure Tag.Shared (c : Config) (a : Tag) (f : Field) : Prop extends a.Owns c f where
  field : a.field = some f
  shared : f ≠ .groupDescription

/-- A builtin tag whose field only comments, posters and defaults write. -/
structure Tag.Plain (c : Config) (a : Tag) (f : Field) : Prop where
  builtin : a ∈ Tag.builtins c
  field : a.field = some f
  unfilled : a.autofill = none
  shared : f ≠ .groupDescription

example (c : Config) :
    ((Tag.builtins c).filter fun a =>
      a.field.any (· ≠ .groupDescription) && a.autofill.isNone).map (·.name) =
      ["access", "alias", "author", "deprecated", "example", "group", "ignore", "link", "output",
        "parameter", "property", "return", "see", "since", "todo", "type"] := rfl

/-- How the field of a tag stands on a record: as on a new one, or set by the tag. -/
structure Record.Stands (c : Config) (a : Tag) (f : Field) (r : Record) : Prop where
  typed : r.Typed
  known : ∀ n, r.has n = true → ∃ b ∈ Tag.builtins c, b.name = n
  value : ∃ v, r.own f = .ok v ∧ if r.has a.name then f.fits v else v = f.empty

/-- A typed record whose tags are builtin ones. -/
structure Record.Familiar (c : Config) (r : Record) : Prop where
  typed : r.Typed
  known : ∀ n, r.has n = true → ∃ b ∈ Tag.builtins c, b.name = n

theorem Record.Stands.familiar {c : Config} {a : Tag} {f : Field} {r : Record}
    (stands : r.Stands c a f) : r.Familiar c := ⟨stands.typed, stands.known⟩

/-- A step that leaves a tag and its field alone. -/
structure Record.Keeps (a : Tag) (f : Field) (r r' : Record) : Prop where
  typed : r'.Typed
  kind : r'.kind = r.kind
  has : r'.has a.name = r.has a.name
  own : r'.own f = r.own f

namespace Tag.Owns

variable {c : Config} {a b : Tag} {f : Field} (owns : a.Owns c f)

include owns

theorem cases : f = .context ∨ a.field = some f ∧ f.merges = true := by
  have place := owns.place
  rw [Tag.place] at place
  cases field : a.field with
  | none => exact Or.inl (by rw [← place, field, Option.getD_none])
  | some own =>
    rw [field, Option.getD_some] at place
    subst place
    exact Or.inr ⟨rfl, (merges_builtins c a owns.builtin own field).1⟩

theorem not_tags : f ≠ .tags := owns.place ▸ place_ne_tags owns.builtin

theorem stored (name : String) : f ≠ .other name := by
  rintro rfl
  rcases owns.cases with context | ⟨_, merges⟩
  · cases context
  · cases merges

theorem ne_unknown : f ≠ .unknown := by
  rintro rfl
  rcases owns.cases with context | ⟨_, merges⟩
  · cases context
  · cases merges

/-- Another builtin tag writes elsewhere. -/
theorem ne_place (other : b ∈ builtins c) (apart : b ≠ a) : f ≠ b.place := by
  intro same
  exact apart (eq_of_place other owns.builtin (same.symm.trans owns.place.symm))

theorem ne_name (other : b ∈ builtins c) (apart : b ≠ a) : a.name ≠ b.name := by
  intro same
  exact apart (Registry.eq_of_name other owns.builtin same.symm)

end Tag.Owns

theorem Tag.Shared.merges {c : Config} {a : Tag} {f : Field} (shared : a.Shared c f) :
    f.merges = true := (merges_builtins c a shared.builtin f shared.field).1

theorem Tag.Plain.owns {c : Config} {a : Tag} {f : Field} (plain : a.Plain c f) : a.Owns c f :=
  ⟨plain.builtin, by rw [place, plain.field, Option.getD_some]⟩

theorem Tag.Plain.shares {c : Config} {a : Tag} {f : Field} (plain : a.Plain c f) : a.Shared c f :=
  ⟨plain.owns, plain.field, plain.shared⟩

theorem Tag.Plain.merges {c : Config} {a : Tag} {f : Field} (plain : a.Plain c f) : f.merges = true :=
  plain.shares.merges

theorem Tag.access_mem {c : Config} : access c ∈ builtins c := List.mem_cons_self

theorem Tag.group_mem {c : Config} : group c ∈ builtins c := by simp [builtins]

theorem Tag.rename_mem {c : Config} : rename ∈ builtins c := by simp [builtins]

theorem Tag.require_mem {c : Config} : require ∈ builtins c := by simp [builtins]

theorem Tag.eq_rename {c : Config} {a : Tag} (member : a ∈ builtins c) (place : a.place = .context) :
    a = rename := eq_of_place member rename_mem place

theorem Tag.eq_require {c : Config} {a : Tag} (member : a ∈ builtins c) (place : a.place = .require) :
    a = require := eq_of_place member require_mem place

theorem Tag.plain_group (c : Config) : (group c).Plain c .group := ⟨group_mem, rfl, rfl, nofun⟩

theorem Tag.Plain.eq_access {c : Config} {a : Tag} (plain : a.Plain c .access) : a = access c :=
  eq_of_place plain.builtin access_mem plain.owns.place

theorem Tag.Plain.eq_group {c : Config} {a : Tag} (plain : a.Plain c .group) : a = group c :=
  eq_of_place plain.builtin group_mem plain.owns.place

theorem Tag.accessLevel_ok {mark : Data} {raw level : String} {r : Record}
    (done : accessLevel mark raw r = .ok level) : level = publicWord ∨ level = privateWord := by
  simp only [accessLevel] at done
  split at done
  · obtain ⟨hidden, _, done⟩ := bind_eq_ok.mp done
    cases done
    cases hidden
    · exact Or.inl rfl
    · exact Or.inr rfl
  · split at done
    · rename_i levels
      exact Except.ok.inj done ▸ levels
    · cases done

namespace Record

variable {c : Config} {a b : Tag} {f : Field} {r r' : Record}

theorem group_parsed {read : String → Except TagFault String} {raw : String} (typed : r.Typed)
    (done : storing read (setting .group fun v r => { r with group := [Text.lowered v] }) raw r =
      .ok r') : ∃ name, r'.own .group = .ok (.texts [name]) := by
  obtain ⟨name, _, rfl⟩ := setting_ok (fun _ => typed) done
  exact ⟨_, rfl⟩

theorem access_parsed {mark : Data} {raw : String}
    (done : (do
      let level ← Tag.accessLevel mark raw r
      return ({ r with access := some level } : Record).settle .access) = .ok r') :
    r'.own .access = .ok (.text Tag.publicWord) ∨ r'.own .access = .ok (.text Tag.privateWord) := by
  obtain ⟨level, levels, done⟩ := bind_eq_ok.mp done
  have own : r'.own .access = .ok (.text level) := by
    rw [← Except.ok.inj done]
    rfl
  rw [own]
  rcases Tag.accessLevel_ok levels with rfl | rfl
  · exact Or.inl rfl
  · exact Or.inr rfl

theorem fits_parse (plain : a.Plain c f) {step : String → Record → Except Failure Record}
    (parses : a.parse = some step) {raw : String} (typed : r.Typed) (done : step raw r = .ok r') :
    ∃ v, r'.own f = .ok v ∧ f.fits v := by
  obtain ⟨v, holds, _⟩ := r'.own_takes plain.merges
  cases f
  case group =>
    obtain rfl := plain.eq_group
    obtain rfl := Option.some.inj parses
    obtain ⟨name, holds⟩ := group_parsed typed done
    exact ⟨_, holds, name, rfl⟩
  case access =>
    obtain rfl := plain.eq_access
    obtain rfl := Option.some.inj parses
    rcases access_parsed done with holds | holds
    · exact ⟨_, holds, Or.inl rfl⟩
    · exact ⟨_, holds, Or.inr rfl⟩
  all_goals exact ⟨v, holds, trivial⟩

theorem wrote_addTag {name : String} (typed : r.Typed) (done : Extractor.addTag r name = .ok r') :
    r.Wrote .tags r' ∧ ∀ n, r'.has n = (r.has n || decide (n = name)) := by
  rw [Extractor.addTag_of_typed typed] at done
  cases done
  exact ⟨wrote_put typed, fun n => by simp [Record.has]⟩

theorem wrote_mark {name : String} (typed : r.Typed) (done : Extractor.mark r name = .ok r') :
    r.Wrote .tags r' ∧ ∀ n, r'.has n = (r.has n || decide (n = name)) := by
  by_cases marked : r.has name = true
  · rw [Extractor.mark_of_typed typed, if_pos marked] at done
    cases done
    refine ⟨.refl typed .tags, fun n => ?_⟩
    by_cases same : n = name
    · simp [same, marked]
    · simp [same]
  · rw [Extractor.mark_of_typed typed, if_neg marked] at done
    cases done
    exact ⟨wrote_put typed, fun n => by simp [Record.has]⟩

theorem own_blank {b : Block} {file : FileRef} (merges : f.merges = true) :
    (Extractor.blank b file).own f = .ok f.empty := by
  cases f <;> cases merges <;> rfl

theorem stands_blank (plain : a.Plain c f) (b : Block) (file : FileRef) :
    (Extractor.blank b file).Stands c a f where
  typed := rfl
  known n marked := by cases marked
  value := ⟨f.empty, own_blank plain.merges, rfl⟩

theorem Stands.of_same (stands : r.Stands c a f) (typed : r'.Typed)
    (has : ∀ n, r'.has n = r.has n) (own : r'.own f = r.own f) : r'.Stands c a f where
  typed := typed
  known n marked := stands.known n (has n ▸ marked)
  value := by
    rw [own, has]
    exact stands.value

theorem Wrote.has {f' : Field} (wrote : r.Wrote f' r') (other : f' ≠ .tags) (n : String) :
    r'.has n = r.has n := by
  rw [Record.has, wrote.tags other, Record.has]

theorem Keeps.refl (typed : r.Typed) : r.Keeps a f r := ⟨typed, rfl, rfl, rfl⟩

theorem Keeps.trans (first : r.Keeps a f m) (second : m.Keeps a f r') : r.Keeps a f r' :=
  ⟨second.typed, second.kind.trans first.kind, second.has.trans first.has,
    second.own.trans first.own⟩

/-- To write elsewhere leaves a tag and its field alone. -/
theorem Wrote.keeps {f' : Field} (owns : a.Owns c f) (wrote : r.Wrote f' r') (apart : f ≠ f')
    (other : f' ≠ .tags) : r.Keeps a f r' :=
  ⟨wrote.typed, wrote.kind, wrote.has other a.name, wrote.own apart owns.stored⟩

/-- To parse another tag and to mark it leaves a tag and its field alone. -/
theorem Wrote.keeps_marked (owns : a.Owns c f) {m : Record} (other : b ∈ Tag.builtins c)
    (apart : b ≠ a) (wrote : r.Wrote b.place m) (marked : Extractor.mark m b.name = .ok r') :
    r.Keeps a f r' := by
  obtain ⟨tagged, has⟩ := wrote_mark wrote.typed marked
  have set : r'.has a.name = m.has a.name := by
    rw [has, decide_eq_false (owns.ne_name other apart), Bool.or_false]
  exact (wrote.keeps owns (owns.ne_place other apart) (Tag.place_ne_tags other)).trans
    ⟨tagged.typed, tagged.kind, set, tagged.own owns.not_tags owns.stored⟩

theorem Stands.parse_other (plain : a.Plain c f) (stands : r.Stands c a f) {m : Record}
    (other : b ∈ Tag.builtins c) (apart : b ≠ a) (wrote : r.Wrote b.place m)
    (marked : Extractor.mark m b.name = .ok r') : r'.Stands c a f := by
  have keeps := wrote.keeps_marked plain.owns other apart marked
  refine ⟨keeps.typed, fun n set => ?_, ?_⟩
  · obtain ⟨_, has⟩ := wrote_mark wrote.typed marked
    rw [has, wrote.has (Tag.place_ne_tags other), Bool.or_eq_true] at set
    rcases set with before | added
    · exact stands.known n before
    · exact ⟨b, other, (of_decide_eq_true added).symm⟩
  · rw [keeps.own, keeps.has]
    exact stands.value

/-- To parse the tag itself and to mark it sets the field. -/
theorem Stands.parse_self (plain : a.Plain c f) (stands : r.Stands c a f) {m : Record} {v : Value}
    (wrote : r.Wrote a.place m) (holds : m.own f = .ok v) (fits : f.fits v)
    (marked : Extractor.mark m a.name = .ok r') : r'.Stands c a f := by
  obtain ⟨tagged, has⟩ := wrote_mark wrote.typed marked
  refine ⟨tagged.typed, fun n set => ?_, v, ?_, ?_⟩
  · rw [has, wrote.has (Tag.place_ne_tags plain.builtin), Bool.or_eq_true] at set
    rcases set with before | added
    · exact stands.known n before
    · exact ⟨a, plain.builtin, (of_decide_eq_true added).symm⟩
  · rw [tagged.own plain.owns.not_tags plain.owns.stored, holds]
  · rw [has, decide_eq_true rfl, Bool.or_true, if_pos rfl]
    exact fits

end Record

/-- The extractor of a run without tags of its own. -/
structure Extractor.IsBuiltin (x : Extractor) (c : Config) : Prop where
  listed : x.registry.toList = Tag.builtins c
  named : ∀ a ∈ Tag.builtins c, x.registry.get? a.name = .ok (some a)
  known : ∀ word, ∃ entry, x.registry.get? word = .ok entry
  filling : ∀ a ∈ x.autofill, a ∈ Tag.builtins c ∧ a.autofill ≠ none

namespace Extractor

variable {x : Extractor} {c : Config} {a : Tag} {f : Field} {r r' : Record}

theorem autofillOf_ok {g : Registry} {entry : Data} (done : autofillOf g entry = .ok a) :
    a ∈ g.toList ∧ a.autofill ≠ none := by
  unfold autofillOf at done
  split at done
  · cases done
  · cases done
  · simp only at done
    split at done
    · obtain ⟨found, searched, done⟩ := bind_eq_ok.mp done
      split at done
      · cases done
      · rename_i b
        split at done
        · cases done
        · rename_i filled
          cases done
          exact ⟨Registry.mem_of_get? (mapError_eq_ok.mp searched), by simpa using filled⟩
    · cases done

theorem make_ok {g : Registry} (made : make g c = .ok x) :
    x.registry = g ∧ x.includeUnknown = c.includesUnknown ∧ x.defaultGroup = c.defaultGroup ∧
      ∃ entries : List Data, entries.mapM (autofillOf g) = .ok x.autofill := by
  simp only [make] at made
  split at made
  · split at made
    · obtain ⟨entries, _, made⟩ := bind_eq_ok.mp made
      obtain ⟨filling, found, made⟩ := bind_eq_ok.mp made
      cases made
      exact ⟨rfl, rfl, rfl, entries, found⟩
    · cases made
  · obtain ⟨entries, _, made⟩ := bind_eq_ok.mp made
    obtain ⟨filling, found, made⟩ := bind_eq_ok.mp made
    cases made
    exact ⟨rfl, rfl, rfl, entries, found⟩

/-- The registry of every run gives such an extractor, frozen or not. -/
theorem isBuiltin_of_make {g : Registry} {frozen : Bool} (standard : Registry.standard c [] = .ok g)
    (made : make { g with frozen := frozen } c = .ok x) : x.IsBuiltin c := by
  have same : Registry.builtin c = g := Except.ok.inj ((Registry.standard_nil c).symm.trans standard)
  subst same
  obtain ⟨registry, _, _, entries, found⟩ := make_ok made
  have listed : x.registry.toList = Tag.builtins c := registry ▸ Registry.toList_builtin c
  refine ⟨listed, fun a member => registry ▸ Registry.get?_builtin member,
    fun word => registry ▸ Registry.get?_builtin_total c word, fun a member => ?_⟩
  obtain ⟨entry, _, names⟩ := exists_of_forall₂ (mapM_eq_ok.mp found) member
  obtain ⟨inside, filled⟩ := autofillOf_ok names
  exact ⟨listed ▸ registry ▸ inside, filled⟩

theorem IsBuiltin.keepsTypes (standard : x.IsBuiltin c) : x.KeepsTypes where
  registered a member := (Tag.confined_builtins c a (standard.listed ▸ member)).keepsTypes
  autofill a member := (Tag.confined_builtins c a (standard.filling a member).1).keepsTypes

theorem wrote_keepUnknown (typed : r.Typed) {tag raw : String}
    (done : keepUnknown r tag raw = .ok r') : r.Wrote .unknown r' := by
  rw [keepUnknown, typed.strayValue?] at done
  cases done
  exact Record.wrote_put typed

theorem stands_keepUnknown (plain : a.Plain c f) (stands : r.Stands c a f) {tag raw : String}
    (done : keepUnknown r tag raw = .ok r') : r'.Stands c a f := by
  have wrote := wrote_keepUnknown stands.typed done
  exact stands.of_same wrote.typed (wrote.has nofun) (wrote.own plain.owns.ne_unknown plain.owns.stored)

theorem stands_applyTag (standard : x.IsBuiltin c) (plain : a.Plain c f) {poster : Bool} {line : Int}
    {item : Tagged} (stands : r.Stands c a f)
    (done : (x.applyTag poster line r item).result = .ok r') : r'.Stands c a f := by
  rcases applyTag_ok done with rfl | kept | ⟨b, step, m, found, _, parses, parsed, marked⟩
  · exact stands
  · exact stands_keepUnknown plain stands kept
  · have member : b ∈ Tag.builtins c := standard.listed ▸ Registry.mem_of_get? found
    have wrote := (Tag.confined_builtins c b member).parse step parses _ r m stands.typed parsed
    by_cases same : b = a
    · subst same
      obtain ⟨v, holds, fits⟩ := Record.fits_parse plain parses stands.typed parsed
      exact stands.parse_self plain wrote holds fits marked
    · exact stands.parse_other plain member same wrote marked

/-- One tag of a comment leaves a field alone, unless it is the tag of the field. -/
theorem applyTag_keeps (standard : x.IsBuiltin c) (owns : a.Owns c f) {poster : Bool} {line : Int}
    {item : Tagged} (typed : r.Typed) (done : (x.applyTag poster line r item).result = .ok r') :
    r.Keeps a f r' ∨ ∃ step m, x.registry.get? item.tag = .ok (some a) ∧
      objection? poster r a = .ok none ∧ a.parse = some step ∧ step item.raw r = .ok m ∧
      mark m a.name = .ok r' := by
  rcases applyTag_ok done with rfl | kept | ⟨b, step, m, found, agreed, parses, parsed, marked⟩
  · exact Or.inl (Record.Keeps.refl typed)
  · exact Or.inl ((wrote_keepUnknown typed kept).keeps owns owns.ne_unknown nofun)
  · by_cases same : b = a
    · subst same
      exact Or.inr ⟨step, m, found, agreed, parses, parsed, marked⟩
    · have member : b ∈ Tag.builtins c := standard.listed ▸ Registry.mem_of_get? found
      have wrote := (Tag.confined_builtins c b member).parse step parses _ r m typed parsed
      exact Or.inl (wrote.keeps_marked owns member same marked)

theorem fillSignatureDefaults_keeps (owns : a.Owns c f) (other : f ≠ .parameter) (typed : r.Typed)
    (done : fillSignatureDefaults r = .ok r') : r.Keeps a f r' := by
  obtain ⟨change, rfl⟩ := fillSignatureDefaults_ok typed done
  exact (Record.wrote_put typed : r.Wrote .parameter _).keeps owns other nofun

/-- What the code says about another tag leaves a field alone. -/
theorem runAutofill_keeps (owns : a.Owns c f) (typed : r.Typed) {b : Tag} (member : b ∈ Tag.builtins c)
    (apart : b ≠ a) (done : runAutofill r b = .ok r') : r.Keeps a f r' :=
  ((Tag.confined_builtins c b member).autofill r r' typed done).keeps owns (owns.ne_place member apart)
    (Tag.place_ne_tags member)

theorem stands_fillSignatureDefaults (plain : a.Plain c f) (stands : r.Stands c a f)
    (done : fillSignatureDefaults r = .ok r') : r'.Stands c a f := by
  obtain ⟨change, rfl⟩ := fillSignatureDefaults_ok stands.typed done
  by_cases here : f = .parameter
  · subst here
    refine ⟨stands.typed, stands.known, _, rfl, ?_⟩
    obtain ⟨v, holds, value⟩ := stands.value
    by_cases set : r.has a.name = true
    · exact (if_pos set).mpr trivial
    · rw [if_neg set] at value
      have none : r.parameters = [] := by
        simpa [Record.own, Field.empty, Field.entry?] using holds.trans (congrArg Except.ok value)
      refine (if_neg set).mpr ?_
      simp [none, Field.empty, Field.entry?]
  · refine stands.of_same stands.typed (fun _ => rfl) ?_
    cases f <;> first | rfl | exact absurd rfl here

theorem stands_runAutofill (plain : a.Plain c f) (stands : r.Stands c a f) {b : Tag}
    (other : b ∈ Tag.builtins c) (filled : b.autofill ≠ none) (done : runAutofill r b = .ok r') :
    r'.Stands c a f := by
  have wrote := (Tag.confined_builtins c b other).autofill r r' stands.typed done
  have apart : b ≠ a := by
    rintro rfl
    exact filled plain.unfilled
  exact stands.of_same wrote.typed (wrote.has (Tag.place_ne_tags other))
    (wrote.own (plain.owns.ne_place other apart) plain.owns.stored)

/-- On every draft the field is set by its tag or as empty as on a new record. -/
theorem stands_extract (standard : x.IsBuiltin c) (plain : a.Plain c f) {b : Block} {file : FileRef}
    (done : (x.extract b file).result = .ok (some r)) : r.Stands c a f := by
  obtain ⟨m, tagged, rest⟩ := extract_ok done
  have stands : m.Stands c a f := Report.foldl_keeps
    (fun _ _ _ _ applied stands => stands_applyTag standard plain stands applied) tagged
    (Record.stands_blank plain b file)
  split at rest
  · exact rest ▸ stands
  · obtain ⟨n, filled, autofilled⟩ := rest
    refine foldlM_keeps (fun b member r r' done stands => ?_) autofilled
      (stands_fillSignatureDefaults plain stands filled)
    obtain ⟨inside, fills⟩ := standard.filling b member
    exact stands_runAutofill plain stands inside fills done

theorem familiar_extract (standard : x.IsBuiltin c) {b : Block} {file : FileRef}
    (done : (x.extract b file).result = .ok (some r)) : r.Familiar c :=
  (stands_extract standard (Tag.plain_group c) done).familiar

theorem familiar_of_extracts (standard : x.IsBuiltin c) {file : FileRef} {bs : List Block}
    {ps : List Record}
    (made : List.Forall₂ (fun b p => (x.extract b file).result = .ok (some p)) bs ps) :
    ∀ p ∈ ps, p.Familiar c := by
  intro p member
  obtain ⟨b, _, done⟩ := exists_of_forall₂ made member
  exact familiar_extract standard done

end Extractor

end SheetDoc
