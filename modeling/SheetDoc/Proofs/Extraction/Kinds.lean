import SheetDoc.Proofs.Extraction.Precedence

namespace SheetDoc

/-- A record that has nothing from a tag which may not stand on its kind. -/
structure Record.Within (c : Config) (r : Record) : Prop where
  typed : r.Typed
  distinct : r.tags.Nodup
  allowed : ∀ n ∈ r.tags, ∃ a ∈ Tag.builtins c, a.name = n ∧ a.allowsKind r.kind = true
  barred : ∀ a ∈ Tag.builtins c, a.allowsKind r.kind = false → r.own a.place = .ok a.place.empty

namespace Tag

variable {c : Config} {a : Tag} {kind : Kind}

/-- A tag that may not stand everywhere has a field. -/
theorem field_of_barred (member : a ∈ builtins c) (barred : a.allowsKind kind = false) :
    a.field = some a.place ∧ a.place.merges = true := by
  have owns : a.Owns c a.place := ⟨member, rfl⟩
  rcases owns.cases with context | own
  · cases eq_rename member context
    cases barred
  · exact own

/-- A tag with a default may stand everywhere. -/
theorem allows_of_fallback (member : a ∈ builtins c) (supplies : a.fallback ≠ none) (kind : Kind) :
    a.allowsKind kind = true := by
  have free : ((builtins c).filter (·.fallback.isSome)).all (·.allowedOn.isNone) = true := rfl
  have supplied : a.fallback.isSome = true := Option.isSome_iff_ne_none.mpr supplies
  have everywhere := List.all_eq_true.mp free a (List.mem_filter.mpr ⟨member, supplied⟩)
  rw [allowsKind, allows, Option.isNone_iff_eq_none.mp everywhere]
  rfl

end Tag

namespace Record.Within

variable {c : Config} {b : Tag} {f : Field} {r r' : Record}

/-- To write a field of no tag that may not stand on the record changes nothing of this. -/
theorem wrote (within : r.Within c) (wrote : r.Wrote f r') (other : f ≠ .tags)
    (apart : ∀ a ∈ Tag.builtins c, a.allowsKind r.kind = false → a.place ≠ f) : r'.Within c where
  typed := wrote.typed
  distinct := by
    rw [wrote.tags other]
    exact within.distinct
  allowed := by
    rw [wrote.tags other, wrote.kind]
    exact within.allowed
  barred a member barred := by
    rw [wrote.kind] at barred
    have owns : a.Owns c a.place := ⟨member, rfl⟩
    rw [wrote.own (apart a member barred) owns.stored]
    exact within.barred a member barred

/-- A tag that may stand on the record can write its field. -/
theorem write (within : r.Within c) (member : b ∈ Tag.builtins c) (allows : b.allowsKind r.kind = true)
    (wrote : r.Wrote b.place r') : r'.Within c := by
  refine within.wrote wrote (Tag.place_ne_tags member) fun a inside barred same => ?_
  -- no two tags share a field
  cases Tag.eq_of_place inside member same
  cases allows.symm.trans barred

/-- A tag that may stand on the record can be noted once. -/
theorem addTag (within : r.Within c) (member : b ∈ Tag.builtins c) (allows : b.allowsKind r.kind = true)
    (fresh : r.has b.name = false) : ({ r with tags := r.tags ++ [b.name] } : Record).Within c where
  typed := within.typed
  distinct := by
    have fresh : b.name ∉ r.tags := by simpa [has] using fresh
    rw [← List.concat_eq_append]
    exact (List.nodup_concat _ _).mpr ⟨fresh, within.distinct⟩
  allowed := by
    refine List.forall_mem_append.mpr ⟨within.allowed, ?_⟩
    simpa using ⟨b, member, rfl, allows⟩
  barred a inside barred := by
    have owns : a.Owns c a.place := ⟨inside, rfl⟩
    have wrote : r.Wrote .tags { r with tags := r.tags ++ [b.name] } := wrote_put within.typed
    rw [wrote.own owns.not_tags owns.stored]
    exact within.barred a inside barred

end Record.Within

namespace Extractor

variable {x : Extractor} {c : Config} {b : Tag} {r r' p : Record}

theorem within_blank (b : Block) (file : FileRef) : (blank b file).Within c where
  typed := rfl
  distinct := List.nodup_nil
  allowed := List.forall_mem_nil _
  barred _ member barred := Record.own_blank (Tag.field_of_barred member barred).2

theorem within_applyTag (standard : x.IsBuiltin c) (within : r.Within c) {line : Int} {item : Tagged}
    (done : (x.applyTag false line r item).result = .ok r') : r'.Within c := by
  rcases applyTag_ok done with rfl | kept | ⟨a, step, m, found, agreed, parses, parsed, marked⟩
  · exact within
  · refine within.wrote (wrote_keepUnknown within.typed kept) nofun fun a member _ => ?_
    exact Tag.Owns.ne_unknown (c := c) ⟨member, rfl⟩
  · have member : a ∈ Tag.builtins c := standard.listed ▸ Registry.mem_of_get? found
    have allows : a.allowsKind r.kind = true := by
      rw [objection?_of_typed false within.typed] at agreed
      cases allows : a.allowsKind r.kind with
      | true => rfl
      | false =>
        rw [allows] at agreed
        cases agreed
    have wrote := (Tag.confined_builtins c a member).parse step parses _ r m within.typed parsed
    have parsed := within.write member allows wrote
    rw [mark_of_typed parsed.typed] at marked
    cases marked
    split
    · exact parsed
    · rename_i unset
      exact parsed.addTag member (wrote.kind ▸ allows) (Bool.eq_false_iff.mpr unset)

theorem within_fillSignatureDefaults (within : r.Within c) (done : fillSignatureDefaults r = .ok r') :
    r'.Within c := by
  have member : Tag.parameter ∈ Tag.builtins c := by simp [Tag.builtins]
  obtain ⟨change, rfl⟩ := fillSignatureDefaults_ok within.typed done
  cases allows : Tag.parameter.allowsKind r.kind with
  | true => exact within.write member allows (Record.wrote_put within.typed)
  | false =>
    have none : r.parameters = [] := by
      have empty : r.own .parameter = .ok (.list []) := within.barred _ member allows
      simpa [Record.own] using empty
    have same : ({ r with parameters := r.parameters.map change } : Record) = r := by
      rw [none, List.map_nil, ← none]
    exact same.symm ▸ within

theorem within_runAutofill (within : r.Within c) (member : b ∈ Tag.builtins c)
    (done : runAutofill r b = .ok r') : r'.Within c := by
  cases allows : b.allowsKind r.kind with
  | true =>
    exact within.write member allows ((Tag.confined_builtins c b member).autofill r r' within.typed done)
  | false =>
    unfold runAutofill at done
    split at done
    · cases done
      exact within
    · obtain ⟨kind', kinds, done⟩ := bind_eq_ok.mp done
      cases Except.ok.inj (within.typed.readKind.symm.trans (mapError_eq_ok.mp kinds))
      rw [allows] at done
      cases done
      exact within

/-- What the comment and the code of a construct say goes where it may stand. -/
theorem within_extract (standard : x.IsBuiltin c) {b : Block} {file : FileRef} (own : b.poster = false)
    (done : (x.extract b file).result = .ok (some r)) : r.Within c := by
  obtain ⟨m, tagged, rest⟩ := extract_ok done
  rw [own] at tagged rest
  have tagged : m.Within c := Report.foldl_keeps
    (fun _ _ _ _ applied within => within_applyTag standard within applied) tagged (within_blank b file)
  obtain ⟨n, filled, autofilled⟩ := rest
  exact foldlM_keeps (fun a member r r' done within =>
    within_runAutofill within (standard.filling a member).1 done) autofilled
    (within_fillSignatureDefaults tagged filled)

theorem within_takeOver (standard : x.IsBuiltin c) (within : r.Within c) (source : p.Familiar c)
    {name : String} (listed : name ∈ p.tags) (done : x.takeOver p r name = .ok r') : r'.Within c := by
  rcases takeOver_ok done with
    rfl | ⟨a, f, m, found, field, unset, ⟨kind, kinds, allows⟩, inherits, added⟩
  · exact within
  · obtain ⟨b, member, rfl⟩ := source.known name (by simpa [Record.has] using listed)
    cases (standard.named b member).symm.trans found
    have fresh : r.has a.name = false := Except.ok.inj ((within.typed.sets a.name).symm.trans unset)
    cases Except.ok.inj (within.typed.readKind.symm.trans kinds)
    have place : a.place = f := by rw [Tag.place, field, Option.getD_some]
    obtain ⟨merges, other⟩ := Tag.merges_builtins c a member f field
    have wrote := (Record.wrote_inherit within.typed source.typed merges inherits).1
    have taken := within.write member allows (place.symm ▸ wrote)
    rw [addTag_of_typed taken.typed] at added
    cases added
    exact taken.addTag member (wrote.kind ▸ allows) (wrote.has other a.name ▸ fresh)

theorem within_applyFallback (within : r.Within c) (member : b ∈ Tag.builtins c)
    (done : applyFallback r b = .ok r') : r'.Within c := by
  by_cases supplies : b.fallback = none
  · rw [applyFallback, supplies] at done
    cases done
    exact within
  · exact within.write member (Tag.allows_of_fallback member supplies r.kind)
      ((Tag.confined_builtins c b member).fallback r r' within.typed done)

theorem within_mergePoster (standard : x.IsBuiltin c) (within : r.Within c) (source : p.Familiar c)
    (done : x.mergePoster p r = .ok r') : r'.Within c :=
  foldlM_keeps (fun _ listed _ _ done within => within_takeOver standard within source listed done) done
    within

/-- Every record of a file has from the tags only what its kind may have. -/
theorem within_parseSource (standard : x.IsBuiltin c) {text : String} {file : FileRef}
    {found : FileRecords} (done : (x.parseSource text file).result = .ok found) :
    ∀ r ∈ found.records, r.Within c := by
  obtain ⟨ds, drafts, completed, _⟩ := parseSource_ok done
  have posters : ∀ p ∈ postersOf ds, p.Familiar c := by
    intro p member
    obtain ⟨d, inside, rfl⟩ := List.mem_map.mp member
    exact familiar_extract standard (drafts.made d (List.mem_of_mem_filter inside))
  intro r member
  obtain ⟨own, inside, m, merged, supplied⟩ := exists_of_forall₂ completed member
  obtain ⟨d, listed, rfl⟩ := List.mem_map.mp inside
  obtain ⟨listed, side⟩ := List.mem_filter.mp listed
  have start : d.2.Within c := within_extract standard (by simpa using side) (drafts.made d listed)
  have merged : m.Within c := foldlM_keeps (fun p poster _ _ done within =>
    within_mergePoster standard within (posters p poster) done) merged start
  exact foldlM_keeps (fun a inside _ _ done within =>
    within_applyFallback within (standard.listed ▸ inside) done) supplied merged

end Extractor

/-- What a record may have on its kind: values of restricted tags only where these may stand, and of the
tags of a registry those that may, each noted once by its own name. -/
structure Record.Restricted (g : Registry) (r : Record) : Prop where
  typed : r.Typed
  returns : r.returns ≠ none → r.kind = .function
  parameters : r.parameters ≠ [] → r.kind = .function ∨ r.kind = .mixin
  content : r.content ≠ none → r.kind = .mixin
  output : r.output ≠ none → r.kind = .mixin
  properties : r.properties ≠ [] → r.kind = .var
  types : r.types ≠ [] → r.kind = .var
  throws : r.throws ≠ [] → r.kind = .function ∨ r.kind = .mixin ∨ r.kind = .placeholder
  distinct : r.tags.Nodup
  noted : ∀ n ∈ r.tags, ∃ a, g.get? n = .ok (some a) ∧ a.name = n ∧ a.allowsKind r.kind = true

theorem Tag.allowsKind_iff {a : Tag} {kinds : List Kind} {kind : Kind}
    (restricts : a.allowedOn = some (kinds.map Kind.word)) : a.allowsKind kind = true ↔ kind ∈ kinds := by
  rw [allowsKind, allows, restricts, Option.all_some, List.contains_iff_mem, List.mem_map]
  constructor
  · rintro ⟨other, inside, same⟩
    exact Kind.word_injective same ▸ inside
  · exact fun inside => ⟨kind, inside, rfl⟩

section

variable {α : Type}

theorem list_ne_empty {l : List α} {item : α → Item} (set : l ≠ []) :
    (Except.ok (.list (l.map item)) : Except Misuse Value) ≠ .ok (.list []) := by
  simpa using set

theorem option_ne_empty {o : Option α} {value : α → Value} (solid : ∀ e, value e ≠ .null)
    (set : o ≠ none) : (Except.ok ((o.map value).getD .null) : Except Misuse Value) ≠ .ok .null := by
  cases o with
  | none => exact absurd rfl set
  | some e => simpa using solid e

theorem text_ne_empty {o : Option String} (set : o ≠ none) :
    (Except.ok (.ofOption o) : Except Misuse Value) ≠ .ok .null := by
  cases o with
  | none => exact absurd rfl set
  | some s => nofun

end

/-- A restricted tag has given something only to a record that it may stand on. -/
theorem Record.Within.kind_mem {c : Config} {r : Record} {a : Tag} {kinds : List Kind}
    (within : r.Within c) (member : a ∈ Tag.builtins c)
    (restricts : a.allowedOn = some (kinds.map Kind.word)) (set : r.own a.place ≠ .ok a.place.empty) :
    r.kind ∈ kinds := by
  rw [← Tag.allowsKind_iff restricts]
  cases allows : a.allowsKind r.kind with
  | true => rfl
  | false => exact absurd (within.barred a member allows) set

namespace Extractor

variable {x : Extractor} {c : Config} {r : Record}

theorem restricted_of_within (standard : x.IsBuiltin c) (within : r.Within c) :
    r.Restricted x.registry where
  typed := within.typed
  returns set := by
    have kind : r.kind ∈ [Kind.function] :=
      within.kind_mem (a := Tag.returns) (by simp [Tag.builtins]) rfl (option_ne_empty nofun set)
    simpa using kind
  parameters set := by
    have kind : r.kind ∈ [Kind.function, .mixin] :=
      within.kind_mem (a := Tag.parameter) (by simp [Tag.builtins]) rfl (list_ne_empty set)
    simpa using kind
  content set := by
    have kind : r.kind ∈ [Kind.mixin] :=
      within.kind_mem (a := Tag.content) (by simp [Tag.builtins]) rfl (text_ne_empty set)
    simpa using kind
  output set := by
    have kind : r.kind ∈ [Kind.mixin] :=
      within.kind_mem (a := Tag.output) (by simp [Tag.builtins]) rfl (text_ne_empty set)
    simpa using kind
  properties set := by
    have kind : r.kind ∈ [Kind.var] :=
      within.kind_mem (a := Tag.property) (by simp [Tag.builtins]) rfl (list_ne_empty set)
    simpa using kind
  types set := by
    have kind : r.kind ∈ [Kind.var] :=
      within.kind_mem (a := Tag.type) (by simp [Tag.builtins]) rfl (list_ne_empty set)
    simpa using kind
  throws set := by
    have kind : r.kind ∈ [Kind.function, .mixin, .placeholder] :=
      within.kind_mem (a := Tag.throw) (by simp [Tag.builtins]) rfl (list_ne_empty set)
    simpa using kind
  distinct := within.distinct
  noted n listed := by
    obtain ⟨a, member, rfl, allows⟩ := within.allowed n listed
    exact ⟨a, standard.named a member, rfl, allows⟩

/-- Whatever a source says of its constructs and of itself, restricted tags stay on the kinds that may
carry them. -/
theorem parseSource_restricts {g : Registry} {frozen : Bool}
    (standard : Registry.standard c [] = .ok g) (made : make { g with frozen := frozen } c = .ok x)
    {text : String} {file : FileRef} {found : FileRecords}
    (done : (x.parseSource text file).result = .ok found) :
    ∀ r ∈ found.records, r.Restricted x.registry := by
  have builtin := isBuiltin_of_make standard made
  exact fun r member => restricted_of_within builtin (within_parseSource builtin done r member)

def numberText : String := "////\n/// @return \x7bnumber\x7d\n/// @type number\n////\n/// Hi\n$a: 1;"

def numberPoster : Record where
  context := { kind := .unknown }
  file := ⟨"a.scss", "a.scss"⟩
  commentLine := 1
  returns := some ⟨"number", ""⟩
  types := ["number"]
  tags := ["return", "type"]

def numberVariable : Record :=
  { todoDraft with
    context := { todoDraft.context with lineStart := some 6, lineEnd := some 6 }
    commentLine := 5 }

def numberRecord : Record :=
  { numberVariable with
    types := ["number"], tags := ["type"], access := some Tag.publicWord, group := ["undefined"] }

/-- A poster declares a type and what is returned, and a variable takes the type alone. -/
theorem parseSource_number :
    (quiet.parseSource numberText ⟨"a.scss", "a.scss"⟩).result = .ok ⟨[numberRecord], []⟩ := by
  have blocks : scanBlocks numberText =
      [⟨"@return \x7bnumber\x7d\n@type number", "", 1, none, none, true⟩,
        ⟨"Hi", "$a: 1;", 5, some 6, some 6, false⟩] := by decide +kernel
  have poster : (quiet.extract ⟨"@return \x7bnumber\x7d\n@type number", "", 1, none, none, true⟩
      ⟨"a.scss", "a.scss"⟩).result = .ok (some numberPoster) := by
    have comment : Comment.ofText "@return \x7bnumber\x7d\n@type number" =
        ⟨"", [⟨"return", "\x7bnumber\x7d", 0⟩, ⟨"type", "number", 1⟩]⟩ := rfl
    simp only [extract, comment]
    rfl
  have draft : (quiet.extract ⟨"Hi", "$a: 1;", 5, some 6, some 6, false⟩
      ⟨"a.scss", "a.scss"⟩).result = .ok (some numberVariable) := by
    have context : Context.ofBlock ⟨"Hi", "$a: 1;", 5, some 6, some 6, false⟩ =
        numberVariable.context := by decide +kernel
    have comment : Comment.ofText "Hi" = ⟨"Hi", []⟩ := rfl
    simp only [extract, context, comment]
    rfl
  have merged : quiet.mergePosters [numberPoster] [numberVariable] =
      .ok [{ numberVariable with types := ["number"], tags := ["type"] }] := by rfl
  have completed : quiet.applyFallbacks { numberVariable with types := ["number"], tags := ["type"] } =
      .ok numberRecord := by rfl
  have drafts : Drafts (quiet.extract · ⟨"a.scss", "a.scss"⟩) (scanBlocks numberText)
      [(⟨"@return \x7bnumber\x7d\n@type number", "", 1, none, none, true⟩, numberPoster),
        (⟨"Hi", "$a: 1;", 5, some 6, some 6, false⟩, numberVariable)] := by
    rw [blocks]
    exact .keep poster (.keep draft .nil)
  exact parseSource_of_drafts drafts merged (mapM_eq_ok.mpr (.cons completed .nil))

theorem parseSource_restricts_number :
    make { Registry.builtin quietConfig with frozen := true } quietConfig = .ok quiet ∧
      (quiet.parseSource numberText ⟨"a.scss", "a.scss"⟩).result = .ok ⟨[numberRecord], []⟩ ∧
      numberRecord.Restricted quiet.registry := by
  have made : make { Registry.builtin quietConfig with frozen := true } quietConfig = .ok quiet := rfl
  exact ⟨made, parseSource_number,
    parseSource_restricts (Registry.standard_nil quietConfig) made parseSource_number _
      (List.mem_singleton_self _)⟩

end Extractor

end SheetDoc
