import SheetDoc.Proofs.Extraction.Typed
import SheetDoc.Proofs.Tag.Standard

namespace SheetDoc

/-- A typed record that differs from another in one field at most, and not in its kind. -/
structure Record.Wrote (f : Field) (r r' : Record) : Prop where
  typed : r'.Typed
  frame : Record.AgreesOff f r r'
  kind : r'.kind = r.kind

theorem Item.text_injective : Function.Injective Item.text := fun _ _ same => by simpa using same

namespace Record

variable {r r' : Record} {f : Field}

theorem Wrote.refl (typed : r.Typed) (f : Field) : r.Wrote f r := ⟨typed, agreesOff_refl f r, rfl⟩

/-- What is read of another field is as it was. -/
theorem Wrote.own (wrote : r.Wrote f r') {f' : Field} (other : f' ≠ f)
    (stored : ∀ name, f' ≠ .other name) : r'.own f' = r.own f' := wrote.frame f' other stored

/-- Entries of one type can be read back from the list that they are given as. -/
theorem eq_of_list {α : Type} {item : α → Item} (injective : Function.Injective item) {as bs : List α}
    (same : (.ok (.list (as.map item)) : Except Misuse Value) = .ok (.list (bs.map item))) : as = bs :=
  List.map_injective_iff.mpr injective (Value.list.inj (Except.ok.inj same))

theorem tags_of_own {names : List String} (own : r.own .tags = .ok (.texts names)) : r.tags = names :=
  eq_of_list Item.text_injective own

theorem group_of_own {names : List String} (own : r.own .group = .ok (.texts names)) :
    r.group = names :=
  eq_of_list Item.text_injective own

theorem requires_of_own {es : List Require} (own : r.own .require = .ok (.list (es.map .require))) :
    r.requires = es :=
  eq_of_list (fun _ _ => Item.require.inj) own

theorem parameters_of_own {ps : List Parameter}
    (own : r.own .parameter = .ok (.list (ps.map .parameter))) : r.parameters = ps :=
  eq_of_list (fun _ _ => Item.parameter.inj) own

theorem Wrote.tags (wrote : r.Wrote f r') (other : f ≠ .tags) : r'.tags = r.tags :=
  tags_of_own (wrote.own (Ne.symm other) nofun)

theorem Wrote.requires (wrote : r.Wrote f r') (other : f ≠ .require) : r'.requires = r.requires :=
  requires_of_own (wrote.own (Ne.symm other) nofun)

theorem Wrote.context (wrote : r.Wrote f r') (other : f ≠ .context) : r'.context = r.context := by
  simpa [Record.own] using wrote.own (Ne.symm other) (by simp)

/-- To change nothing but a field is to write it. -/
theorem wrote_put (typed : r.Typed) (strays : r'.strays = r.strays := by rfl)
    (kind : r'.kind = r.kind := by rfl)
    (frame : AgreesOff f r r' := by
      intro f' other stored
      cases f' <;> first | rfl | exact absurd rfl other | exact absurd rfl (stored _)) :
    r.Wrote f r' := ⟨strays.trans typed, frame, kind⟩

theorem wrote_of_merges (merges : f.merges = true) (typed : r'.Typed) (frame : AgreesOff f r r') :
    r.Wrote f r' := by
  have other : .context ≠ f := by
    rintro rfl
    cases merges
  have same : r'.context = r.context := by simpa [Record.own] using frame .context other (by simp)
  exact ⟨typed, frame, by rw [Record.kind, same, Record.kind]⟩

theorem wrote_assign (typed : r.Typed) {v : Value} (takes : f.takes v = true)
    (done : r.assign f v = .ok r') : r.Wrote f r' ∧ r'.own f = .ok v := by
  obtain ⟨m, assigned, typed', reads, frame⟩ := assign_of_takes typed takes
  cases Except.ok.inj (assigned.symm.trans done)
  exact ⟨wrote_of_merges (Field.merges_of_takes takes) typed' frame, reads⟩

theorem wrote_fill (typed : r.Typed) {v : Value} (takes : f.takes v = true)
    (done : r.fill f v = .ok r') : r.Wrote f r' := by
  obtain ⟨_, m, _, filled, typed', _, frame⟩ := fill_of_takes typed takes
  cases Except.ok.inj (filled.symm.trans done)
  exact wrote_of_merges (Field.merges_of_takes takes) typed' frame

theorem wrote_inherit {p : Record} (typed : r.Typed) (source : p.Typed) (merges : f.merges = true)
    (done : r.inherit f p = .ok r') :
    r.Wrote f r' ∧ ∃ current v, r.own f = .ok current ∧ p.own f = .ok v ∧
      r'.own f = .ok (current.merged v) := by
  obtain ⟨current, v, m, holds, offered, inherits, typed', reads, frame⟩ :=
    inherit_of_merges typed source merges
  cases Except.ok.inj (inherits.symm.trans done)
  exact ⟨wrote_of_merges merges typed' frame, current, v, holds, offered, reads⟩

end Record

/-- Whatever a parser makes of a typed record, it has written one field of it. -/
def Writes (f : Field) (parse : String → Record → Except Failure Record) : Prop :=
  ∀ raw r r', r.Typed → parse raw r = .ok r' → r.Wrote f r'

section

variable {α : Type} {read : String → Except TagFault α} {f : Field} {raw : String} {r r' : Record}

theorem storing_ok {put : α → Record → Except Misuse Record} (done : storing read put raw r = .ok r') :
    ∃ v, read raw = .ok v ∧ put v r = .ok r' := by
  unfold storing at done
  split at done
  · rename_i v given
    exact ⟨v, given, mapError_eq_ok.mp done⟩
  · cases done

theorem setting_ok {put : α → Record → Record} (typed : ∀ v, (put v r).Typed)
    (done : storing read (setting f put) raw r = .ok r') : ∃ v, read raw = .ok v ∧ r' = put v r := by
  obtain ⟨v, given, done⟩ := storing_ok done
  cases done
  exact ⟨v, given, (typed v).settle_eq f⟩

theorem writes_setting (put : α → Record → Record)
    (strays : ∀ v r, (put v r).strays = r.strays := by intros; rfl)
    (kind : ∀ v r, (put v r).kind = r.kind := by intros; rfl)
    (frame : ∀ v r, Record.AgreesOff f r (put v r) := by
      intro v r f' other _; cases f' <;> first | rfl | exact absurd rfl other) :
    Writes f (storing read (setting f put)) := by
  intro raw r r' typed done
  obtain ⟨v, _, rfl⟩ := setting_ok (fun v => (strays v r).trans typed) done
  exact Record.wrote_put typed (strays v r) (kind v r) (frame v r)

theorem writes_listing (item : α → Item) (put : α → Record → Record)
    (strays : ∀ v r, (put v r).strays = r.strays := by intros; rfl)
    (kind : ∀ v r, (put v r).kind = r.kind := by intros; rfl)
    (frame : ∀ v r, Record.AgreesOff f r (put v r) := by
      intro v r f' other _; cases f' <;> first | rfl | exact absurd rfl other) :
    Writes f (storing read (listing f item put)) := by
  intro raw r r' typed done
  obtain ⟨v, _, done⟩ := storing_ok done
  rw [listing, typed.adding] at done
  cases done
  exact Record.wrote_put typed (strays v r) (kind v r) (frame v r)

theorem Writes.askingFirst {parse : String → Record → Except Failure Record} (writes : Writes f parse)
    (asked : Field) : Writes f (askingFirst asked parse) := by
  intro raw r r' typed done
  obtain ⟨_, _, done⟩ := bind_eq_ok.mp done
  exact writes raw r r' typed done

end

namespace Tag

theorem writes_alias : Writes .aliasOf parseAlias := by
  intro raw r r' typed done
  unfold parseAlias at done
  split at done
  · cases done
  · rename_i name _
    obtain ⟨own, _, done⟩ := bind_eq_ok.mp done
    split at done
    · cases done
    · rw [typed.adding] at done
      cases done
      exact Record.wrote_put typed

theorem writes_rename {read : String → Except TagFault String} :
    Writes .context (storing read fun v r => do
      let context ← r.contextFor "name"
      return { r with context := { context with name := v } }) := by
  intro raw r r' typed done
  obtain ⟨v, _, done⟩ := storing_ok done
  simp only [typed.contextFor] at done
  cases done
  exact Record.wrote_put typed

theorem writes_parameter : Writes .parameter parseParameter := by
  intro raw r r' typed done
  unfold parseParameter at done
  split at done
  · cases done
  · split at done
    · cases done
    · obtain ⟨_, _, done⟩ := bind_eq_ok.mp done
      simp only [typed.adding] at done
      cases done
      exact Record.wrote_put typed

theorem writes_require {read : String → Except TagFault Require} :
    Writes .require (storing read addRequire) := by
  intro raw r r' typed done
  obtain ⟨e, _, done⟩ := storing_ok done
  unfold addRequire at done
  split at done
  · cases done
    exact .refl typed .require
  · rw [typed.flaw, typed.adding] at done
    cases done
    exact Record.wrote_put typed

/-- The field that a tag writes. The one tag without a field overrides the name in the context. -/
def place (a : Tag) : Field := a.field.getD .context

/-- Whatever a tag does to a typed record, it has written one field of it. -/
structure Confined (a : Tag) : Prop where
  parse : ∀ step, a.parse = some step → Writes a.place step
  autofill : ∀ r r', r.Typed → Extractor.runAutofill r a = .ok r' → r.Wrote a.place r'
  fallback : ∀ r r', r.Typed → Extractor.applyFallback r a = .ok r' → r.Wrote a.place r'

theorem Confined.keepsTypes {a : Tag} (confined : a.Confined) : a.KeepsTypes where
  parse step parses raw r r' typed done := (confined.parse step parses raw r r' typed done).typed
  autofill r r' typed done := (confined.autofill r r' typed done).typed
  fallback r r' typed done := (confined.fallback r r' typed done).typed

section

variable {a : Tag} {f : Field} {r r' : Record}

theorem wrote_runAutofill (field : a.field = some f)
    (takes : ∀ step, a.autofill = some step → ∀ r v, step r = .ok v → f.takes v = true)
    (typed : r.Typed) (done : Extractor.runAutofill r a = .ok r') : r.Wrote f r' := by
  unfold Extractor.runAutofill at done
  split at done
  · cases done
    exact .refl typed f
  · rename_i step autofills
    obtain ⟨kind, _, done⟩ := bind_eq_ok.mp done
    split at done
    · obtain ⟨v, given, done⟩ := bind_eq_ok.mp done
      have merged : Extractor.mergeFilling r a v = .ok r' := mapError_eq_ok.mp done
      unfold Extractor.mergeFilling at merged
      split at merged
      · cases merged
        exact .refl typed f
      · rw [field] at merged
        exact Record.wrote_fill typed (takes step autofills r v given) merged
    · cases done
      exact .refl typed f

/-- The field of a tag takes its default where the comment does not set the tag and the field
holds nothing. -/
theorem applyFallback_of_typed {step : Record → Except Failure Value} (fallback : a.fallback = some step)
    (field : a.field = some f) (named : f ≠ .other "") (typed : r.Typed)
    {current : Value} (holds : r.own f = .ok current) :
    Extractor.applyFallback r a =
      if r.has a.name || current.truthy then .ok r
      else step r >>= fun v => (r.assign f v).mapError .misuse := by
  rw [Extractor.applyFallback, fallback]
  simp only [typed.sets, field, Extractor.supply, if_neg named, typed.read, holds]
  change (if r.has a.name = true then Except.ok r
    else if current.truthy = true then Except.ok r
    else step r >>= fun v => (r.assign f v).mapError .misuse) = _
  cases r.has a.name <;> rfl

theorem wrote_applyFallback (field : a.field = some f) (merges : f.merges = true)
    (takes : ∀ step, a.fallback = some step → ∀ r v, step r = .ok v → f.takes v = true)
    (typed : r.Typed) (done : Extractor.applyFallback r a = .ok r') : r.Wrote f r' := by
  cases fallback : a.fallback with
  | none =>
    rw [Extractor.applyFallback, fallback] at done
    cases done
    exact .refl typed f
  | some step =>
    obtain ⟨current, holds, _⟩ := r.own_takes merges
    have named : f ≠ .other "" := by
      rintro rfl
      cases merges
    rw [applyFallback_of_typed fallback field named typed holds] at done
    split at done
    · cases done
      exact .refl typed f
    · obtain ⟨v, given, done⟩ := bind_eq_ok.mp done
      exact (Record.wrote_assign typed (takes step fallback r v given) (mapError_eq_ok.mp done)).1

theorem confined_of {step : String → Record → Except Failure Record} (field : a.field = some f)
    (merges : f.merges = true) (parses : a.parse = some step) (writes : Writes f step)
    (autofill : ∀ step, a.autofill = some step → ∀ r v, step r = .ok v → f.takes v = true := by
      nofun)
    (fallback : ∀ step, a.fallback = some step → ∀ r v, step r = .ok v → f.takes v = true := by
      nofun) :
    a.Confined := by
  have place : a.place = f := by rw [Tag.place, field, Option.getD_some]
  refine ⟨fun step' parses' => ?_, fun r r' typed done => ?_, fun r r' typed done => ?_⟩
  · cases Option.some.inj (parses.symm.trans parses')
    exact place.symm ▸ writes
  · exact place.symm ▸ wrote_runAutofill field autofill typed done
  · exact place.symm ▸ wrote_applyFallback field merges fallback typed done

theorem confined_rename : rename.Confined where
  parse step parses := by
    cases parses
    exact writes_rename
  autofill r r' typed done := by
    cases done
    exact .refl typed .context
  fallback r r' typed done := by
    cases done
    exact .refl typed .context

theorem confined_access (c : Config) : (access c).Confined := by
  refine confined_of rfl rfl rfl ?_ nofun ?_
  · intro raw r r' typed done
    obtain ⟨level, _, done⟩ := bind_eq_ok.mp done
    cases done
    have typed' : ({ r with access := some level } : Record).Typed := typed
    rw [typed'.settle_eq]
    exact Record.wrote_put typed
  · rintro _ ⟨⟩ r v given
    cases given
    rfl

theorem confined_content : content.Confined := by
  refine confined_of rfl rfl rfl (writes_setting _) ?_ nofun
  rintro _ ⟨⟩ r v given
  obtain ⟨context, _, given⟩ := bind_eq_ok.mp given
  cases given
  split <;> rfl

theorem confined_group (c : Config) : (group c).Confined := by
  refine confined_of rfl rfl rfl (writes_setting _) nofun ?_
  rintro _ ⟨⟩ r v given
  cases given
  rfl

theorem confined_require : require.Confined := by
  refine confined_of rfl rfl rfl writes_require ?_ nofun
  rintro _ ⟨⟩ r v given
  obtain ⟨found, _, given⟩ := bind_eq_ok.mp given
  cases given
  simp [Field.takes, Field.entry?, Item.require?]

theorem confined_throw : throw.Confined := by
  refine confined_of rfl rfl rfl (writes_listing _ _) ?_ nofun
  rintro _ ⟨⟩ r v given
  obtain ⟨context, _, given⟩ := bind_eq_ok.mp given
  cases given
  simp [Field.takes, Field.entry?, Value.texts, Item.text?]

end

/-- Every builtin tag writes its own field alone. -/
theorem confined_builtins (c : Config) : ∀ a ∈ builtins c, a.Confined := by
  unfold builtins
  simp only [List.forall_mem_cons]
  refine ⟨confined_access c, ?aliasOf, ?author, confined_content, ?deprecated, ?sample,
    confined_group c, ?groupDescription, ?ignore, ?link, confined_rename, ?output, ?parameter,
    ?property, confined_require, ?returns, ?see, ?since, confined_throw, ?todo, ?type, List.forall_mem_nil _⟩
  case aliasOf => exact confined_of rfl rfl rfl writes_alias
  case parameter => exact confined_of rfl rfl rfl writes_parameter
  case author | todo => exact confined_of rfl rfl rfl ((writes_listing _ _).askingFirst _)
  case sample | ignore | link | property | see | since =>
    exact confined_of rfl rfl rfl (writes_listing _ _)
  case deprecated | groupDescription | output | returns | type =>
    exact confined_of rfl rfl rfl (writes_setting _)

theorem places_nodup (c : Config) : ((builtins c).map place).Nodup := by
  have places : (builtins c).map place =
      [.access, .aliasOf, .author, .content, .deprecated, .sample, .group, .groupDescription,
        .ignore, .link, .context, .output, .parameter, .property, .require, .returns, .see, .since,
        .throw, .todo, .type] := rfl
  rw [places]
  decide

/-- No two builtin tags write the same field. -/
theorem eq_of_place {c : Config} {a b : Tag} (first : a ∈ builtins c) (second : b ∈ builtins c)
    (same : a.place = b.place) : a = b :=
  List.inj_on_of_nodup_map (places_nodup c) first second same

theorem merges_builtins (c : Config) :
    ∀ a ∈ builtins c, ∀ f, a.field = some f → f.merges = true ∧ f ≠ .tags := by
  have fields : ∀ f ∈ (builtins c).filterMap (·.field), f.merges = true ∧ f ≠ .tags := by
    have fields : (builtins c).filterMap (·.field) =
        [.access, .aliasOf, .author, .content, .deprecated, .sample, .group, .groupDescription,
          .ignore, .link, .output, .parameter, .property, .require, .returns, .see, .since,
          .throw, .todo, .type] := rfl
    rw [fields]
    decide
  intro a member f field
  exact fields f (List.mem_filterMap.mpr ⟨a, member, field⟩)

theorem place_ne_tags {c : Config} {a : Tag} (member : a ∈ builtins c) : a.place ≠ .tags := by
  unfold place
  cases field : a.field with
  | none => nofun
  | some f => exact (merges_builtins c a member f field).2

end Tag

end SheetDoc
