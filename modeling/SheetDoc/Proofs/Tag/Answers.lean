import SheetDoc.Proofs.Tag.Frame

namespace SheetDoc

/-- On a typed record a parser takes a value or refuses it with a reason. -/
def Answers (parse : String → Record → Except Failure Record) : Prop :=
  ∀ raw r, r.Typed → (∃ r', parse raw r = .ok r') ∨ ∃ fault, parse raw r = .error (.tag fault)

/-- Names are private by a text that they begin with, or none is. -/
def Config.HasTextPrefix (c : Config) : Prop :=
  c.privatePrefix.truthy = true → ∃ s, c.privatePrefix = .scalar (.text s)

section

variable {α : Type} {read : String → Except TagFault α} {f : Field}

theorem answers_storing {put : α → Record → Except Misuse Record}
    (takes : ∀ v r, r.Typed → ∃ r', put v r = .ok r') : Answers (storing read put) := by
  intro raw r typed
  unfold storing
  cases read raw with
  | error fault => exact Or.inr ⟨fault, rfl⟩
  | ok v =>
    obtain ⟨r', done⟩ := takes v r typed
    exact Or.inl ⟨r', mapError_eq_ok.mpr done⟩

theorem answers_setting (put : α → Record → Record) : Answers (storing read (setting f put)) :=
  answers_storing fun _ _ _ => ⟨_, rfl⟩

theorem answers_listing (item : α → Item) (put : α → Record → Record) :
    Answers (storing read (listing f item put)) :=
  answers_storing fun _ _ typed => ⟨_, typed.adding f _ _⟩

theorem Answers.askingFirst {parse : String → Record → Except Failure Record}
    (answers : Answers parse) (asked : Field) : Answers (askingFirst asked parse) := by
  intro raw r typed
  have holds : r.holdsList asked = .ok () := by rw [Record.holdsList, typed.strayValue?]
  unfold SheetDoc.askingFirst
  rw [holds]
  exact answers raw r typed

end

namespace Tag

variable {c : Config} {r : Record}

theorem isPrivateName_total (text : c.HasTextPrefix) (typed : r.Typed) :
    ∃ hidden, isPrivateName c.privatePrefix r = .ok hidden := by
  unfold isPrivateName
  split
  · rename_i marks
    obtain ⟨s, same⟩ := text marks
    rw [typed.readName, same]
    exact ⟨_, rfl⟩
  · exact ⟨false, rfl⟩

theorem answers_access (text : c.HasTextPrefix) :
    Answers fun raw r => do
      let level ← accessLevel c.privatePrefix raw r
      return ({ r with access := some level }).settle .access := by
  intro raw r typed
  obtain ⟨hidden, found⟩ := isPrivateName_total text typed
  simp only [accessLevel, found]
  split_ifs
  · exact Or.inl ⟨_, rfl⟩
  · exact Or.inl ⟨_, rfl⟩
  · exact Or.inr ⟨_, rfl⟩

theorem answers_alias : Answers parseAlias := by
  intro raw r typed
  unfold parseAlias
  cases readAlias raw with
  | error fault => exact Or.inr ⟨fault, rfl⟩
  | ok name =>
    simp only [typed.readName, typed.adding]
    change (∃ r', (if name = r.name then _ else _) = Except.ok r') ∨
      ∃ fault, (if name = r.name then _ else _) = Except.error (Failure.tag fault)
    split_ifs
    · exact Or.inr ⟨_, rfl⟩
    · exact Or.inl ⟨_, rfl⟩

theorem answers_parameter : Answers parseParameter := by
  intro raw r typed
  unfold parseParameter
  cases readTypedEntry "parameter" raw with
  | error fault => exact Or.inr ⟨fault, rfl⟩
  | ok e =>
    simp only [typed.flaw, typed.adding]
    split_ifs
    · exact Or.inr ⟨_, rfl⟩
    · exact Or.inl ⟨_, rfl⟩

theorem addRequire_total (e : Require) (typed : r.Typed) : ∃ r', addRequire e r = .ok r' := by
  unfold addRequire
  rw [typed.flaw, typed.adding]
  split_ifs
  · exact ⟨r, rfl⟩
  · exact ⟨_, rfl⟩

/-- On a typed record no step of the tag gives up. -/
structure Answering (a : Tag) : Prop where
  parse : ∀ step, a.parse = some step → Answers step
  autofill : ∀ r, r.Typed → ∃ r', Extractor.runAutofill r a = .ok r'

theorem runAutofill_total {a : Tag} {f : Field} (field : a.field = some f)
    (gives : ∀ step, a.autofill = some step → ∀ r, r.Typed →
      ∃ v, step r = .ok v ∧ f.takes v = true) (typed : r.Typed) :
    ∃ r', Extractor.runAutofill r a = .ok r' := by
  cases fills : a.autofill with
  | none => exact ⟨r, by rw [Extractor.runAutofill, fills]⟩
  | some step =>
    obtain ⟨v, given, takes⟩ := gives step fills r typed
    obtain ⟨_, r', _, filled, _⟩ := Record.fill_of_takes typed takes
    simp only [Extractor.runAutofill, fills, typed.readKind, given]
    change ∃ r', (if a.allowsKind r.kind = true then
      (Extractor.mergeFilling r a v).mapError Failure.misuse else Except.ok r) = Except.ok r'
    split_ifs
    · unfold Extractor.mergeFilling
      simp only [field, filled]
      split_ifs
      · exact ⟨r, rfl⟩
      · exact ⟨r', rfl⟩
    · exact ⟨r, rfl⟩

theorem answering_of {a : Tag} {f : Field} {step : String → Record → Except Failure Record}
    (field : a.field = some f) (parses : a.parse = some step) (answers : Answers step)
    (gives : ∀ step, a.autofill = some step → ∀ r, r.Typed →
      ∃ v, step r = .ok v ∧ f.takes v = true := by nofun) : a.Answering := by
  refine ⟨fun step' parses' => ?_, fun r typed => runAutofill_total field gives typed⟩
  cases Option.some.inj (parses.symm.trans parses')
  exact answers

theorem answering_rename : rename.Answering where
  parse step parses := by
    cases parses
    refine answers_storing fun name r typed => ?_
    simp only [typed.contextFor]
    exact ⟨_, rfl⟩
  autofill r _ := ⟨r, rfl⟩

theorem answering_content : content.Answering := by
  refine answering_of rfl rfl (answers_setting _) ?_
  rintro _ ⟨⟩ r typed
  simp only [typed.contextFor]
  refine ⟨_, rfl, ?_⟩
  split <;> rfl

theorem suggestedRequires_total (typed : r.Typed) : ∃ found, suggestedRequires r = .ok found := by
  rw [suggestedRequires, typed.contextFor, typed.flaw]
  change ∃ found, (if (dropComments r.context.code.toList).isEmpty = true then Except.ok []
    else Except.ok (usedRecords r)) = Except.ok found
  split_ifs
  · exact ⟨[], rfl⟩
  · exact ⟨usedRecords r, rfl⟩

theorem answering_require : require.Answering := by
  refine answering_of rfl rfl (answers_storing fun e r typed => addRequire_total e typed) ?_
  rintro _ ⟨⟩ r typed
  obtain ⟨found, suggested⟩ := suggestedRequires_total typed
  simp only [suggested]
  refine ⟨_, rfl, ?_⟩
  simp [Field.takes, Field.entry?, Item.require?]

theorem answering_throw : throw.Answering := by
  refine answering_of rfl rfl (answers_listing _ _) ?_
  rintro _ ⟨⟩ r typed
  simp only [typed.contextFor]
  refine ⟨_, rfl, ?_⟩
  simp [Field.takes, Field.entry?, Value.texts, Item.text?]

/-- What the code is asked for, it answers, however private names are told. -/
theorem runAutofill_builtins : ∀ a ∈ builtins c, ∀ r : Record, r.Typed →
    ∃ r', Extractor.runAutofill r a = .ok r' := by
  unfold builtins
  simp only [List.forall_mem_cons]
  refine ⟨?access, ?aliasOf, ?author, answering_content.autofill, ?deprecated, ?sample, ?group,
    ?groupDescription, ?ignore, ?link, ?rename, ?output, ?parameter, ?property,
    answering_require.autofill, ?returns, ?see, ?since, answering_throw.autofill, ?todo, ?type,
    List.forall_mem_nil _⟩
  all_goals exact fun r _ => ⟨r, rfl⟩

/-- Where private names are told by a text, no builtin tag gives up on a typed record. -/
theorem answering_builtins (text : c.HasTextPrefix) : ∀ a ∈ builtins c, a.Answering := by
  unfold builtins
  simp only [List.forall_mem_cons]
  refine ⟨?access, ?aliasOf, ?author, answering_content, ?deprecated, ?sample, ?group,
    ?groupDescription, ?ignore, ?link, answering_rename, ?output, ?parameter, ?property,
    answering_require, ?returns, ?see, ?since, answering_throw, ?todo, ?type, List.forall_mem_nil _⟩
  case access => exact answering_of rfl rfl (answers_access text)
  case aliasOf => exact answering_of rfl rfl answers_alias
  case parameter => exact answering_of rfl rfl answers_parameter
  case author | todo => exact answering_of rfl rfl ((answers_listing _ _).askingFirst _)
  case sample | ignore | link | property | see | since =>
    exact answering_of rfl rfl (answers_listing _ _)
  case deprecated | group | groupDescription | output | returns | type =>
    exact answering_of rfl rfl (answers_setting _)

end Tag

end SheetDoc
