import SheetDoc.Proofs.Record.Veil
import SheetDoc.Tag.Builtin

namespace SheetDoc

open Record Veil

namespace Tag

variable {v : Veil}

/-- No step of the tag looks behind the veil or changes what is there. -/
structure Blind (a : Tag) (v : Veil) : Prop where
  parse : ∀ step, a.parse = some step → ∀ raw, v.Blind (step raw)
  autofill : ∀ step, a.autofill = some step → ∀ r, step (v.hide r) = step r
  fallback : ∀ step, a.fallback = some step → ∀ r, step (v.hide r) = step r

theorem blind_of {a : Tag} {step : String → Record → Except Failure Record}
    (parses : a.parse = some step) (blind : ∀ raw, v.Blind (step raw))
    (autofill : ∀ step, a.autofill = some step → ∀ r, step (v.hide r) = step r := by nofun)
    (fallback : ∀ step, a.fallback = some step → ∀ r, step (v.hide r) = step r := by nofun) :
    a.Blind v := by
  refine ⟨fun step' parses' => ?_, autofill, fallback⟩
  cases Option.some.inj (parses.symm.trans parses')
  exact blind

section

variable {α : Type} {read : String → Except TagFault α}

theorem blind_storing {put : α → Record → Except Misuse Record}
    (blind : ∀ value, v.Blind (put value)) (raw : String) :
    v.Blind (storing read put raw) := by
  intro r
  unfold storing
  cases read raw with
  | error fault => rfl
  | ok value => exact (blind value).mapError Failure.misuse r

theorem blind_setting {f : Field} {put : α → Record → Record}
    (same : ∀ value r, put value (v.hide r) = v.hide (put value r)) (value : α) :
    v.Blind (setting f put value) := by
  refine blind_ok (f := fun r => (put value r).settle f) fun r => ?_
  rw [same]
  rfl

theorem blind_listing {f : Field} {item : α → Item} {put : α → Record → Record}
    (same : ∀ value r, put value (v.hide r) = v.hide (put value r)) (value : α) :
    v.Blind (listing f item put value) := blind_adding f (item value) (put value) (same value)

end

theorem blind_askingFirst {f : Field} {parse : String → Record → Except Failure Record}
    (blind : ∀ raw, v.Blind (parse raw)) (raw : String) :
    v.Blind (askingFirst f parse raw) := by
  intro r
  unfold askingFirst
  rw [holdsList_hide]
  cases r.holdsList f with
  | error fault => rfl
  | ok => exact blind raw r

theorem accessLevel_hide (mark : Data) (raw : String) (r : Record) :
    accessLevel mark raw (v.hide r) = accessLevel mark raw r := by
  simp only [accessLevel, isPrivateName, readName_hide]

theorem blind_parseAccess (mark : Data) (raw : String) :
    v.Blind fun r => accessLevel mark raw r >>= fun level =>
      (.ok (({ r with access := some level } : Record).settle .access) : Except Failure Record) :=
  blind_asking (accessLevel_hide mark raw) fun _ => blind_ok (by intros; rfl)

theorem blind_parseAlias (raw : String) : v.Blind (parseAlias raw) := by
  unfold parseAlias
  cases readAlias raw with
  | error fault => exact fun _ => rfl
  | ok name =>
    refine blind_asking (fun r => by rw [readName_hide]) fun own => ?_
    by_cases same : name = own
    · simp only [if_pos same]
      exact fun _ => rfl
    · simp only [if_neg same]
      exact (blind_adding .aliasOf (.text name)
        (fun r => { r with aliases := r.aliases ++ [name] }) (by intros; rfl)).mapError
          Failure.misuse

theorem blind_rename (name : String) :
    v.Blind fun r => r.contextFor "name" >>= fun context =>
      (.ok { r with context := { context with name := name } } : Except Misuse Record) := by
  intro r
  simp only [contextFor_hide]
  cases r.contextFor "name" <;> rfl

theorem blind_parseParameter (raw : String) : v.Blind (parseParameter raw) := by
  intro r
  unfold parseParameter
  cases readTypedEntry "parameter" raw with
  | error fault => rfl
  | ok e =>
    have parameters : (v.hide r).parameters = r.parameters := rfl
    simp only [parameters, flaw_hide]
    split
    · rfl
    · cases r.flaw .parameter "name" with
      | error fault => rfl
      | ok =>
        let p : Parameter := ⟨e.name, e.type, e.description, e.value⟩
        exact (blind_adding .parameter (.parameter p)
          (fun r => { r with parameters := r.parameters ++ [p] }) (by intros; rfl)).mapError
            Failure.misuse r

theorem blind_addRequire (e : Require) : v.Blind (addRequire e) := by
  intro r
  have requires : (v.hide r).requires = r.requires := rfl
  unfold addRequire
  rw [requires, flaw_hide]
  split
  · rfl
  · cases r.flaw .require "key" with
    | error fault => rfl
    | ok =>
      exact blind_adding .require (.require e)
        (fun r => { r with requires := r.requires ++ [e] }) (by intros; rfl) r

theorem suggestedRequires_hide (r : Record) :
    suggestedRequires (v.hide r) = suggestedRequires r := by
  unfold suggestedRequires
  rw [contextFor_hide]
  cases r.contextFor "code" <;> rfl

/-- No builtin tag looks behind a veil. -/
theorem blind_builtins (c : Config) (v : Veil) : ∀ a ∈ builtins c, a.Blind v := by
  unfold builtins
  simp only [List.forall_mem_cons]
  refine ⟨?access, ?aliasOf, ?author, ?content, ?deprecated, ?sample, ?group, ?groupDescription,
    ?ignore, ?link, ?rename, ?output, ?parameter, ?property, ?require, ?returns, ?see, ?since,
    ?throw, ?todo, ?type, List.forall_mem_nil _⟩
  case access => exact blind_of rfl (blind_parseAccess c.privatePrefix) nofun (by rintro _ ⟨⟩ r; rfl)
  case aliasOf => exact blind_of rfl blind_parseAlias
  case rename => exact blind_of rfl (blind_storing blind_rename)
  case parameter => exact blind_of rfl blind_parseParameter
  case author | todo => exact blind_of rfl (blind_askingFirst (blind_storing (blind_listing (by intros; rfl))))
  case sample | ignore | link | property | see | since =>
    exact blind_of rfl (blind_storing (blind_listing (by intros; rfl)))
  case deprecated | groupDescription | output | returns | type =>
    exact blind_of rfl (blind_storing (blind_setting (by intros; rfl)))
  case group =>
    exact blind_of rfl (blind_storing (blind_setting (by intros; rfl))) nofun (by rintro _ ⟨⟩ r; rfl)
  case content =>
    refine blind_of rfl (blind_storing (blind_setting (by intros; rfl))) ?_ nofun
    rintro _ ⟨⟩ r
    simp only [contextFor_hide]
    cases r.contextFor "code" <;> rfl
  case require =>
    refine blind_of rfl (blind_storing blind_addRequire) ?_ nofun
    rintro _ ⟨⟩ r
    simp only [suggestedRequires_hide]
  case throw =>
    refine blind_of rfl (blind_storing (blind_listing (by intros; rfl))) ?_ nofun
    rintro _ ⟨⟩ r
    simp only [contextFor_hide]
    cases r.contextFor "code" <;> rfl

end Tag

end SheetDoc
