import SheetDoc.Proofs.Extraction.Draft
import SheetDoc.Proofs.Tag.Blind

namespace SheetDoc

open Record Veil

namespace Extractor

variable {x : Extractor} {c : Config} {a : Tag} {v : Veil}

theorem blind_addTag (name : String) : v.Blind fun r => addTag r name :=
  blind_adding .tags (.text name) (fun r => { r with tags := r.tags ++ [name] }) (by intros; rfl)

theorem blind_mark (name : String) : v.Blind fun r => mark r name := by
  refine blind_asking (marks_hide v · name) fun marked => ?_
  cases marked with
  | true => exact fun _ => rfl
  | false => exact blind_addTag name

theorem objection?_hide (poster : Bool) (a : Tag) (r : Record) :
    objection? poster (v.hide r) a = objection? poster r a := by
  simp only [objection?, readKind_hide, sets_hide]

theorem blind_fillSignatureDefaults : v.Blind fillSignatureDefaults := by
  refine blind_asking (readKind_hide v) fun kind => ?_
  refine blind_asking (read_hide rfl) fun parameters => ?_
  by_cases fills : (kind = .function ∨ kind = .mixin) ∧ parameters.truthy = true
  · simp only [if_pos fills]
    exact blind_asking (flaw_hide v · .parameter "default") fun _ _ => rfl
  · simp only [if_neg fills]
    exact fun _ => rfl

theorem blind_keepExtra (a : Tag) (value : Value) : v.Blind fun r => keepExtra r a value := by
  intro r
  have extra : (v.hide r).extra = r.extra := rfl
  simp only [keepExtra, strayValue?_hide, extra]
  split
  · split <;> rfl
  · split <;> rfl
  · rfl

theorem blind_mergeFilling (merges : ∀ f, a.field = some f → f.merges = true) (value : Value) :
    v.Blind fun r => mergeFilling r a value := by
  intro r
  simp only [mergeFilling]
  split
  · rfl
  · split
    · rename_i f field
      exact blind_fill (merges f field) value r
    · exact blind_keepExtra a value r

theorem blind_runAutofill (blind : a.Blind v) (merges : ∀ f, a.field = some f → f.merges = true) :
    v.Blind fun r => runAutofill r a := by
  cases fills : a.autofill with
  | none =>
    simp only [runAutofill, fills]
    exact fun _ => rfl
  | some step =>
    simp only [runAutofill, fills]
    refine blind_asking (fun r => by rw [readKind_hide]) fun kind => ?_
    by_cases allowed : a.allowsKind kind = true
    · simp only [if_pos allowed]
      refine blind_asking (blind.autofill step fills) fun value => ?_
      exact (blind_mergeFilling merges value).mapError Failure.misuse
    · simp only [if_neg allowed]
      exact fun _ => rfl

theorem blind_supply {f : Field} {step : Record → Except Failure Value}
    (blind : ∀ r, step (v.hide r) = step r) (merges : f.merges = true) :
    v.Blind fun r => supply r f step := by
  have named : f ≠ .other "" := by
    rintro rfl
    cases merges
  simp only [supply, if_neg named]
  refine blind_asking (fun r => by rw [read_hide merges]) fun current => ?_
  by_cases holds : current.truthy = true
  · simp only [if_pos holds]
    exact fun _ => rfl
  · simp only [if_neg holds]
    refine blind_asking blind fun value => ?_
    exact (blind_assign merges value).mapError Failure.misuse

theorem blind_applyFallback (blind : a.Blind v) (merges : ∀ f, a.field = some f → f.merges = true) :
    v.Blind fun r => applyFallback r a := by
  cases falls : a.fallback with
  | none =>
    simp only [applyFallback, falls]
    exact fun _ => rfl
  | some step =>
    simp only [applyFallback, falls]
    refine blind_asking (fun r => by rw [sets_hide]) fun set => ?_
    cases set with
    | true => exact fun _ => rfl
    | false =>
      cases field : a.field with
      | none => exact fun _ => rfl
      | some f => exact blind_supply (blind.fallback step falls) (merges f field)

theorem describedGroups_hide (posters : List Record) :
    x.describedGroups (posters.map v.hide) = x.describedGroups posters := by
  unfold describedGroups
  rw [List.filterMap_map]
  rfl

namespace IsBuiltin

variable (standard : x.IsBuiltin c)

include standard

theorem blind (v : Veil) (member : a ∈ x.registry.toList) :
    a.Blind v ∧ ∀ f, a.field = some f → f.merges = true := by
  rw [standard.listed] at member
  exact ⟨Tag.blind_builtins c v a member, fun f field => (Tag.merges_builtins c a member f field).1⟩

theorem blind_applyFallbacks : v.Blind x.applyFallbacks :=
  blind_foldlM fun _ member =>
    blind_applyFallback (standard.blind v member).1 (standard.blind v member).2

theorem finishDraft_hide (poster : Bool) (r : Record) :
    x.finishDraft poster (v.hide r) = (x.finishDraft poster r).map (Option.map v.hide) := by
  have blind : v.Blind fun r => x.autofill.foldlM runAutofill r := blind_foldlM fun a member => by
    have listed : a ∈ x.registry.toList := standard.listed ▸ (standard.filling a member).1
    exact blind_runAutofill (standard.blind v listed).1 (standard.blind v listed).2
  cases poster with
  | true => rfl
  | false =>
    have filled := blind_fillSignatureDefaults (v := v) r
    simp only [finishDraft, filled]
    cases fillSignatureDefaults r with
    | error fault => rfl
    | ok m =>
      have autofilled := blind m
      simp only [Except.map, bind, Except.bind, liftM, monadLift, MonadLift.monadLift,
        Except.mapError] at autofilled ⊢
      simp only [autofilled]
      cases x.autofill.foldlM runAutofill m <;> rfl

/-- A tag does to a veiled record what it does to the record, unless it is an unknown word that is kept
behind the veil. -/
theorem applyTag_hide {item : Tagged}
    (words : x.registry.get? item.tag = .ok none → v.Blind (keepUnknown · item.tag item.raw))
    (poster : Bool) (line : Int) (r : Record) :
    x.applyTag poster line (v.hide r) item = (x.applyTag poster line r item).map v.hide := by
  unfold applyTag
  cases found : x.registry.get? item.tag with
  | error fault => rfl
  | ok entry =>
    cases entry with
    | none =>
      simp only
      split
      · exact congrArg Report.ofExcept ((words found).mapError Failure.misuse r)
      · rfl
    | some a =>
      simp only
      cases parses : a.parse with
      | none => rfl
      | some parse =>
        have blind := (standard.blind v (Registry.mem_of_get? found)).1.parse parse parses item.raw
        simp only [readPath_hide, objection?_hide, blind r]
        cases r.readPath with
        | error fault => rfl
        | ok path =>
          cases objection? poster r a with
          | error fault => rfl
          | ok objection =>
            cases objection with
            | some message => rfl
            | none =>
              cases parse item.raw r with
              | error failure => cases failure <;> rfl
              | ok m =>
                exact congrArg Report.ofExcept ((blind_mark a.name).mapError Failure.misuse m)

theorem takeOver_hide {w : Veil} (poster r : Record) (name : String) :
    x.takeOver (w.hide poster) (v.hide r) name = (x.takeOver poster r name).map v.hide := by
  simp only [takeOver, sets_hide, readKind_hide]
  cases found : x.registry.get? name with
  | error fault => rfl
  | ok entry =>
    cases entry with
    | none => rfl
    | some a =>
      simp only [bind, Except.bind]
      cases field : a.field with
      | none => rfl
      | some f =>
        have merges := (standard.blind v (Registry.mem_of_get? found)).2 f field
        simp only
        split
        · rfl
        · cases r.sets name with
          | error fault => rfl
          | ok set =>
            cases set with
            | true => rfl
            | false =>
              cases r.readKind with
              | error fault => rfl
              | ok kind =>
                simp only [inherit_hide merges, Bool.false_eq_true, if_false]
                split
                · cases r.inherit f poster with
                  | error fault => rfl
                  | ok m => exact blind_addTag name m
                · rfl

theorem mergePoster_hide {w : Veil} (poster r : Record) :
    x.mergePoster (w.hide poster) (v.hide r) = (x.mergePoster poster r).map v.hide := by
  have tags : (w.hide poster).tags = poster.tags := rfl
  unfold mergePoster
  rw [tags]
  generalize poster.tags = names
  induction names generalizing r with
  | nil => rfl
  | cons name rest ih =>
    simp only [List.foldlM_cons, standard.takeOver_hide]
    cases x.takeOver poster r name with
    | error fault => rfl
    | ok m => exact ih m

theorem mergePosters_hide {w : Veil} (posters rs : List Record) :
    x.mergePosters (posters.map w.hide) (rs.map v.hide) =
      (x.mergePosters posters rs).map (List.map v.hide) := by
  unfold mergePosters
  induction posters generalizing rs with
  | nil => rfl
  | cons poster rest ih =>
    simp only [List.map_cons, List.foldlM_cons, mapM_hide (standard.mergePoster_hide poster)]
    cases rs.mapM (x.mergePoster poster) with
    | error fault => rfl
    | ok ms => exact ih ms

theorem assemble_hide {w : Veil} (posters rs : List Record) :
    x.assemble (posters.map w.hide) (rs.map v.hide) =
      (x.assemble posters rs).map fun found => { found with records := found.records.map v.hide } := by
  simp only [assemble, standard.mergePosters_hide, describedGroups_hide]
  cases x.mergePosters posters rs with
  | error fault => rfl
  | ok merged =>
    have completed := mapM_hide (standard.blind_applyFallbacks (v := v)) merged
    simp only [Except.map, bind, Except.bind, liftM, monadLift, MonadLift.monadLift,
      Except.mapError] at completed ⊢
    simp only [completed]
    cases merged.mapM x.applyFallbacks <;> rfl

/-- A veiled draft becomes the veiled record. -/
theorem completes_hide {w : Veil} {posters : List Record} {r r' : Record}
    (completes : x.Completes posters r r') :
    x.Completes (posters.map w.hide) (v.hide r) (v.hide r') := by
  obtain ⟨m, merged, completed⟩ := completes
  refine ⟨v.hide m, ?_, ?_⟩
  · rw [List.foldlM_map]
    induction posters generalizing r with
    | nil =>
      cases merged
      rfl
    | cons poster rest ih =>
      obtain ⟨n, first, later⟩ := foldlM_cons_eq_ok.mp merged
      refine foldlM_cons_eq_ok.mpr ⟨v.hide n, ?_, ih later⟩
      rw [standard.mergePoster_hide, first]
      rfl
  · rw [standard.blind_applyFallbacks m, completed]
    rfl

end IsBuiltin

end Extractor

end SheetDoc
