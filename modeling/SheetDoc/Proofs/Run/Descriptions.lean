import SheetDoc.Proofs.Config.Rebuilt
import SheetDoc.Proofs.Data.Merge
import SheetDoc.Proofs.Extraction.Descriptions
import SheetDoc.Proofs.Run.Ending
import SheetDoc.Proofs.Run.Origins
import SheetDoc.Proofs.Run.Prepared

namespace SheetDoc

/-- A record with the group and the description that its block, the posters of its file and those of the
run give it. -/
structure Origin.Describes (x : Extractor) (c : Config) (posters : List Block) (o : Origin) (r : Record) :
    Prop where
  group : r.primaryGroup c.defaultGroup =
    Text.lowered (((o.block :: o.posters).findSome? x.groupOf?).getD c.defaultGroup)
  words : r.groupDescription = (x.descriptionOf? o.block).or
    (Assoc.last? (posters.filterMap x.describes?) (r.primaryGroup c.defaultGroup))

variable {x : Extractor} {c : Config} {settings : Assoc Scalar Data} {rs : List Record}

theorem Extractor.Yields.described {o : Origin} {r : Record} (standard : x.IsBuiltin c)
    (yields : x.Yields o r) :
    r.Typed ∧ r.groupDescription = x.descriptionOf? o.block ∧ r.primaryGroup c.defaultGroup =
      Text.lowered (((o.block :: o.posters).findSome? x.groupOf?).getD c.defaultGroup) := by
  obtain ⟨d, ps, done, made, completes⟩ := yields
  have sources : ∀ p ∈ ps, p.Familiar c := Extractor.familiar_of_extracts standard made
  have typed : d.Typed := (Extractor.familiar_extract standard done).typed
  refine ⟨standard.keepsTypes.maintains.completes (fun p member => (sources p member).typed) typed
    completes, ?_, Extractor.completes_group standard made done completes⟩
  rw [Extractor.completes_description standard typed sources completes,
    Extractor.description_of_extract standard done]

theorem Store.groupDescriptions_extend (rs : List Record) (s : Store) :
    (s.extend rs).1.groupDescriptions = s.groupDescriptions := by
  refine eachUntil_keeps (P := fun t : Store => t.groupDescriptions = s.groupDescriptions)
    (fun r _ t same => ?_) rfl
  unfold add
  simp only
  split
  · exact same
  · split <;> exact same

/-- What posters say of a group in a run, the last word of all. -/
theorem Action.descriptions_absorbed (standard : x.IsBuiltin c)
    (small : Text.lowered x.defaultGroup = x.defaultGroup) (actions : List Action) (s : Store)
    (group : String) :
    ((actions.filterMap (·.found? x)).foldl Store.absorb s).groupDescriptions.get? group =
      (Assoc.last? ((actions.flatMap (Action.posters x)).filterMap x.describes?) group).or
        (s.groupDescriptions.get? group) := by
  induction actions generalizing s with
  | nil => rfl
  | cons action rest ih =>
    rw [List.filterMap_cons, List.flatMap_cons]
    cases taken : action.found? x with
    | none =>
      rw [(of_not_found? taken).2]
      exact ih s
    | some found =>
      obtain ⟨call, rfl, parsed⟩ := of_found? taken
      obtain ⟨_, ps, made, described⟩ := Call.yields_of_parsed parsed
      have absorbed : (s.absorb found).groupDescriptions = s.groupDescriptions.update
          (.ofList ((call.posters x).filterMap x.describes?)) := by
        rw [Store.absorb, Store.groupDescriptions_extend, described,
          Extractor.describedGroups_eq standard small made]
      rw [List.foldl_cons, ih, absorbed, Assoc.get?_update_ofList, List.filterMap_append,
        Assoc.last?_append, Option.or_assoc]
      rfl

namespace Run

variable {run : Run}

/-- The records that a run gives are records of its store. -/
theorem mem_of_collect {s : Store} (typed : ∀ r ∈ s.records, r.Typed) (done : collect c s = .ok rs) :
    ∀ r ∈ rs, r ∈ s.records := by
  obtain ⟨levels, _, rfl⟩ := (collect_eq_ok typed).mp done
  intro r member
  exact inOrder_perm.mem_iff.mp (List.mem_of_mem_filter member)

/-- A record takes the description of its group where it has none. -/
theorem described_attach {o : Origin} {posters : List Block} {descriptions : Assoc String String}
    {r : Record} (typed : r.Typed) (own : r.groupDescription = x.descriptionOf? o.block)
    (group : r.primaryGroup c.defaultGroup =
      Text.lowered (((o.block :: o.posters).findSome? x.groupOf?).getD c.defaultGroup))
    (told : ∀ group, descriptions.get? group = Assoc.last? (posters.filterMap x.describes?) group) :
    o.Describes x c posters
      (match r.groupDescription, r.strayValue? .groupDescription with
      | none, none =>
        { r with groupDescription := descriptions.get? (r.primaryGroup c.defaultGroup) }
      | _, _ => r) := by
  rw [typed.strayValue?]
  cases given : r.groupDescription with
  | none => exact ⟨group, by rw [← own, given, told]; rfl⟩
  | some words => exact ⟨group, by rw [← own, given]; rfl⟩

/-- Descriptions of groups reach their records. -/
theorem finish_describes (built : Config.build settings = .ok c) (prepared : prepare c [] none = .ok x)
    (actions : List Action) (done : ((opened c x).perform actions).finish.2 = .ok rs) :
    let s := ((opened c x).perform actions).finish.1.store
    (∀ r ∈ rs, r ∈ s.records) ∧
      List.Forall₂ (Origin.Describes x c (actions.flatMap (Action.posters x)))
        (actions.flatMap (Action.origins x)) s.records := by
  intro s
  have standard := isBuiltin_of_prepare prepared
  have small : Text.lowered x.defaultGroup = x.defaultGroup := by
    rw [(settings_of_prepare prepared).2]
    exact (Config.built_of_build built).defaultGroup
  have origins := records_perform (c := c) standard.keepsTypes actions
  have start : (opened c x).Underway c x := underway_perform standard.keepsTypes c []
  have told : ∀ group, ((opened c x).perform actions).store.groupDescriptions.get? group =
      Assoc.last? ((actions.flatMap (Action.posters x)).filterMap x.describes?) group := by
    intro group
    rw [store_perform standard.keepsTypes start, Action.descriptions_absorbed standard small]
    exact Option.or_none
  obtain ⟨l, ends, store, typed, collected⟩ := endsIn_of_finish standard actions done
  have store : s = attachDescriptions l.store c.defaultGroup := store
  refine ⟨mem_of_collect typed collected, ?_⟩
  have linked := ends.linked.forall₂.imp fun _ _ both => both.2
  have groups : l.store.groupDescriptions = ((opened c x).perform actions).store.groupDescriptions :=
    ends.linked.groupDescriptions
  rw [store]
  refine List.forall₂_map_right_iff.mpr ((forall₂_comp origins linked).imp ?_)
  rintro o r' ⟨r, ⟨r₀, yields, _, rfl⟩, _, _, rfl⟩
  obtain ⟨typed, words, group⟩ := yields.described standard
  exact described_attach typed words group fun name => by rw [groups, told]

/-- Two files, the first of which describes the group of the second in other letters. -/
def formsActions : List Action :=
  [.call (.source "a.scss" "////\n/// @group Forms\n/// @groupDescription Form helpers.\n////\n"),
    .call (.source "b.scss" "/// @group FORMS\n$a: 1;")]

theorem finish_describes_forms :
    let run := (opened .default filling).perform formsActions
    let s := run.finish.1.store
    Config.build [] = .ok .default ∧ prepare .default [] none = .ok filling ∧
      s.records.map (·.groupDescription) = [some "Form helpers."] ∧
      ∃ rs, run.finish.2 = .ok rs ∧ (∀ r ∈ rs, r ∈ s.records) ∧
        List.Forall₂ (Origin.Describes filling .default (formsActions.flatMap (Action.posters filling)))
          (formsActions.flatMap (Action.origins filling)) s.records := by
  have standard := isBuiltin_of_prepare prepare_default
  have levels : accessLevels Config.default.access = .ok ["public", "private"] :=
    accessLevels_texts ["public", "private"]
  have done := finish_total standard rfl levels formsActions
  have words : ((opened .default filling).perform formsActions).finish.1.store.records.map
      (·.groupDescription) = [some "Form helpers."] := by decide +kernel
  exact ⟨Config.build_nil, prepare_default, words, _, done,
    finish_describes Config.build_nil prepare_default formsActions done⟩

end Run

end SheetDoc
