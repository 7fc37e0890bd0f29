import SheetDoc.Proofs.Extraction.Declared
import SheetDoc.Proofs.Run.Ending
import SheetDoc.Proofs.Run.Origins
import SheetDoc.Proofs.Run.Prepared

namespace SheetDoc

/-- The warning about a requirement that nothing answers to. -/
def Record.unmet (r : Record) (e : Require) : Event :=
  r.complaint ("Item `" ++ r.name ++ "` requires `" ++ e.name ++ "` from type `" ++ e.kind.word ++
    "` but this item doesn't exist.")

namespace Origin

/-- What is declared for the record of a block, by its comment or else by the first poster of the file
that declares anything. -/
def declared (x : Extractor) (o : Origin) : List Require := x.firstDeclared (o.block :: o.posters)

/-- What the code of a block suggests beyond what the comment declares. -/
def suggested (x : Extractor) (o : Origin) : List Require :=
  match (x.extract o.block o.file).result with
  | .ok (some d) => d.requires.filter (·.autofill)
  | _ => []

/-- The code of a block suggests what no more than a poster may declare. -/
def Shadows (x : Extractor) (o : Origin) (e : Require) : Prop :=
  x.declares o.block = [] ∧ ∃ e' ∈ o.suggested x, e'.key = e.key

end Origin

section

variable {x : Extractor} {c : Config} {o : Origin} {r : Record}

/-- What is declared for a record it lists as declared, unless its code is in the way of a poster. -/
theorem Extractor.Yields.demands_iff (standard : x.IsBuiltin c) (yields : x.Yields o r)
    (posters : ∀ b ∈ o.posters, b.poster = true) {e : Require} (member : e ∈ o.declared x) :
    r.Demands e ↔ ¬o.Shadows x e := by
  obtain ⟨d, ps, done, made, completes⟩ := yields
  obtain ⟨suggested, suggests, _, lists⟩ := Extractor.lists_extract standard done
  have requires := Extractor.completes_requires standard posters made lists completes
  have filtered : o.suggested x = d.requires.filter (·.autofill) := by simp only [Origin.suggested, done]
  rw [Origin.Shadows, filtered]
  cases said : x.declares o.block with
  | cons e₀ es =>
    have own : o.declared x = x.declares o.block := by
      simp [Origin.declared, Extractor.firstDeclared, said]
    rw [said] at requires
    have same : r.requires = d.requires := requires
    have demands := lists.demands (fun e => Extractor.explicit_of_declares) (own ▸ member)
    rw [Record.Demands, ← same] at demands
    exact iff_of_true demands fun shadowed => List.cons_ne_nil e₀ es shadowed.1
  | nil =>
    have next : o.declared x = x.firstDeclared o.posters := by
      simp [Origin.declared, Extractor.firstDeclared, said]
    rw [said] at lists requires
    have code := lists.suggests suggests
    rw [Record.demands_iff_of_merged code (fun e => Extractor.explicit_of_firstDeclared) requires
      (next ▸ member), List.filter_eq_self.mpr code]
    simp

end

namespace Store

variable {s : Store} {r r' : Record} {e : Require}

theorem answer_key (s : Store) (e : Require) :
    (s.answer e).key = e.key ∧ (s.answer e).autofill = e.autofill := by
  unfold answer
  split <;> exact ⟨rfl, rfl⟩

/-- Linking keeps what is declared. -/
theorem LinkedIn.demands_iff (linked : s.LinkedIn r r') (known : r.kind ≠ .unknown) :
    r'.Demands e ↔ r.Demands e := by
  rw [Record.Demands, linked.requires known]
  constructor
  · rintro ⟨_, listed, key, explicit⟩
    obtain ⟨e', kept, rfl⟩ := List.mem_map.mp listed
    obtain ⟨key', autofill⟩ := s.answer_key e'
    exact ⟨e', List.mem_of_mem_filter kept, key'.symm.trans key, autofill.symm.trans explicit⟩
  · rintro ⟨e', listed, key, explicit⟩
    obtain ⟨key', autofill⟩ := s.answer_key e'
    have kept : s.keeps e' = true := by simp [keeps, explicit]
    exact ⟨_, List.mem_map_of_mem (List.mem_filter.mpr ⟨listed, kept⟩), key'.trans key,
      autofill.trans explicit⟩

/-- What linking leaves under a key that nothing answers to is declared. -/
theorem LinkedIn.demands_of_missing (linked : s.LinkedIn r r') (known : r.kind ≠ .unknown)
    (missing : s.find? e.name (some e.kind) = none) {e' : Require} (listed : e' ∈ r'.requires)
    (key : e'.key = e.key) : r'.Demands e := by
  refine ⟨e', listed, key, ?_⟩
  rw [linked.requires known] at listed
  obtain ⟨e₀, inside, rfl⟩ := List.mem_map.mp listed
  obtain ⟨key₀, autofill⟩ := s.answer_key e₀
  obtain ⟨kind, name⟩ := Prod.mk.inj (key₀.symm.trans key)
  have kept := (List.mem_filter.mp inside).2
  rw [autofill]
  simpa [keeps, kind, name, missing] using kept

/-- A warning tells of every declared requirement that nothing answers to. -/
theorem unmet_mem_problems (known : r ∈ s.known) (missing : s.find? e.name (some e.kind) = none)
    (demands : r.Demands e) : r.unmet e ∈ s.problems := by
  obtain ⟨e', listed, key, explicit⟩ := demands
  obtain ⟨kind, name⟩ := Prod.mk.inj key
  have problem : s.requireProblem? r e' = some (r.unmet e) := by
    simp [requireProblem?, Record.unmet, kind, name, missing, explicit]
  have here : r.unmet e ∈ s.requireProblems r := List.mem_filterMap.mpr ⟨e', listed, problem⟩
  exact List.mem_append_left _ (List.mem_append_right _ (List.mem_flatMap.mpr ⟨r, known, here⟩))

end Store

/-- The record of a block in the end of a run, with what is declared for it. -/
structure Origin.Honors (x : Extractor) (run : Run) (o : Origin) (r : Record) : Prop where
  /-- It is listed as declared, unless the code has got in the way of a poster. -/
  demands : ∀ e ∈ o.declared x, r.Demands e ↔ ¬o.Shadows x e
  /-- Where nothing answers to it, a warning tells so. -/
  told : run.Calm → ∀ e ∈ o.declared x, run.finish.1.store.find? e.name (some e.kind) = none →
    ¬o.Shadows x e → r.unmet e ∈ run.finish.1.events
  /-- Where nothing answers to it and the code is in the way, it is gone. -/
  lost : run.Calm → ∀ e ∈ o.declared x, run.finish.1.store.find? e.name (some e.kind) = none →
    o.Shadows x e → ∀ e' ∈ r.requires, e'.key ≠ e.key

namespace Run

variable {run : Run} {x : Extractor} {c : Config} {o : Origin} {r r' : Record}

theorem honors_of_linked {l : Linking} (ends : run.EndsIn l) (member : r ∈ run.store.records)
    (linked : run.store.LinkedIn r r') (known : r.kind ≠ .unknown)
    (demands : ∀ e ∈ o.declared x, r.Demands e ↔ ¬o.Shadows x e) : o.Honors x run r' := by
  have missing : ∀ e : Require, run.finish.1.store.find? e.name (some e.kind) = none →
      run.store.find? e.name (some e.kind) = none := by
    intro e missing
    have before := (ends.linked.find?_isSome e.name (some e.kind))
    have after := ends.described.find?_isSome e.name (some e.kind)
    simpa [missing, before] using after.symm
  have listed : ∀ e ∈ o.declared x, r'.Demands e ↔ ¬o.Shadows x e :=
    fun e declared => (linked.demands_iff known).trans (demands e declared)
  refine ⟨listed, fun _ e declared gone open' => ?_, fun _ e declared gone shadowed e' inside key => ?_⟩
  · have told := ends.reported _ (Store.unmet_mem_problems (Store.mem_known_iff.mpr ⟨member, known⟩)
      (missing e gone) ((demands e declared).mpr open'))
    obtain ⟨_, _, rfl⟩ := linked
    exact told
  · exact (listed e declared).mp (linked.demands_of_missing known (missing e gone) inside key) shadowed

/-- What is declared for a record stays declared to the end of a run and is told where nothing answers to
it, but for what only a poster declares and the code suggests too. -/
theorem finish_honors (prepared : prepare c [] none = .ok x) (actions : List Action) :
    let run := (opened c x).perform actions
    List.Forall₂ (fun o r => r.kind ≠ .unknown → o.Honors x run r) (actions.flatMap (·.origins x))
      run.finish.1.store.records := by
  intro run
  have standard := isBuiltin_of_prepare prepared
  have underway : run.Underway c x := underway_perform standard.keepsTypes c actions
  have fresh : run.store.Fresh := fresh_perform standard actions
  have origins : List.Forall₂ (fun o r => ∀ e ∈ o.declared x, r.Demands e ↔ ¬o.Shadows x e)
      (actions.flatMap (·.origins x)) run.store.records := by
    refine ((List.forall₂_and_left _ _).mpr
      ⟨fun o member => member, records_perform (c := c) standard.keepsTypes actions⟩).imp ?_
    rintro o r ⟨member, r₀, yields, _, rfl⟩ e declared
    obtain ⟨action, _, inside⟩ := List.mem_flatMap.mp member
    exact yields.demands_iff standard (Action.poster_of_origins inside) declared
  by_cases calm : run.Calm
  · obtain ⟨l, ends⟩ := finish_endsIn standard underway fresh calm
    have linked : List.Forall₂ (fun r r' => r ∈ run.store.records ∧ run.store.LinkedIn r r')
        run.store.records l.store.records :=
      (List.forall₂_and_left _ _).mpr ⟨fun r member => member, ends.linked.forall₂.imp fun _ _ both => both.2⟩
    have described := ends.described.forall₂.imp fun _ _ both => both.2
    refine (forall₂_comp (forall₂_comp origins linked) described).imp ?_
    rintro o _ ⟨r', ⟨r, demands, member, linked⟩, _, rfl⟩ known
    have same : r'.kind = r.kind := linked.unmoved.1.1.kind
    have honors := honors_of_linked ends member linked (same ▸ known) demands
    exact ⟨honors.demands, honors.told, honors.lost⟩
  · obtain ⟨store, _⟩ := finish_of_not_calm underway.isOpen calm
    rw [store]
    exact origins.imp fun o r demands _ => ⟨demands, fun calm' => absurd calm' calm,
      fun calm' => absurd calm' calm⟩

/-- A mixin that there is not. -/
def absentMixin : Require := { name := "foo", kind := .mixin }

/-- A mixin whose comment declares what its code includes. -/
def declaringActions : List Action :=
  [.call (.source "a.scss" "/// @require \x7bmixin\x7d foo\n@mixin a \x7b\n  @include foo;\n\x7d")]

theorem finish_honors_declaring :
    let run := (opened .default filling).perform declaringActions
    prepare .default [] none = .ok filling ∧
      run.finish.1.store.records.map (·.requires) = [[absentMixin]] ∧
      run.finish.1.events.map (·.message) =
        ["Item `a` requires `foo` from type `mixin` but this item doesn't exist."] ∧
      List.Forall₂ (fun o r => r.kind ≠ .unknown → o.Honors filling run r)
        (declaringActions.flatMap (·.origins filling)) run.finish.1.store.records :=
  ⟨prepare_default, by decide +kernel, by decide +kernel, finish_honors prepare_default _⟩

/-- A mixin whose file declares what its code includes. -/
def shadowingActions : List Action :=
  [.call (.source "a.scss"
    "////\n/// @require \x7bmixin\x7d foo\n////\n/// Text\n@mixin a \x7b\n  @include foo;\n\x7d")]

/-- What the poster declares is gone from the mixin, and nothing is told. -/
theorem not_honored_shadowing :
    let run := (opened .default filling).perform shadowingActions
    prepare .default [] none = .ok filling ∧ run.finish.1.events = [] ∧
      ¬List.Forall₂ (fun o r => r.kind ≠ .unknown →
          ∀ e ∈ o.declared filling, run.finish.1.store.find? e.name (some e.kind) = none →
            r.Demands e ∧ r.unmet e ∈ run.finish.1.events)
        (shadowingActions.flatMap (·.origins filling)) run.finish.1.store.records := by
  intro run
  have declared : (shadowingActions.flatMap (·.origins filling)).map (·.declared filling) =
      [[absentMixin]] := by decide +kernel
  have listed : run.finish.1.store.records.map (fun r => (r.kind, r.requires)) = [(.mixin, [])] := by
    decide +kernel
  have missing : (run.finish.1.store.find? "foo" (some .mixin)).isNone = true := by decide +kernel
  refine ⟨prepare_default, by decide +kernel, fun honored => ?_⟩
  have kept : (.mixin, []) ∈ run.finish.1.store.records.map fun r => (r.kind, r.requires) := by
    simp [listed]
  obtain ⟨r, member, same⟩ := List.mem_map.mp kept
  obtain ⟨kind, requires⟩ := Prod.mk.inj same
  obtain ⟨o, inside, honors⟩ := exists_of_forall₂ honored member
  have given : o.declared filling ∈ [[absentMixin]] := declared ▸ List.mem_map_of_mem inside
  have only : o.declared filling = [absentMixin] := List.mem_singleton.mp given
  have demands := (honors (by simp [kind]) absentMixin (by simp [only])
    (Option.isNone_iff_eq_none.mp missing)).1
  simp [Record.Demands, requires] at demands

end Run

end SheetDoc
