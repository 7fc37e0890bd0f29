import SheetDoc.Proofs.Extraction.Precedence
import SheetDoc.Proofs.Linking.References
import SheetDoc.Proofs.Run.Strictness

namespace SheetDoc

/-- A record with another description of its group. -/
def Record.Described (r r' : Record) : Prop := ∃ words, r' = { r with groupDescription := words }

theorem Record.Described.counterpart {r r' : Record} (described : r.Described r') :
    r.Counterpart r' := by
  obtain ⟨_, rfl⟩ := described
  exact ⟨rfl, rfl⟩

namespace Store

variable {s : Store}

/-- A store of records that are not linked and not suggested to themselves, whose look-ups lead to the
last record of what they name. -/
structure Fresh (s : Store) : Prop where
  placed : s.Placed
  indexed : s.Indexed
  latest : s.Latest
  detached : ∀ r ∈ s.records, r.Detached
  selfless : ∀ r ∈ s.records, r.Selfless

theorem fresh_empty (m : ReferenceMatch) : Fresh { referenceMatch := m } where
  placed _ _ atI := by simp at atI
  indexed := indexed_empty m
  latest := latest_empty m
  detached := List.forall_mem_nil _
  selfless := List.forall_mem_nil _

theorem Fresh.add (fresh : s.Fresh) {r : Record} (detached : r.Detached) (selfless : r.Selfless) :
    (s.add r).1.Fresh := by
  have records := (add_of_typed detached.typed s).2
  have stored : r.Wrote .uid { r with uid := (s.size : Int) } := Record.wrote_put detached.typed
  refine ⟨fresh.placed.add r, fresh.indexed.add r, fresh.latest.add fresh.placed detached.typed, ?_, ?_⟩
  · rw [records]
    exact List.forall_mem_append.mpr ⟨fresh.detached,
      List.forall_mem_singleton.mpr (detached.wrote_elsewhere stored rfl)⟩
  · rw [records]
    exact List.forall_mem_append.mpr ⟨fresh.selfless,
      List.forall_mem_singleton.mpr (selfless.wrote stored nofun nofun nofun)⟩

theorem Fresh.absorb (fresh : s.Fresh) {found : Extractor.FileRecords}
    (detached : ∀ r ∈ found.records, r.Detached) (selfless : ∀ r ∈ found.records, r.Selfless) :
    (s.absorb found).Fresh := by
  have extended : (s.extend found.records).1.Fresh := eachUntil_keeps (P := Fresh)
    (fun r member _ fresh => fresh.add (detached r member) (selfless r member)) fresh
  exact ⟨extended.placed, ⟨extended.indexed.byKey, extended.indexed.byName⟩,
    ⟨extended.latest.byKey, extended.latest.byName⟩, extended.detached, extended.selfless⟩

theorem Fresh.referential (fresh : s.Fresh) : s.Referential :=
  fun r member => ⟨(fresh.detached r member).typed, refers_of_detached s (fresh.detached r member)⟩

/-- Linking only asks a registry for its tags in order. -/
theorem link_congr {g g' : Registry} (same : g.toList = g'.toList) (strict : Bool) (s : Store) :
    s.link g strict = s.link g' strict := by
  have pointers : Linking.resolveAll g = Linking.resolveAll g' := by
    funext uids l
    rw [Linking.resolveAll, Linking.resolveAll, same]
  rw [link, link, phases, phases, pointers]

theorem evolves_attachDescriptions (s : Store) (group : String) :
    s.Evolves Record.Described (Run.attachDescriptions s group) := by
  refine ⟨List.length_map _, fun i r r' before after => ?_, rfl, rfl, rfl, rfl⟩
  simp only [Run.attachDescriptions, List.getElem?_map, before, Option.map_some] at after
  cases after
  split
  · exact ⟨_, rfl⟩
  · exact ⟨r.groupDescription, rfl⟩

theorem Referential.attachDescriptions (referential : s.Referential) (group : String) :
    (Run.attachDescriptions s group).Referential := by
  have described := s.evolves_attachDescriptions group
  have evolves := described.mono fun _ _ described => described.counterpart
  intro r' member
  obtain ⟨r, before, _, rfl⟩ := described.exists_before member
  obtain ⟨typed, refers⟩ := referential r before
  exact ⟨typed, evolves.refers refers rfl rfl rfl rfl⟩

end Store

namespace Run

variable {run : Run} {c : Config} {x : Extractor}

theorem fresh_apply (standard : x.IsBuiltin c) (underway : run.Underway c x) (fresh : run.store.Fresh)
    (action : Action) : (action.apply run).store.Fresh := by
  cases action with
  | fail path words => exact fresh
  | call call =>
    have keeps : run.extractor.KeepsTypes := underway.extractor ▸ standard.keepsTypes
    obtain ⟨events, applied⟩ := apply_eq underway.isOpen keeps call
    rw [Action.apply, applied, outcome]
    cases parsed : call.parsed run.extractor with
    | error failure => exact fresh
    | ok found =>
      obtain ⟨text, _, given⟩ := bind_eq_ok.mp parsed
      rw [underway.extractor] at given
      exact fresh.absorb (standard.maintains_detached.parseSource given)
        (standard.maintains_selfless.parseSource given)

theorem fresh_perform (standard : x.IsBuiltin c) (actions : List Action) :
    ((opened c x).perform actions).store.Fresh := by
  have start : (opened c x).store.Fresh := Store.fresh_empty c.referenceMatch
  have both : ((opened c x).perform actions).Underway c x ∧
      ((opened c x).perform actions).store.Fresh := by
    refine List.foldlRecOn actions Action.apply (motive := fun run => run.Underway c x ∧ run.store.Fresh)
      ⟨underway_perform standard.keepsTypes c [], start⟩ fun run before action _ => ?_
    exact ⟨before.1.apply standard.keepsTypes action, fresh_apply standard before.1 before.2 action⟩
  exact both.2

/-- However the end of a run goes, no reference dangles. -/
theorem referential_conclude {linked : Linking × Option Failure}
    (referential : linked.1.store.Referential) : (run.conclude linked).1.store.Referential := by
  obtain ⟨l, _ | failure⟩ := linked
  · exact referential.attachDescriptions _
  · exact referential

/-- Referential integrity. After the end of a run, whether it gives its records or fails, every
reference in the store is that of a record of the store. -/
theorem finish_referential (prepared : prepare c [] none = .ok x) (actions : List Action) :
    ((opened c x).perform actions).finish.1.store.Referential := by
  have standard := isBuiltin_of_prepare prepared
  have underway := underway_perform standard.keepsTypes c actions
  have fresh := fresh_perform standard actions
  generalize (opened c x).perform actions = run at underway fresh
  have linked : (run.store.link run.extractor.registry run.config.isStrict).1.store.Referential := by
    have same : run.extractor.registry.toList = (Registry.builtin c).toList := by
      rw [underway.extractor, standard.listed, Registry.toList_builtin]
    rw [Store.link_congr same]
    exact Store.link_referential fresh.placed fresh.indexed fresh.detached
  by_cases strict : run.config.isStrict = true
  · cases failures : run.failures with
    | nil =>
      rw [finish_of_calm underway.isOpen (Or.inr failures)]
      exact referential_conclude linked
    | cons first rest =>
      rw [finish_of_failures underway.isOpen strict failures]
      exact fresh.referential
  · rw [finish_of_calm underway.isOpen (Or.inl (Bool.eq_false_iff.mpr strict))]
    exact referential_conclude linked

/-- What is pointed at below the pointer is found, and the reference leads there. -/
theorem finish_referential_pointer :
    let run := (opened Extractor.quietConfig Extractor.quiet).perform
      [.call (.source "a.scss" "/// @see b\n$a: 1;\n\n/// Text\n$b: 2;")]
    prepare Extractor.quietConfig [] none = .ok Extractor.quiet ∧
      run.finish.1.store.records.map (·.sees) = [[⟨"b", some .var, some ⟨1, .var, "b"⟩⟩], []] ∧
      run.finish.1.store.Referential := by
  have prepared : prepare Extractor.quietConfig [] none = .ok Extractor.quiet := by
    rw [prepare, Registry.standard_nil]
    rfl
  exact ⟨prepared, by decide +kernel, finish_referential prepared _⟩

end Run

end SheetDoc
