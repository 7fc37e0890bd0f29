import SheetDoc.Proofs.Linking.Again
import SheetDoc.Proofs.Run.References

namespace SheetDoc

variable {s : Store} {run : Run} {c : Config} {x : Extractor}

theorem Store.Fresh.linkable (fresh : s.Fresh) : s.Linkable where
  navigable := (unused_of_detached fresh.detached).navigable fresh.placed
  typed r member := (fresh.detached r member).typed
  consistent := fresh.latest.consistent fresh.indexed fresh.placed

theorem Store.Fresh.link (fresh : s.Fresh) (c : Config) (strict : Bool) :
    s.Evolves s.LinkedIn (s.link (.builtin c) strict).1.store ∧
      ∀ e ∈ s.problems, e ∈ (s.link (.builtin c) strict).1.events := by
  have linkable := fresh.linkable
  have ends : Linking.Ends (s.link (.builtin c) strict).2 :=
    ends_of_detached fresh.detached fresh.placed
  obtain ⟨aliased, required, resolved, linked, store, _⟩ := link_ends ends
  refine ⟨store ▸ linked.linkedIn linkable, fun e member => ?_⟩
  have told := linked.problems fresh.placed linkable.sound
  have resolution := Linking.problems_phases (.builtin c) s
  rw [linked.phases, told] at resolution
  have same := (problems_link ends).2
  rw [linked.phases, ← resolution] at same
  exact List.mem_of_mem_filter (same ▸ member)

namespace Run

/-- Nothing keeps the run from linking: it is not strict, or no file has failed. -/
def Calm (run : Run) : Prop := run.config.isStrict = false ∨ run.failures = []

theorem finish_of_not_calm (isOpen : run.finished = false) (failed : ¬run.Calm) :
    run.finish.1.store = run.store ∧ ∃ words, run.finish.2 = .error (.strict words) := by
  obtain ⟨strict, failures⟩ := not_or.mp failed
  obtain ⟨first, rest, failures⟩ := List.exists_cons_of_ne_nil failures
  rw [finish_of_failures isOpen (by simpa using strict) failures]
  exact ⟨rfl, _, rfl⟩

/-- What a run ends in. -/
structure EndsIn (run : Run) (l : Linking) : Prop where
  linked : run.store.Evolves run.store.LinkedIn l.store
  reported : ∀ e ∈ run.store.problems, e ∈ run.finish.1.events
  store : run.finish.1.store = l.store ∨
    run.finish.1.store = attachDescriptions l.store run.config.defaultGroup
  done : ∀ rs, run.finish.2 = .ok rs →
    run.finish.1.store = attachDescriptions l.store run.config.defaultGroup ∧
      collect run.config run.finish.1.store = .ok rs

/-- Only descriptions come after linking. -/
theorem EndsIn.described {l : Linking} (ends : run.EndsIn l) :
    l.store.Evolves Record.Described run.finish.1.store := by
  rcases ends.store with store | store
  · rw [store]
    exact .refl (fun r => ⟨r.groupDescription, rfl⟩) l.store
  · rw [store]
    exact l.store.evolves_attachDescriptions run.config.defaultGroup

theorem finish_endsIn (standard : x.IsBuiltin c) (underway : run.Underway c x) (fresh : run.store.Fresh)
    (calm : run.Calm) : ∃ l, run.EndsIn l := by
  have registry : run.extractor.registry.toList = (Registry.builtin c).toList := by
    rw [underway.extractor, standard.listed, Registry.toList_builtin]
  have finish := finish_of_calm underway.isOpen calm
  rw [Store.link_congr registry] at finish
  obtain ⟨linked, problems⟩ := fresh.link c run.config.isStrict
  generalize run.store.link (.builtin c) run.config.isStrict = reached at finish linked problems
  obtain ⟨l, failure⟩ := reached
  refine ⟨l, linked, fun e member => ?_, ?_, fun rs done => ?_⟩
  · have reported : run.finish.1.events = run.events ++ l.events := by
      rw [finish]
      cases failure <;> rfl
    rw [reported]
    exact List.mem_append_right _ (problems e member)
  · rw [finish]
    cases failure with
    | none => exact Or.inr rfl
    | some failure => exact Or.inl rfl
  · rw [finish] at done ⊢
    cases failure with
    | none => exact ⟨rfl, done⟩
    | some failure => cases done

/-- A run that gives its records has linked and described them and collected them from its store. -/
theorem endsIn_of_finish (standard : x.IsBuiltin c) (actions : List Action) {rs : List Record}
    (done : ((opened c x).perform actions).finish.2 = .ok rs) :
    ∃ l, ((opened c x).perform actions).EndsIn l ∧
      ((opened c x).perform actions).finish.1.store = attachDescriptions l.store c.defaultGroup ∧
      (∀ r ∈ ((opened c x).perform actions).finish.1.store.records, r.Typed) ∧
      collect c ((opened c x).perform actions).finish.1.store = .ok rs := by
  have underway := underway_perform standard.keepsTypes c actions
  have calm : ((opened c x).perform actions).Calm := by
    by_contra failed
    obtain ⟨_, words, strict⟩ := finish_of_not_calm underway.isOpen failed
    cases strict.symm.trans done
  obtain ⟨l, ends⟩ := finish_endsIn standard underway (fresh_perform standard actions) calm
  obtain ⟨store, collected⟩ := ends.done rs done
  rw [underway.config] at store collected
  refine ⟨l, ends, store, ?_, collected⟩
  rw [store]
  refine typed_attachDescriptions (fun r' member => ?_) c.defaultGroup
  obtain ⟨r, inside, _, _, rfl⟩ := ends.linked.exists_before member
  exact underway.typed r inside

/-- A run that is not strict gets to collect its records. -/
theorem finish_collect (standard : x.IsBuiltin c) (lenient : c.isStrict = false) (actions : List Action) :
    (∀ r ∈ ((opened c x).perform actions).finish.1.store.records, r.Typed) ∧
      ((opened c x).perform actions).finish.2 =
        collect c ((opened c x).perform actions).finish.1.store := by
  have underway := underway_perform standard.keepsTypes c actions
  have resolves : Linking.ResolvesTyped x.registry := by
    have builtin := (Linking.resolvesPointers_builtin c).resolvesTyped
    rwa [Linking.ResolvesTyped, Registry.toList_builtin, ← standard.listed] at builtin
  have inside : ((opened c x).perform actions).RefersInside := by
    intro r member u listed
    rw [((fresh_perform standard actions).detached r member).usedBy] at listed
    cases listed
  exact (underway.concludes lenient resolves inside).2

/-- It gives those of one of the access levels, in order. -/
theorem finish_total (standard : x.IsBuiltin c) (lenient : c.isStrict = false) {levels : List String}
    (listed : accessLevels c.access = .ok levels) (actions : List Action) :
    ((opened c x).perform actions).finish.2 = .ok ((inOrder c.groups.keys c.defaultGroup
      ((opened c x).perform actions).finish.1.store.records).filter
        fun r => levels.contains r.accessLevel) := by
  obtain ⟨typed, given⟩ := finish_collect standard lenient actions
  exact given.trans ((collect_eq_ok typed).mpr ⟨levels, listed, rfl⟩)

end Run

end SheetDoc
