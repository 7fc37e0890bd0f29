import SheetDoc.Proofs.Linking.Problems
import SheetDoc.Proofs.Order.Sorted
import SheetDoc.Proofs.Run.Events
import SheetDoc.Proofs.Run.Prepared

namespace SheetDoc

/-- What is done with a run before it is finished: it is given a file, or told of one that it cannot
be given. -/
inductive Action
  | call (c : Call)
  | fail (path words : String)

def Action.apply (run : Run) : Action → Run
  | call c => (c.apply run).1
  | fail path words => run.fail path words

namespace Store

variable {s : Store}

theorem Placed.absorb (placed : s.Placed) (found : Extractor.FileRecords) : (s.absorb found).Placed :=
  eachUntil_keeps (P := Placed) (l := found.records) (fun r _ _ placed => placed.add r) placed

theorem typed_absorb (typed : ∀ r ∈ s.records, r.Typed) {found : Extractor.FileRecords}
    (parsed : ∀ r ∈ found.records, r.Typed) : ∀ r ∈ (s.absorb found).records, r.Typed := by
  rw [records_absorb parsed]
  refine List.forall_mem_append.mpr ⟨typed, fun stored member => ?_⟩
  obtain ⟨⟨r, index⟩, listed, rfl⟩ := List.mem_map.mp member
  exact parsed r (List.fst_mem_of_mem_zipIdx listed)

end Store

theorem Linking.escalate_of_problems {l : Linking} {first : Event} {rest : List Event}
    (problems : l.problems = first :: rest) :
    l.escalate true = ({ l with events := l.events ++ [.fatal first.message first.file first.line] },
      some (.strict first.text)) := by
  simp only [escalate, problems]

namespace Run

variable {run : Run} {c : Config} {x : Extractor}

/-- A run after some actions. -/
def perform (run : Run) (actions : List Action) : Run := actions.foldl Action.apply run

/-- A run under another configuration. -/
def under (run : Run) (c : Config) : Run := { run with config := c }

/-- What linking comes to, whether or not the run is strict. -/
def linking (run : Run) : Linking × Option Failure := run.store.phases run.extractor.registry

/-- Every reference among the users of a record leads to a record. -/
def RefersInside (run : Run) : Prop :=
  ∀ r ∈ run.store.records, ∀ u : Reference, .user u ∈ r.usedBy → ∃ t, run.store.at? u.uid = some t

/-- A run on the way, under typed records. -/
structure Underway (c : Config) (x : Extractor) (run : Run) : Prop where
  isOpen : run.finished = false
  config : run.config = c
  extractor : run.extractor = x
  accounts : run.Accounts
  placed : run.store.Placed
  typed : ∀ r ∈ run.store.records, r.Typed

theorem Underway.apply (keeps : x.KeepsTypes) (before : run.Underway c x) (action : Action) :
    (action.apply run).Underway c x := by
  cases action with
  | fail path words => exact { before with accounts := before.accounts.fail path words }
  | call c =>
    have accounts := before.accounts.apply c
    obtain ⟨events, applied⟩ := apply_eq before.isOpen (before.extractor ▸ keeps) c
    rw [Action.apply]
    rw [applied] at accounts ⊢
    unfold outcome at accounts ⊢
    cases parsed : c.parsed run.extractor with
    | error failure =>
      simp only [parsed] at accounts ⊢
      exact { before with accounts := accounts }
    | ok found =>
      simp only [parsed] at accounts ⊢
      obtain ⟨text, _, given⟩ := bind_eq_ok.mp parsed
      have typed := Extractor.typed_parseSource (before.extractor ▸ keeps) given
      exact { before with
        accounts := accounts
        placed := before.placed.absorb found
        typed := Store.typed_absorb before.typed typed }

theorem underway_perform (keeps : x.KeepsTypes) (c : Config) (actions : List Action) :
    ((opened c x).perform actions).Underway c x := by
  have start : (opened c x).Underway c x := by
    refine ⟨rfl, rfl, rfl, rfl, ?_, ?_⟩
    · intro i r atI
      simp [opened] at atI
    · simp [opened]
  exact List.foldlRecOn actions Action.apply start fun run before action _ => before.apply keeps action

/-- Nothing but the end of a run looks at its configuration. -/
theorem apply_under (run : Run) (c : Config) (action : Action) :
    action.apply (run.under c) = (action.apply run).under c := by
  have source : ∀ path text, ((run.under c).addSource path text).1 =
      (run.addSource path text).1.under c := by
    intro path text
    unfold addSource under
    split
    · rfl
    · simp only
      split
      · rfl
      · split <;> rfl
  cases action with
  | fail path words => rfl
  | call call =>
    cases call with
    | source path text => exact source path text
    | file path bytes =>
      simp only [Action.apply, Call.apply, addFile]
      split
      · rfl
      · exact source path _

theorem perform_under (run : Run) (c : Config) (actions : List Action) :
    (run.under c).perform actions = (run.perform actions).under c := by
  induction actions generalizing run with
  | nil => rfl
  | cons action rest ih =>
    rw [perform, List.foldl_cons, apply_under]
    exact ih _

/-- To order and filter the records of a store fails only where a value is misused. -/
theorem misuse_collect {c : Config} {s : Store} {failure : Failure}
    (failed : collect c s = .error failure) : failure.IsMisuse := by
  rcases bind_eq_error.mp failed with unsorted | ⟨ordered, _, failed⟩
  · exact Failure.isMisuse_of_lift unsorted
  · rcases bind_eq_error.mp failed with unlisted | ⟨levels, _, failed⟩
    · exact Failure.isMisuse_of_lift unlisted
    · exact Failure.isMisuse_of_lift failed

/-- A way through texts that keeps each of them keeps them all. -/
theorem foldlM_texts {step : List String → Data → Except Misuse (List String)}
    (keeps : ∀ found level, step found (.text level) = .ok (found ++ [level]))
    (levels found : List String) :
    (levels.map Data.text).foldlM step found = .ok (found ++ levels) := by
  induction levels generalizing found with
  | nil =>
    rw [List.append_nil]
    rfl
  | cons level rest ih =>
    have later := ih (found ++ [level])
    rw [List.append_assoc, List.singleton_append] at later
    rw [List.map_cons, foldlM_cons_eq_ok]
    exact ⟨found ++ [level], keeps found level, later⟩

theorem accessLevels_texts (levels : List String) : accessLevels (.texts levels) = .ok levels :=
  foldlM_texts (fun _ _ => rfl) levels []

theorem keepAccess_of_typed (levels : List String) {rs : List Record} (typed : ∀ r ∈ rs, r.Typed) :
    keepAccess levels rs = .ok (rs.filter fun r => levels.contains r.accessLevel) := by
  have general : ∀ found, rs.filterAuxM (·.isAccessible levels) found =
      Except.ok ((rs.filter fun r => levels.contains r.accessLevel).reverse ++ found) := by
    induction rs with
    | nil => exact fun found => rfl
    | cons r rest ih =>
      intro found
      obtain ⟨first, later⟩ := List.forall_mem_cons.mp typed
      have here : r.isAccessible levels = .ok (levels.contains r.accessLevel) := by
        rw [Record.isAccessible, first.strayValue?]
      rw [List.filterAuxM, here]
      refine (ih later _).trans (congrArg Except.ok ?_)
      rw [List.filter_cons]
      cases levels.contains r.accessLevel <;> simp
  rw [keepAccess, List.filterM, general [], List.append_nil]
  exact congrArg Except.ok (List.reverse_reverse _)

/-- Typed records are ordered and filtered wherever the setting lists access levels. -/
theorem collect_eq_ok {c : Config} {s : Store} (typed : ∀ r ∈ s.records, r.Typed) {rs : List Record} :
    collect c s = .ok rs ↔ ∃ levels, accessLevels c.access = .ok levels ∧
      rs = (inOrder c.groups.keys c.defaultGroup s.records).filter
        fun r => levels.contains r.accessLevel := by
  have ordered : ∀ r ∈ inOrder c.groups.keys c.defaultGroup s.records, r.Typed := fun r member =>
    typed r (inOrder_perm.mem_iff.mp member)
  constructor
  · intro done
    obtain ⟨_, sorted, done⟩ := bind_eq_ok.mp done
    obtain ⟨levels, listed, done⟩ := bind_eq_ok.mp done
    cases (sortRecords_of_typed typed).symm.trans (mapError_eq_ok.mp sorted)
    have kept := mapError_eq_ok.mp done
    rw [keepAccess_of_typed levels ordered] at kept
    exact ⟨levels, mapError_eq_ok.mp listed, (Except.ok.inj kept).symm⟩
  · rintro ⟨levels, listed, rfl⟩
    refine bind_eq_ok.mpr ⟨_, mapError_eq_ok.mpr (sortRecords_of_typed typed), ?_⟩
    refine bind_eq_ok.mpr ⟨levels, mapError_eq_ok.mpr listed, ?_⟩
    exact mapError_eq_ok.mpr (keepAccess_of_typed levels ordered)

theorem collect_of_unlisted {c : Config} {s : Store} (typed : ∀ r ∈ s.records, r.Typed) {fault : Misuse}
    (unlisted : accessLevels c.access = .error fault) : collect c s = .error (.misuse fault) := by
  rw [collect, sortRecords_of_typed typed, unlisted]
  rfl

theorem typed_attachDescriptions {s : Store} (typed : ∀ r ∈ s.records, r.Typed) (group : String) :
    ∀ r ∈ (attachDescriptions s group).records, r.Typed := by
  intro described member
  obtain ⟨r, inside, rfl⟩ := List.mem_map.mp member
  have typed := typed r inside
  split <;> exact typed

theorem finish_of_failures (isOpen : run.finished = false) (strict : run.config.isStrict = true)
    {first : Event} {rest : List Event} (failures : run.failures = first :: rest) :
    run.finish = ({ run with
      finished := true
      events := run.events ++ [.fatal first.message first.file none] },
      .error (.strict first.text)) := by
  simp only [finish, isOpen, strict, failures, Bool.false_eq_true, if_false]

theorem finish_of_calm (isOpen : run.finished = false)
    (calm : run.config.isStrict = false ∨ run.failures = []) :
    run.finish = ({ run with finished := true } : Run).conclude
      (run.store.link run.extractor.registry run.config.isStrict) := by
  simp only [finish, isOpen, Bool.false_eq_true, if_false]
  split
  · rename_i strict failures
    rcases calm with lenient | none
    · rw [strict] at lenient
      cases lenient
    · rw [failures] at none
      cases none
  · rfl

/-- The end of a run fails as a strict one only over the linking that it is given. -/
theorem strict_of_conclude {linked : Linking × Option Failure} {words : String}
    (failed : (run.conclude linked).2 = .error (.strict words)) : linked.2 = some (.strict words) := by
  obtain ⟨l, _ | failure⟩ := linked
  · obtain ⟨fault, other⟩ := misuse_collect failed
    cases other
  · exact congrArg some (Except.error.inj failed)

theorem conclude_under (run : Run) (d : Data) (linked : Linking × Option Failure) :
    (run.under (run.config.withStrict d)).conclude linked =
      ((run.conclude linked).1.under (run.config.withStrict d), (run.conclude linked).2) := by
  obtain ⟨l, _ | failure⟩ := linked <;> rfl

/-- How a strict run ends beside the same run that is not strict. -/
structure Escalates (run strict : Run) : Prop where
  raises : (∃ words, strict.finish.2 = .error (.strict words)) ↔
    run.failures ≠ [] ∨ run.linking.2 = none ∧ run.linking.1.problems ≠ []
  quiet : (∀ words, strict.finish.2 ≠ .error (.strict words)) →
    strict.finish = (run.finish.1.under strict.config, run.finish.2)
  failed : ∀ first rest, run.failures = first :: rest →
    strict.finish.2 = .error (.strict first.text) ∧
      strict.finish.1.store = run.store ∧
      strict.finish.1.events = run.events ++ [.fatal first.message first.file none]
  problem : run.failures = [] → run.linking.2 = none →
    ∀ first rest, run.linking.1.problems = first :: rest →
      strict.finish.2 = .error (.strict first.text) ∧
        strict.finish.1.store = run.linking.1.store ∧
        run.finish.1.store = attachDescriptions run.linking.1.store run.config.defaultGroup ∧
        strict.finish.1.events =
          run.finish.1.events ++ [.fatal first.message first.file first.line]

section

variable {d : Data} (isOpen : run.finished = false) (lenient : run.config.isStrict = false)
  (strict : d.truthy = true)

include isOpen

include lenient in
theorem finish_lenient :
    run.finish = ({ run with finished := true } : Run).conclude run.linking := by
  rw [finish_of_calm isOpen (Or.inl lenient), lenient, linking, Store.link]
  obtain ⟨l, _ | failure⟩ := run.store.phases run.extractor.registry <;> rfl

include strict

theorem finish_strict_of_failures {first : Event} {rest : List Event}
    (failures : run.failures = first :: rest) :
    (run.under (run.config.withStrict d)).finish =
      ({ run with
          config := run.config.withStrict d
          finished := true
          events := run.events ++ [.fatal first.message first.file none] },
        .error (.strict first.text)) :=
  have isStrict : (run.under (run.config.withStrict d)).config.isStrict = true := strict
  have still : (run.under (run.config.withStrict d)).finished = false := isOpen
  finish_of_failures still isStrict failures

theorem finish_strict (none : run.failures = []) :
    (run.under (run.config.withStrict d)).finish =
      ((({ run with finished := true } : Run).conclude
          (Linking.andThen run.linking (Linking.escalate true))).1.under (run.config.withStrict d),
        (({ run with finished := true } : Run).conclude
          (Linking.andThen run.linking (Linking.escalate true))).2) := by
  have isStrict : (run.under (run.config.withStrict d)).config.isStrict = true := strict
  have still : (run.under (run.config.withStrict d)).finished = false := isOpen
  rw [finish_of_calm still (Or.inr none), isStrict]
  exact conclude_under { run with finished := true } d _

theorem escalates_of_failures {first : Event} {rest : List Event}
    (failures : run.failures = first :: rest) : run.Escalates (run.under (run.config.withStrict d)) := by
  have strictly := finish_strict_of_failures isOpen strict failures
  refine ⟨?_, ?_, ?_, ?_⟩
  · simp [strictly, failures]
  · intro quiet
    exact absurd (by rw [strictly]) (quiet first.text)
  · intro first' rest' same
    rw [failures] at same
    cases same
    rw [strictly]
    exact ⟨rfl, rfl, rfl⟩
  · intro none
    rw [failures] at none
    cases none

include lenient

/-- Linking that fails or finds no problem ends both runs alike. -/
theorem escalates_of_calm (none : run.failures = [])
    (calm : run.linking.2 = Option.none → run.linking.1.problems = []) :
    run.Escalates (run.under (run.config.withStrict d)) := by
  have same : Linking.andThen run.linking (Linking.escalate true) = run.linking := by
    rcases reached : run.linking with ⟨l, _ | failure⟩
    · have no : l.problems = [] := by simpa [reached] using calm
      simp [Linking.andThen, Linking.escalate, no]
    · rfl
  have alike := finish_strict isOpen strict none
  rw [same, ← finish_lenient isOpen lenient] at alike
  have bears : ∀ words, (run.under (run.config.withStrict d)).finish.2 ≠ .error (.strict words) := by
    intro words failed
    rw [alike, finish_lenient isOpen lenient] at failed
    obtain ⟨fault, other⟩ := Store.phases_misuse (strict_of_conclude failed)
    cases other
  refine ⟨⟨fun failed => ?_, ?_⟩, fun _ => alike, ?_, ?_⟩
  · obtain ⟨words, failed⟩ := failed
    exact absurd failed (bears words)
  · rintro (some | ⟨done, some⟩)
    · exact absurd none some
    · exact absurd (calm done) some
  · intro first rest some
    rw [none] at some
    cases some
  · intro _ done first rest some
    rw [calm done] at some
    cases some

theorem escalates_of_problems (none : run.failures = []) (done : run.linking.2 = Option.none)
    {first : Event} {rest : List Event} (problems : run.linking.1.problems = first :: rest) :
    run.Escalates (run.under (run.config.withStrict d)) := by
  have ends := finish_lenient isOpen lenient
  have strictly := finish_strict isOpen strict none
  rcases reached : run.linking with ⟨l, failure⟩
  rw [reached] at ends strictly done problems
  cases done
  have fatal : Linking.andThen (l, Option.none) (Linking.escalate true) =
      ({ l with events := l.events ++ [.fatal first.message first.file first.line] },
        some (.strict first.text)) := Linking.escalate_of_problems problems
  rw [fatal] at strictly
  refine ⟨?_, ?_, ?_, ?_⟩
  · refine ⟨fun _ => Or.inr ?_, fun _ => ⟨first.text, by rw [strictly]; rfl⟩⟩
    rw [reached]
    exact ⟨rfl, fun no => List.cons_ne_nil _ _ (problems.symm.trans no)⟩
  · intro quiet
    exact absurd (by rw [strictly]; rfl) (quiet first.text)
  · intro first rest some
    rw [none] at some
    cases some
  · intro _ _ first' rest' same
    rw [reached] at same ⊢
    cases problems.symm.trans same
    rw [strictly, ends]
    exact ⟨rfl, rfl, rfl, (List.append_assoc _ _ _).symm⟩

theorem escalates : run.Escalates (run.under (run.config.withStrict d)) := by
  cases failures : run.failures with
  | cons first rest => exact escalates_of_failures isOpen strict failures
  | nil =>
    by_cases done : run.linking.2 = none
    · cases problems : run.linking.1.problems with
      | nil => exact escalates_of_calm isOpen lenient strict failures fun _ => problems
      | cons first rest => exact escalates_of_problems isOpen lenient strict failures done problems
    · exact escalates_of_calm isOpen lenient strict failures fun ends => absurd ends done

end

/-- Where users are records of the store, a run that is not strict gets to collect its records. -/
theorem Underway.concludes (underway : run.Underway c x) (lenient : c.isStrict = false)
    (resolves : Linking.ResolvesTyped x.registry) (inside : run.RefersInside) :
    run.linking.2 = none ∧ (∀ r ∈ run.finish.1.store.records, r.Typed) ∧
      run.finish.2 = collect c run.finish.1.store := by
  have sound : run.store.Sound := by
    intro r member
    refine ⟨underway.typed r member, fun u listed => ?_⟩
    obtain ⟨t, found⟩ := inside r member u listed
    exact Store.inside_of_at? found
  obtain ⟨l, done, typed⟩ := Store.phases_total underway.placed sound resolves
  have linked : run.linking = (l, none) := by rw [linking, underway.extractor, done]
  cases underway.config
  have ends := finish_lenient underway.isOpen lenient
  rw [linked] at ends
  refine ⟨by rw [linked], ?_, by rw [ends]; rfl⟩
  rw [ends]
  exact typed_attachDescriptions typed _

/-- So it ends with them. -/
theorem Underway.finishes (underway : run.Underway c x) (lenient : c.isStrict = false)
    {levels : List String} (access : accessLevels c.access = .ok levels)
    (resolves : Linking.ResolvesTyped x.registry) (inside : run.RefersInside) :
    run.linking.2 = none ∧ ∃ rs, run.finish.2 = .ok rs := by
  obtain ⟨linked, typed, given⟩ := underway.concludes lenient resolves inside
  exact ⟨linked, _, given.trans ((collect_eq_ok typed).mpr ⟨levels, access, rfl⟩)⟩

/-- A tag that finds a problem with every record. -/
def watch : Tag where
  name := "watch"
  resolve := some fun _ r => (r, .ok ["Seen"])

/-- What a run with no other tag parses with. -/
def watchful : Extractor := ⟨{ tags := [("watch", watch)] }, false, "undefined", []⟩

def watchedActions : List Action := [.call (.source "a.scss" "/// Text\n$a: 1;")]

/-- A tag for an alias of nothing, with a requirement and with a user that is no record. -/
def astray : Tag where
  name := "astray"
  parse := some fun _ r => .ok { r with
    aliases := r.aliases ++ ["gone"]
    requires := r.requires ++ [{ name := "b", kind := .mixin }]
    usedBy := r.usedBy ++ [.user ⟨99, .mixin, "c"⟩] }

def adrift : Extractor := ⟨{ tags := [("astray", astray)] }, false, "undefined", []⟩

def strayActions : List Action :=
  [.call (.source "a.scss" "/// @astray\n@mixin a \x7b\x7d\n/// Text\n@mixin b \x7b\x7d")]

def strayed : Record where
  context := ⟨.mixin, "a", none, none, "@mixin a \x7b\x7d", some 2, some 2⟩
  file := ⟨"a.scss", "a.scss"⟩
  commentLine := 1
  uid := 0
  aliases := ["gone"]
  requires := [{ name := "b", kind := .mixin }]
  usedBy := [.user ⟨99, .mixin, "c"⟩]
  tags := ["astray"]

def sought : Record where
  context := ⟨.mixin, "b", none, none, "@mixin b \x7b\x7d", some 4, some 4⟩
  file := ⟨"a.scss", "a.scss"⟩
  description := "Text"
  commentLine := 3
  uid := 1

def strayStore : Store where
  records := [strayed, sought]
  byKey := [((.mixin, "a"), 0), ((.mixin, "b"), 1)]
  byName := [("a", 0), ("b", 1)]

theorem store_astray : ((opened .default adrift).perform strayActions).store = strayStore := by
  with_unfolding_all rfl

def missingAlias : Event :=
  .warning "resolution" "Item `a` is an alias of `gone` but this item doesn't exist."
    (some "a.scss") (some 2)

/-- The mixin with the item of its requirement. -/
def linkedStray : Record :=
  { strayed with requires := [{ name := "b", kind := .mixin, item := some sought.reference }] }

/-- Where linking breaks off: the alias is reported, and the user is looked for. -/
def brokenLinking : Linking where
  store := { strayStore with records := [linkedStray, sought] }
  events := [missingAlias]
  problems := [missingAlias]

theorem phases_stray (g : Registry) :
    strayStore.phases g = (brokenLinking, some (.misuse .outOfRange)) := by
  let aliased : Linking := { brokenLinking with store := strayStore }
  have users : linkedStray.users = .ok ([] ++ [99]) := rfl
  have fails : brokenLinking.store.reaches strayed sought = .error (.misuse .outOfRange) :=
    Store.reaches_of_stray (by decide) rfl users (by decide) rfl
  have entry : Linking.linkRequire strayed ({ name := "b", kind := .mixin }, 0) aliased =
      (brokenLinking, some (.misuse .outOfRange)) := by
    change Linking.linkTarget strayed sought brokenLinking = _
    rw [Linking.linkTarget, fails]
  have record : Linking.linkRecord strayed aliased = (brokenLinking, some (.misuse .outOfRange)) := by
    change Linking.andThen (eachUntil (Linking.linkRequire strayed)
      [({ name := "b", kind := .mixin }, 0)] aliased) _ = _
    rw [eachUntil, entry]
    rfl
  change Linking.andThen (eachUntil Linking.linkRecord [strayed, sought] aliased) _ = _
  rw [eachUntil, record]
  rfl

end Run

end SheetDoc
