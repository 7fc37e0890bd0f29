import SheetDoc.Proofs.Linking.Pointers
import SheetDoc.Proofs.Linking.Reciprocity

namespace SheetDoc

namespace Store

/-- The problem with a name that a record is an alias of, where no record answers to it. -/
def aliasProblem? (s : Store) (r : Record) (name : String) : Option Event :=
  match s.find? name (some r.kind) with
  | some _ => none
  | none =>
    some (r.complaint
      ("Item `" ++ r.name ++ "` is an alias of `" ++ name ++ "` but this item doesn't exist."))

def aliasProblems (s : Store) (r : Record) : List Event := r.aliases.filterMap (s.aliasProblem? r)

def requireProblems (s : Store) (r : Record) : List Event :=
  r.requires.filterMap (s.requireProblem? r)

/-- The problems with the known records: all aliases, then all requirements, then all pointers. -/
def problems (s : Store) : List Event :=
  s.known.flatMap s.aliasProblems ++ s.known.flatMap s.requireProblems ++
    s.known.flatMap s.seeProblems

/-- A record with its requirements linked: it has lost those that the code suggested and no record
answers to, and an item stands where a record answers. -/
structure Requires (s : Store) (r r' : Record) : Prop where
  same : r.Counterpart r'
  kept : r'.requires.map (fun e => { e with item := none }) = r.requires.filter s.keeps
  suggested : ∀ e ∈ r'.requires, e.autofill = true → e.item.isSome = true
  explicit : ∀ e ∈ r'.requires, e.autofill = false →
    e.item.isSome = (s.find? e.name (some e.kind)).isSome

end Store

namespace Linking

variable {s : Store} {l l' : Linking} {r t : Record} {message : String}

theorem problems_notice (r : Record) (message : String) (l : Linking) :
    (notice r message l).1.problems = l.problems := by
  unfold notice
  split <;> rfl

theorem problems_change (uid : Int) (f : Record → Except Misuse Record) (l : Linking) :
    (change uid f l).1.problems = l.problems := by
  unfold change
  split <;> rfl

theorem problems_linkTarget (r t : Record) (l : Linking) :
    (linkTarget r t l).1.problems = l.problems := by
  unfold linkTarget
  split
  · rfl
  · have cut := problems_change t.uid addCircular l
    generalize change t.uid addCircular l = cutting at cut
    obtain ⟨m, _ | failure⟩ := cutting
    · exact (problems_notice r _ m).trans cut
    · exact cut
  · exact problems_change _ _ l

/-- A store on the way of linking: each record is where it was, so look-ups lead where they led. -/
structure Follows (s : Store) (l : Linking) : Prop where
  placed : l.store.Placed
  store : s.Evolves Record.Counterpart l.store

theorem Follows.phase {rel : Record → Record → Prop} {P : Event → Prop} (follows : Follows s l)
    (repeatable : Record.Repeatable rel) (weaker : ∀ a b, rel a b → a.Counterpart b)
    (phase : Phase rel P l l') : Follows s l' :=
  ⟨phase.store.placed repeatable.uid follows.placed,
    follows.store.trans Record.Counterpart.repeatable.trans (phase.store.mono weaker)⟩

theorem linkAlias_tells (follows : Follows s l) {name : String}
    (done : linkAlias r name l = (l', none)) :
    Follows s l' ∧ l'.problems = l.problems ++ (s.aliasProblem? r name).toList := by
  have phase := phase_linkAlias follows.placed r name
  rw [done] at phase
  refine ⟨follows.phase Record.BackLinked.repeatable (fun _ _ linked => linked.counterpart) phase, ?_⟩
  unfold linkAlias at done
  cases found : s.find? name (some r.kind) with
  | none =>
    simp only [follows.store.find?_none found] at done
    rw [problem_complaint done]
    simp only [Store.aliasProblem?, found, Option.toList_some]
  | some t =>
    obtain ⟨t', found', _⟩ := follows.store.find? found
    simp only [found'] at done
    simp only [Store.aliasProblem?, found, Option.toList_none, List.append_nil]
    split at done
    · exact congrArg Linking.problems (congrArg Prod.fst done) ▸ problems_notice r _ l
    · exact congrArg Linking.problems (congrArg Prod.fst done) ▸ problems_change _ _ l

theorem linkAliases_tells {rs : List Record} (follows : Follows s l)
    (done : linkAliases rs l = (l', none)) :
    Follows s l' ∧ l'.problems = l.problems ++ rs.flatMap s.aliasProblems := by
  refine eachUntil_gathers (fun r _ l l' follows done => ?_) follows done
  have each : eachUntil (linkAlias r) r.aliases l = (l', none) := by
    unfold linkRecordAliases at done
    split at done
    · split at done
      · cases done
      · exact done
    · exact done
  rw [Store.aliasProblems, List.filterMap_eq_flatMap_toList]
  exact eachUntil_gathers (fun _ _ _ _ follows done => linkAlias_tells follows done) follows each

theorem linkRequire_tells (follows : Follows s l) {e : Require} {index : Nat}
    (done : linkRequire r (e, index) l = (l', none)) :
    Follows s l' ∧ l'.problems = l.problems ++ (s.requireProblem? r e).toList := by
  have phase := phase_linkRequire follows.placed r (e, index)
  rw [done] at phase
  refine ⟨follows.phase Record.Required.repeatable (fun _ _ required => required.sited.1) phase, ?_⟩
  unfold linkRequire at done
  cases found : s.find? e.name (some e.kind) with
  | none =>
    simp only [follows.store.find?_none found] at done
    simp only [Store.requireProblem?, found]
    split at done
    · rename_i suggested
      cases done
      rw [if_pos suggested, Option.toList_none, List.append_nil]
    · rename_i explicit
      rw [if_neg explicit, problem_complaint done, Option.toList_some]
  | some t =>
    obtain ⟨t', found', _⟩ := follows.store.find? found
    simp only [found'] at done
    simp only [Store.requireProblem?, found, Option.toList_none, List.append_nil]
    split at done
    · cases done
    · exact congrArg Linking.problems (congrArg Prod.fst done) ▸ problems_linkTarget r t' _

theorem linkRecord_tells (follows : Follows s l) (done : linkRecord r l = (l', none)) :
    Follows s l' ∧ l'.problems = l.problems ++ s.requireProblems r := by
  have phase := phase_linkRecord follows.placed r
  rw [done] at phase
  refine ⟨follows.phase Record.Required.repeatable (fun _ _ required => required.sited.1) phase, ?_⟩
  obtain ⟨next, entries, done⟩ := andThen_done.mp done
  have told : next.problems = l.problems ++
      r.requires.zipIdx.flatMap fun entry => (s.requireProblem? r entry.1).toList :=
    (eachUntil_gathers (fun _ _ _ _ follows done => linkRequire_tells follows done) follows entries).2
  have each : (r.requires.zipIdx.flatMap fun entry => (s.requireProblem? r entry.1).toList) =
      s.requireProblems r := by
    rw [Store.requireProblems, List.filterMap_eq_flatMap_toList]
    conv_rhs => rw [← List.zipIdx_map_fst 0 r.requires, List.flatMap_map]
  rw [each] at told
  split at done
  · cases done
  · cases done
    exact told

theorem linkRequires_tells {rs : List Record} (follows : Follows s l)
    (done : linkRequires rs l = (l', none)) :
    Follows s l' ∧ l'.problems = l.problems ++ rs.flatMap s.requireProblems :=
  eachUntil_gathers (fun _ _ _ _ follows done => linkRecord_tells follows done) follows done

/-- What problems, notices and changes of the store keep, all phases of linking keep. -/
theorem phases_induction {P : Linking → Prop} {g : Registry} {s : Store} (start : P { store := s })
    (problems : ∀ r message l, P l → P (problem r message l).1)
    (notices : ∀ r message l, P l → P (notice r message l).1)
    (stores : ∀ l store, P l → P { l with store := store }) : P (s.phases g).1 := by
  have changes : ∀ uid f l, P l → P (change uid f l).1 := by
    intro uid f l holds
    unfold change
    split
    · exact holds
    · exact holds
    · exact stores l _ holds
  have followed : ∀ (done : Linking × Option Failure) (next : Linking → Linking × Option Failure),
      P done.1 → (∀ l, P l → P (next l).1) → P (andThen done next).1 := by
    rintro ⟨l, _ | failure⟩ next holds later
    · exact later l holds
    · exact holds
  have aliases : ∀ r l, P l → P (linkRecordAliases r l).1 := by
    intro r l holds
    have each : P (eachUntil (linkAlias r) r.aliases l).1 := by
      refine eachUntil_keeps (fun name _ l holds => ?_) holds
      unfold linkAlias
      split
      · exact problems r _ l holds
      · split
        · exact notices r _ l holds
        · exact changes _ _ l holds
    unfold linkRecordAliases
    split
    · split
      · exact holds
      · exact each
    · exact each
  have targets : ∀ r t l, P l → P (linkTarget r t l).1 := by
    intro r t l holds
    unfold linkTarget
    split
    · exact holds
    · exact followed _ _ (changes _ _ l holds) fun l => notices r _ l
    · exact changes _ _ l holds
  have entries : ∀ r entry l, P l → P (linkRequire r entry l).1 := by
    intro r entry l holds
    unfold linkRequire
    simp only
    split
    · split
      · exact holds
      · exact problems r _ l holds
    · split
      · exact holds
      · exact targets r _ _ (stores l _ holds)
  have requires : ∀ r l, P l → P (linkRecord r l).1 := by
    intro r l holds
    refine followed _ _ (eachUntil_keeps (fun entry _ => entries r entry) holds) fun l holds => ?_
    split
    · exact holds
    · exact stores l _ holds
  have resolves : ∀ uids a l, P l → P (resolveTag uids a l).1 := by
    intro uids a l holds
    unfold resolveTag
    split
    · exact holds
    · refine eachUntil_keeps (fun uid _ l holds => ?_) holds
      unfold resolveRecord
      split
      · exact holds
      · simp only
        split
        · exact problems _ _ _ (stores l _ holds)
        · exact eachUntil_keeps (fun message _ => problems _ message) (stores l _ holds)
  refine followed _ _ (followed _ _ ?_ fun l holds => ?_) fun l holds => ?_
  · exact eachUntil_keeps (fun r _ => aliases r) start
  · exact eachUntil_keeps (fun r _ => requires r) holds
  · exact eachUntil_keeps (fun a _ => resolves _ a) holds

/-- The problems of linking are what it reports on resolution. -/
theorem problems_phases (g : Registry) (s : Store) :
    (s.phases g).1.problems = (s.phases g).1.events.filter (·.kind = "resolution") := by
  refine phases_induction (P := fun l => l.problems = l.events.filter (·.kind = "resolution")) rfl ?_ ?_
    fun _ _ holds => holds
  · intro r message l holds
    unfold problem
    split
    · exact holds
    · simp [holds, Event.warning]
  · intro r message l holds
    unfold notice
    split
    · exact holds
    · simp [holds, Event.notice]

theorem problems_escalate (strict : Bool) (l : Linking) :
    (escalate strict l).1.problems = l.problems ∧
      (escalate strict l).1.events.filter (·.kind = "resolution") =
        l.events.filter (·.kind = "resolution") := by
  unfold escalate
  split
  · exact ⟨rfl, by simp [Event.fatal]⟩
  · exact ⟨rfl, rfl⟩

end Linking

namespace Store

variable {s : Store} {c : Config} {g : Registry} {strict : Bool}

/-- A strict run tells the same problems. -/
theorem problems_link (ends : Linking.Ends (s.link g strict).2) :
    (s.link g strict).1.problems = (s.phases g).1.problems ∧
      (s.link g strict).1.events.filter (·.kind = "resolution") =
        (s.phases g).1.events.filter (·.kind = "resolution") := by
  obtain ⟨l, done, last⟩ := ends.phase fun _ => phases_misuse
  rw [link, last, done]
  exact Linking.problems_escalate strict l

/-- What a record shows in the end, by what is known at the indexes of the known records. -/
theorem view_of_known {α : Type} {view linked : Record → List α} {s' : Store} (placed : s.Placed)
    (placed' : s'.Placed) (known : ∀ r ∈ s.known, s'.viewAt view r.uid = linked r)
    (others : ∀ a ∉ s.known.map (·.uid), s'.viewAt view a = s.viewAt view a) {r r' : Record}
    (before : r ∈ s.records) (after : r' ∈ s'.records) (same : r'.uid = r.uid) :
    view r' = if r.kind = .unknown then view r else linked r := by
  have here : s'.viewAt view r'.uid = view r' := placed'.viewAt_uid after
  rw [← here, same]
  by_cases unknown : r.kind = .unknown
  · have outside : r.uid ∉ s.known.map (·.uid) := by
      intro listed
      obtain ⟨t, inside, same⟩ := List.mem_map.mp listed
      cases placed.eq_of_uid_eq (mem_records_of_known inside) before same
      simpa [unknown] using List.of_mem_filter inside
    rw [if_pos unknown, others r.uid outside, placed.viewAt_uid before]
  · rw [if_neg unknown]
    exact known r (List.mem_filter.mpr ⟨before, by simpa using unknown⟩)

section

variable {aliased required resolved : Linking}
  (linked : s.LinkedBy (.builtin c) aliased required resolved) (placed : s.Placed)

include linked

theorem LinkedBy.phases : s.phases (.builtin c) = (resolved, none) := by
  rw [Store.phases, linked.aliases]
  simp only [Linking.andThen, linked.requires, linked.pointers]

include placed

theorem LinkedBy.placed_resolved : resolved.store.Placed :=
  (linked.pointerPhase placed (Linking.resolvesPointers_builtin c)).store.placed
    Record.Pointed.repeatable.uid (linked.placed_required placed)

theorem LinkedBy.sited_required : s.Evolves Record.Sited required.store :=
  ((linked.aliasPhase placed).store.mono fun _ _ linked => linked.sited).trans
    Record.Sited.repeatable.trans
    ((linked.requirePhase placed).store.mono fun _ _ required => required.sited)

theorem LinkedBy.seesAt_required : required.store.seesAt = s.seesAt := by
  funext a
  have first : aliased.store.seesAt a = s.seesAt a := by
    refine (linked.aliasPhase placed).store.viewAt ?_ a
    rintro r _ ⟨_, _, rfl, _⟩
    rfl
  have second : required.store.seesAt a = aliased.store.seesAt a := by
    refine (linked.requirePhase placed).store.viewAt ?_ a
    rintro r _ ⟨_, _, _, rfl⟩
    rfl
  exact second.trans first

theorem LinkedBy.typed_required (sound : s.Sound) : required.Typed := by
  have sources : ∀ r ∈ s.known, r.Typed := fun r member =>
    (sound r (mem_records_of_known member)).typed
  have inside : ∀ r ∈ s.known, 0 ≤ r.uid ∧ r.uid < s.size := fun r member =>
    ⟨placed.uid_nonneg (mem_records_of_known member), placed.uid_lt (mem_records_of_known member)⟩
  have first := (Linking.linkAliases_total (l := { store := s }) sources ⟨rfl, sound⟩).2
  rw [linked.aliases] at first
  have second := (Linking.linkRequires_total sources inside first).2
  rw [linked.requires] at second
  exact second.typed

/-- What the pass over the pointers of the known records leaves. -/
theorem LinkedBy.pointed (sound : s.Sound) :
    resolved.events = required.events ++ s.known.flatMap s.seeProblems ∧
      resolved.problems = required.problems ++ s.known.flatMap s.seeProblems ∧
      (∀ r ∈ s.known, resolved.store.seesAt r.uid = r.sees.map s.point) ∧
      ∀ a ∉ s.known.map (·.uid), resolved.store.seesAt a = s.seesAt a := by
  have distinct : (s.known.map (·.uid)).Nodup :=
    placed.nodup_uids.sublist (List.filter_sublist.map _)
  have listed : ∀ r ∈ s.known, required.store.seesAt r.uid = r.sees := by
    intro r member
    rw [linked.seesAt_required placed]
    exact placed.viewAt_uid (mem_records_of_known member)
  have done := linked.pointers
  rw [Linking.resolveAll_builtin] at done
  rw [← linked.seesAt_required placed]
  exact Linking.resolveRecords_done placed (linked.sited_required placed)
    (linked.typed_required placed sound) (fun r member => mem_records_of_known member) distinct
    listed done

/-- Linking that ends well has found the problems of the store. -/
theorem LinkedBy.problems (sound : s.Sound) : resolved.problems = s.problems := by
  have start : Linking.Follows s { store := s } :=
    ⟨placed, .refl Record.Counterpart.repeatable.refl s⟩
  obtain ⟨next, aliases⟩ := Linking.linkAliases_tells start linked.aliases
  obtain ⟨_, requires⟩ := Linking.linkRequires_tells next linked.requires
  rw [(linked.pointed placed sound).2.1, requires, aliases, Store.problems]
  rfl

/-- The requirements of known records are settled, and those of other records stay. -/
theorem LinkedBy.requires_eq (nav : s.Navigable) {r r' : Record} (before : r ∈ s.records)
    (after : r' ∈ resolved.store.records) (same : r'.uid = r.uid) :
    r'.requires = if r.kind = .unknown then r.requires else s.linkedRequires r := by
  obtain ⟨_, known, others⟩ := linked.pass nav
  have views : resolved.store.requiresAt = required.store.requiresAt :=
    linked.viewAt_resolved placed (Linking.resolvesPointers_builtin c) _ fun _ _ => rfl
  rw [← views] at known others
  exact view_of_known placed (linked.placed_resolved placed) known others before after same

/-- The pointers of known records are linked, and those of other records stay. -/
theorem LinkedBy.sees_eq (sound : s.Sound) {r r' : Record} (before : r ∈ s.records)
    (after : r' ∈ resolved.store.records) (same : r'.uid = r.uid) :
    r'.sees = if r.kind = .unknown then r.sees else r.sees.map s.point := by
  obtain ⟨_, _, known, others⟩ := linked.pointed placed sound
  exact view_of_known placed (linked.placed_resolved placed) known others before after same

end

theorem requires_of_linked {r r' : Record} (same : r.Counterpart r')
    (blank : ∀ e ∈ r.requires, e.item = none) (linked : r'.requires = s.linkedRequires r) :
    s.Requires r r' := by
  have answered : ∀ e ∈ r'.requires, ∃ e₀ ∈ r.requires, s.keeps e₀ = true ∧ e = s.answer e₀ := by
    intro e listed
    rw [linked] at listed
    obtain ⟨e₀, inside, rfl⟩ := List.mem_map.mp listed
    obtain ⟨member, keeps⟩ := List.mem_filter.mp inside
    exact ⟨e₀, member, keeps, rfl⟩
  have items : ∀ e₀ ∈ r.requires,
      (s.answer e₀).name = e₀.name ∧ (s.answer e₀).kind = e₀.kind ∧
        (s.answer e₀).autofill = e₀.autofill ∧
        (s.answer e₀).item.isSome = (s.find? e₀.name (some e₀.kind)).isSome := by
    intro e₀ member
    cases found : s.find? e₀.name (some e₀.kind) with
    | none => simp [answer_of_none found, blank e₀ member]
    | some t => simp [answer_of_some found]
  refine ⟨same, ?_, ?_, ?_⟩
  · have erased : ∀ e₀ ∈ r.requires.filter s.keeps, { s.answer e₀ with item := none } = e₀ := by
      intro e₀ kept
      have none := blank e₀ (List.mem_of_mem_filter kept)
      cases found : s.find? e₀.name (some e₀.kind) with
      | none => rw [answer_of_none found, ← none]
      | some t => rw [answer_of_some found, ← none]
    rw [linked, linkedRequires, List.map_map]
    exact (List.map_congr_left erased).trans (List.map_id' _)
  · intro e listed suggested
    obtain ⟨e₀, member, keeps, rfl⟩ := answered e listed
    obtain ⟨_, _, autofill, item⟩ := items e₀ member
    rw [item]
    rw [autofill] at suggested
    simpa [Store.keeps, suggested] using keeps
  · intro e listed _
    obtain ⟨e₀, member, _, rfl⟩ := answered e listed
    obtain ⟨name, kind, _, item⟩ := items e₀ member
    rw [item, name, kind]

variable {m : ReferenceMatch} {rs : List Record}

/-- No name stays unanswered without a word. Linking of typed records that are not linked yet ends,
its problems are those of the store and each has its warning; the requirements of the known records are
settled, and those of other records are as they were. -/
theorem link_reports (m : ReferenceMatch) (strict : Bool) (standard : Registry.standard c [] = .ok g)
    (unlinked : ∀ r ∈ rs, r.Unlinked) (typed : ∀ r ∈ rs, r.Typed) :
    let s := ofRecords m rs
    let linked := s.link g strict
    Linking.Ends linked.2 ∧ linked.1.problems = s.problems ∧
      linked.1.events.filter (·.kind = "resolution") = s.problems ∧
      List.Forall₂ (fun r r' => if r.kind = .unknown then r.Counterpart r' ∧ r'.requires = r.requires
        else s.Requires r r') s.records linked.1.store.records := by
  intro s linked
  cases Except.ok.inj ((Registry.standard_nil c).symm.trans standard)
  have ends : Linking.Ends linked.2 := ends_of_unlinked unlinked typed
  have placed : s.Placed := placed_ofRecords m rs
  have blank := forall_unlinked (m := m) unlinked
  have sound : s.Sound := sound_of_unlinked unlinked typed
  obtain ⟨aliased, required, resolved, phases, store, _⟩ := link_ends ends
  obtain ⟨problems, events⟩ := problems_link ends
  have told : linked.1.problems = s.problems := by
    rw [problems, phases.phases]
    exact phases.problems placed sound
  refine ⟨ends, told, ?_, ?_⟩
  · rw [events, ← Linking.problems_phases, ← problems, told]
  · have unused : s.Unused := fun r member => ⟨(blank r member).1, (blank r member).2.1⟩
    have evolves := (link_settled placed unused ends).store
    rw [store] at evolves ⊢
    refine ((List.forall₂_and_left _ _).mpr ⟨fun r member => member, evolves.forall₂⟩).imp ?_
    rintro r r' ⟨before, after, same⟩
    have requires := phases.requires_eq placed (unused.navigable placed) before after same.2
    by_cases unknown : r.kind = .unknown
    · rw [if_pos unknown] at requires ⊢
      exact ⟨same, requires⟩
    · rw [if_neg unknown] at requires ⊢
      exact requires_of_linked same (blank r before).2.2 requires

/-- A mixin that names what is not there, in every way, and suggests a use of it. -/
def seeker : Record where
  context := { kind := .mixin, name := "seek" }
  file := ⟨"a.scss", "a.scss"⟩
  aliases := ["lost"]
  requires := [{ name := "gone", kind := .mixin }, { name := "used", kind := .function, autofill := true }]
  sees := [{ name := "away" }]

theorem link_reports_seeker :
    (∀ r ∈ [seeker], r.Unlinked ∧ r.Typed) ∧
      ((ofRecords .preferType [seeker]).link (.builtin .default) true).1.problems =
        ["Item `seek` is an alias of `lost` but this item doesn't exist.",
          "Item `seek` requires `gone` from type `mixin` but this item doesn't exist.",
          "Item `seek` refers to `away` but this item doesn't exist."].map seeker.complaint := by
  have unlinked : ∀ r ∈ [seeker], r.Unlinked := by simp [seeker, Record.Unlinked, Assoc.get?]
  have typed : ∀ r ∈ [seeker], r.Typed := by simp [seeker, Record.Typed]
  obtain ⟨_, problems, _⟩ := link_reports .preferType true (Registry.standard_nil .default) unlinked typed
  refine ⟨fun r member => ⟨unlinked r member, typed r member⟩, problems.trans ?_⟩
  rfl

/-- An unknown construct whose code suggests a use. -/
def passage : Record where
  context := { kind := .unknown, name := "x" }
  file := ⟨"a.scss", "a.scss"⟩
  requires := [{ name := "gone", kind := .mixin, autofill := true }]

/-- What the code suggests stays with an unknown construct, also where no record answers to it. -/
theorem not_requires_passage :
    (∀ r ∈ [passage], r.Unlinked ∧ r.Typed) ∧
      ¬List.Forall₂ (ofRecords .preferType [passage]).Requires
        (ofRecords .preferType [passage]).records
        ((ofRecords .preferType [passage]).link (.builtin .default) false).1.store.records := by
  refine ⟨by simp [passage, Record.Unlinked, Record.Typed, Assoc.get?], fun settled => ?_⟩
  have stays : ((ofRecords .preferType [passage]).link (.builtin .default) false).1.store.records =
      [{ passage with uid := 0 }] := rfl
  rw [stays] at settled
  obtain ⟨r, _, settles⟩ := exists_of_forall₂ settled List.mem_cons_self
  have item := settles.suggested { name := "gone", kind := .mixin, autofill := true }
    List.mem_cons_self rfl
  cases item

end Store

end SheetDoc
