import SheetDoc.Proofs.Linking.Aliases

namespace SheetDoc

open Relation

namespace Store

/-- Typed records at their places, with users in the store and look-ups that agree. -/
structure Linkable (s : Store) : Prop where
  navigable : s.Navigable
  typed : ∀ r ∈ s.records, r.Typed
  consistent : s.Consistent

/-- A record as linking leaves it. -/
def LinkedIn (s : Store) (r r' : Record) : Prop :=
  ∃ aliased usedBy, r' = { r with
    aliased := aliased
    usedBy := usedBy
    requires := if r.kind = .unknown then r.requires else s.linkedRequires r
    sees := if r.kind = .unknown then r.sees else r.sees.map s.point }

variable {s s' : Store} {r r' : Record} {c : Config} {aliased required resolved : Linking}

theorem LinkedIn.unmoved (linked : s.LinkedIn r r') : r.Unmoved r' := by
  obtain ⟨_, _, rfl⟩ := linked
  exact ⟨⟨⟨rfl, rfl⟩, rfl, rfl⟩, rfl⟩

theorem LinkedIn.requires (linked : s.LinkedIn r r') (known : r.kind ≠ .unknown) :
    r'.requires = s.linkedRequires r := by
  obtain ⟨_, _, rfl⟩ := linked
  exact if_neg known

theorem LinkedIn.sees (linked : s.LinkedIn r r') (known : r.kind ≠ .unknown) :
    r'.sees = r.sees.map s.point := by
  obtain ⟨_, _, rfl⟩ := linked
  exact if_neg known

theorem Linkable.sound (linkable : s.Linkable) : s.Sound := by
  refine fun r member => ⟨linkable.typed r member, fun u listed => ?_⟩
  have inside := linkable.navigable.inside r member u listed
  omega

/-- Linking that is not strict goes through all phases. -/
theorem Linkable.linkedBy (linkable : s.Linkable) (c : Config) :
    ∃ aliased required resolved, s.LinkedBy (.builtin c) aliased required resolved ∧
      s.link (.builtin c) false = (resolved, none) := by
  have ends : Linking.Ends (s.link (.builtin c) false).2 := link_total linkable.navigable.placed
    linkable.sound (Linking.resolvesPointers_builtin c).resolvesTyped
  obtain ⟨aliased, required, resolved, linked, _⟩ := link_ends ends
  refine ⟨aliased, required, resolved, linked, ?_⟩
  rw [link, linked.phases]
  rfl

section

variable (linked : s.LinkedBy (.builtin c) aliased required resolved)

include linked

theorem LinkedBy.unmoved (placed : s.Placed) : s.Evolves Record.Unmoved resolved.store := by
  have trans := Record.Unmoved.repeatable.trans
  have first := (linked.aliasPhase placed).store.mono fun _ _ linked => linked.unmoved
  have second := (linked.requirePhase placed).store.mono fun _ _ required => required.unmoved
  have third := (linked.pointerPhase placed (Linking.resolvesPointers_builtin c)).store.mono
    fun _ _ pointed => pointed.unmoved
  exact (first.trans trans second).trans trans third

theorem LinkedBy.typed (linkable : s.Linkable) : ∀ r ∈ resolved.store.records, r.Typed := by
  obtain ⟨l, done, typed⟩ := phases_total linkable.navigable.placed linkable.sound
    (Linking.resolvesPointers_builtin c).resolvesTyped
  cases done.symm.trans linked.phases
  exact typed

theorem LinkedBy.linkedIn (linkable : s.Linkable) : s.Evolves s.LinkedIn resolved.store := by
  have nav := linkable.navigable
  have e := linked.unmoved nav.placed
  refine { e with records := fun i r r' before after => ?_ }
  have inside := List.mem_of_getElem? before
  have inside' := List.mem_of_getElem? after
  have same := (e.records i r r' before after).1.1.2
  have requires := linked.requires_eq nav.placed nav inside inside' same
  have sees := linked.sees_eq nav.placed linkable.sound inside inside' same
  have typed := linkable.typed r inside
  have typed' := linked.typed linkable r' inside'
  have pointers := linked.pointerPhase nav.placed (Linking.resolvesPointers_builtin c)
  obtain ⟨q, atQ, pointed, rfl⟩ := pointers.store.getElem?_of_after after
  obtain ⟨a, atA, entries, users, strays, rfl⟩ :=
    (linked.requirePhase nav.placed).store.getElem?_of_after atQ
  obtain ⟨t, atT, backs, _, rfl, _⟩ := (linked.aliasPhase nav.placed).store.getElem?_of_after atA
  cases Option.some.inj (before.symm.trans atT)
  have settled : strays = r.strays := Eq.trans typed' typed.symm
  exact ⟨backs, users, by rw [← requires, ← sees, settled]⟩

/-- What has been linked can be linked again. -/
theorem LinkedBy.linkable (linkable : s.Linkable) : resolved.store.Linkable := by
  have nav := linkable.navigable
  have e := linked.unmoved nav.placed
  refine ⟨⟨linked.placed_resolved nav.placed, ?_, ?_⟩, linked.typed linkable, ?_⟩
  · exact fun r member => (linked.typed linkable r member).get? _
  · intro r member u listed
    have pointers := linked.pointerPhase nav.placed (Linking.resolvesPointers_builtin c)
    obtain ⟨q, before, _, rfl⟩ := pointers.store.exists_before member
    have inside := (linked.pass nav).1.navigable.inside q before u listed
    simpa only [size, pointers.store.length] using inside
  · intro name i found
    rw [e.byName] at found
    obtain ⟨r, atI, listed⟩ := linkable.consistent name i found
    obtain ⟨r', atI', same⟩ := e.getElem? atI
    exact ⟨r', atI', by rw [e.byKey, same.1.1.kind]; exact listed⟩

end

/-- A pass over the known records gives the same where it does for each record and its successor. -/
theorem Evolves.flatMap_known {α : Type} {rel : Record → Record → Prop} {f g : Record → List α}
    (e : s.Evolves rel s') (kind : ∀ a b, rel a b → b.kind = a.kind)
    (each : ∀ r r', r.kind ≠ .unknown → rel r r' → f r' = g r) :
    s'.known.flatMap f = s.known.flatMap g := by
  have known : List.Forall₂ (fun r r' => r.kind ≠ .unknown ∧ rel r r') s.known s'.known := by
    have pairs : List.Forall₂ rel s.known s'.known :=
      List.rel_filter (fun _ _ related => by simp only [kind _ _ related])
        (e.forall₂.imp fun _ _ both => both.2)
    refine ((List.forall₂_and_left _ _).mpr ⟨fun r member => ?_, pairs⟩).imp fun _ _ both => both
    exact kind_ne_of_known member
  generalize s.known = before at known ⊢
  generalize s'.known = after at known ⊢
  induction known with
  | nil => rfl
  | cons first _ ih => rw [List.flatMap_cons, List.flatMap_cons, each _ _ first.1 first.2, ih]

section

variable (e : s.Evolves Record.Unmoved s') (same : r.Unmoved r')

include e same

theorem Evolves.aliasLink? (name : String) : s'.aliasLink? (r', name) = s.aliasLink? (r, name) := by
  unfold Store.aliasLink?
  simp only [same.1.1.kind]
  cases found : s.find? name (some r.kind) with
  | none => simp only [e.find?_none found, Option.bind_none]
  | some t =>
    obtain ⟨t', found', same'⟩ := e.find? found
    simp only [found', Option.bind_some, e.aliasCycle? same same', same.1.1.reference, same'.1.1.2]

theorem Evolves.aliasTells (name : String) : s'.aliasTells (r', name) = s.aliasTells (r, name) := by
  unfold Store.aliasTells aliasProblem? aliasNotice?
  simp only [same.1.1.kind, same.1.complaint, same.1.remark, same.1.1.name]
  cases found : s.find? name (some r.kind) with
  | none => simp only [e.find?_none found, Option.bind_none]
  | some t =>
    obtain ⟨t', found', same'⟩ := e.find? found
    simp only [found', Option.bind_some, e.aliasCycle? same same']

omit same in
theorem Evolves.aliasLinks :
    s'.aliasLinks (.ofRecords s'.known) = s.aliasLinks (.ofRecords s.known) := by
  simp only [Store.aliasLinks, Names.ofRecords, List.filterMap_flatMap, List.filterMap_map]
  refine e.flatMap_known (fun _ _ same => same.1.1.kind) fun r r' _ same => ?_
  rw [same.2]
  exact List.filterMap_congr fun name _ => e.aliasLink? same name

omit same in
theorem Evolves.aliasTells_known : (Names.ofRecords s'.known).flatMap s'.aliasTells =
    (Names.ofRecords s.known).flatMap s.aliasTells := by
  simp only [Names.ofRecords, List.flatMap_assoc, List.flatMap_map]
  refine e.flatMap_known (fun _ _ same => same.1.1.kind) fun r r' _ same => ?_
  rw [same.2]
  exact List.flatMap_congr fun name _ => e.aliasTells same name

end

section

variable (e : s.Evolves Record.Counterpart s') (sited : r.Sited r') {g g' : Users}

include e

theorem Evolves.find?_answer {x : Require} {t : Record}
    (found : s.find? x.name (some x.kind) = some t) :
    ∃ t', s'.find? (s.answer x).name (some (s.answer x).kind) = some t' ∧ t.Counterpart t' := by
  rw [answer_of_some found]
  exact e.find? found

theorem Evolves.answer_answer (x : Require) : s'.answer (s.answer x) = s.answer x := by
  cases found : s.find? x.name (some x.kind) with
  | none => rw [answer_of_none found, answer_of_none (e.find?_none found)]
  | some t =>
    obtain ⟨t', again, same⟩ := e.find?_answer found
    rw [answer_of_some again, answer_of_some found, same.reference]

/-- Linking the requirements of a record again changes nothing. -/
theorem Evolves.linkedRequires_again (requires : r'.requires = s.linkedRequires r) :
    s'.linkedRequires r' = r'.requires := by
  rw [Store.linkedRequires, requires, Store.linkedRequires, List.filter_map, e.keeps_answer,
    List.filter_filter, List.map_map]
  simp only [Bool.and_self]
  exact List.map_congr_left fun x _ => e.answer_answer x

include sited

theorem Evolves.request? (x : Require) : s'.request? r' (s.answer x) = s.request? r x := by
  unfold Store.request?
  cases found : s.find? x.name (some x.kind) with
  | none => rw [answer_of_none found, e.find?_none found]; rfl
  | some t =>
    obtain ⟨t', again, same⟩ := e.find?_answer found
    rw [again, Option.map_some, Option.map_some, sited.1.reference, same.2]

theorem Evolves.tells (leads : g'.Leads = g.Leads) (x : Require) :
    s'.tells g' (r', s.answer x) = s.tells g (r, x) := by
  cases found : s.find? x.name (some x.kind) with
  | none =>
    rw [answer_of_none found]
    simp only [Store.tells, requireProblem?, cycleNotice?, found, e.find?_none found, sited.complaint,
      sited.1.name]
  | some t =>
    obtain ⟨t', again, same⟩ := e.find?_answer found
    rw [tells_of_found again, tells_of_found found]
    by_cases path : ReflTransGen g.Leads r.uid t.uid
    · have path' : ReflTransGen g'.Leads r'.uid t'.uid := by rwa [leads, sited.1.2, same.2]
      rw [cycleNotice?_of_path again path', cycleNotice?_of_path found path, sited.remark,
        sited.1.name, same.name]
    · have path' : ¬ReflTransGen g'.Leads r'.uid t'.uid := by rwa [leads, sited.1.2, same.2]
      rw [cycleNotice?_of_apart again path', cycleNotice?_of_apart found path]

theorem Evolves.requests_again (requires : r'.requires = s.linkedRequires r) :
    s'.requests r' = s.requests r := by
  rw [requests, requests, requires, Store.linkedRequires, List.filterMap_map, List.filterMap_filter]
  refine List.filterMap_congr fun x _ => ?_
  rw [Function.comp_apply, e.request? sited]
  split
  · rfl
  · rename_i dropped
    cases found : s.find? x.name (some x.kind) with
    | none => simp [Store.request?, found]
    | some t => simp [keeps, found] at dropped

theorem Evolves.tells_again (leads : g'.Leads = g.Leads)
    (requires : r'.requires = s.linkedRequires r) :
    (r'.requires.flatMap fun x => s'.tells g' (r', x)) = r.requires.flatMap fun x => s.tells g (r, x) := by
  rw [requires, Store.linkedRequires, List.flatMap_map]
  simp only [e.tells sited leads]
  induction r.requires with
  | nil => rfl
  | cons x rest ih =>
    rw [List.filter_cons, List.flatMap_cons, ← ih]
    split
    · rw [List.flatMap_cons]
    · rename_i dropped
      have silent : s.tells g (r, x) = [] := by
        cases found : s.find? x.name (some x.kind) with
        | none =>
          have suggested : x.autofill = true := by simpa [keeps, found] using dropped
          simp [Store.tells, requireProblem?, cycleNotice?, found, suggested]
        | some t => simp [keeps, found] at dropped
      rw [silent, List.nil_append]

end

section

variable (e : s.Evolves Record.Counterpart s') (consistent : s.Consistent)

include consistent

/-- A pointer is found by the kind that it has been given. -/
theorem Consistent.find?_point {x : See} {t : Record} (found : s.find? x.name x.kind = some t) :
    s.find? (s.point x).name (s.point x).kind = some t := by
  rw [point_of_some found]
  cases kind : x.kind with
  | none => exact consistent.find? (kind ▸ found)
  | some k => exact kind ▸ found

theorem Consistent.point_point (x : See) : s.point (s.point x) = s.point x := by
  cases found : s.find? x.name x.kind with
  | none => rw [point_of_none found, point_of_none found]
  | some t =>
    rw [point_of_some (consistent.find?_point found), point_of_some found]
    rfl

theorem Consistent.seeProblem?_point (x : See) :
    s.seeProblem? r (s.point x) = s.seeProblem? r x := by
  cases found : s.find? x.name x.kind with
  | none => rw [point_of_none found]
  | some t => simp only [seeProblem?, found, consistent.find?_point found]

include e

theorem Consistent.sees_again (sees : r'.sees = r.sees.map s.point) :
    r'.sees.map s'.point = r'.sees := by
  rw [e.point, sees, List.map_map]
  exact List.map_congr_left fun x _ => consistent.point_point x

theorem Consistent.seeProblems_again (sited : r.Sited r') (sees : r'.sees = r.sees.map s.point) :
    s'.seeProblems r' = s.seeProblems r := by
  have pointed : s'.seeProblems r' = s.seeProblems { r with sees := r.sees.map s.point } :=
    e.seeProblems (r := { r with sees := r.sees.map s.point }) sited sees
  rw [pointed, seeProblems, seeProblems, List.filterMap_map]
  exact List.filterMap_congr fun x _ => consistent.seeProblem?_point x

end

open scoped Classical in
/-- How many requests for an index come from where the users lead there. -/
noncomputable def cutRequests (s : Store) (g : Users) (a : Int) : Nat :=
  (s.asked (.ofRecords s.known)).countP fun q => q.2 = a ∧ ReflTransGen g.Leads q.1.uid q.2

section

variable {aliased' required' resolved' : Linking} (linkable : s.Linkable)
  (linked : s.LinkedBy (.builtin c) aliased required resolved)

include linkable linked

theorem LinkedBy.usersAt_resolved : resolved.store.usersAt = required.store.usersAt :=
  linked.viewAt_resolved linkable.navigable.placed (Linking.resolvesPointers_builtin c) _
    fun _ _ => rfl

theorem LinkedBy.asked_again : resolved.store.asked (.ofRecords resolved.store.known) =
    s.asked (.ofRecords s.known) := by
  have e := linked.linkedIn linkable
  rw [asked_ofRecords, asked_ofRecords]
  refine e.flatMap_known (fun _ _ linked => linked.unmoved.1.1.kind) fun r r' known linked => ?_
  exact (e.mono fun _ _ linked => linked.unmoved.1.1).requests_again linked.unmoved.1
    (linked.requires known)

/-- Linking leaves a mark for every request that is cut. -/
theorem LinkedBy.count_circular (a : Int) : (resolved.store.usersAt a).count .circular =
    (s.usersAt a).count .circular + s.cutRequests resolved.store.usersAt a := by
  rw [linked.usersAt_resolved linkable, (linked.pass linkable.navigable).1.grows.count_circular]
  rfl

/-- All that linking tells. -/
theorem LinkedBy.events : resolved.events = (Names.ofRecords s.known).flatMap s.aliasTells ++
    (Work.ofRecords s.known).flatMap (s.tells resolved.store.usersAt) ++
      s.known.flatMap s.seeProblems := by
  have nav := linkable.navigable
  have aliases := linked.aliasPass nav.placed fun r member => (linkable.typed r member).get? _
  rw [(linked.pointed nav.placed linkable.sound).1, (linked.pass nav).1.events, aliases.events,
    linked.usersAt_resolved linkable]

variable (again : resolved.store.LinkedBy (.builtin c) aliased' required' resolved')

include again

theorem LinkedBy.aliasedAt_again : resolved'.store.aliasedAt = resolved.store.aliasedAt := by
  have nav := linkable.navigable
  have linkable' := linked.linkable linkable
  have first := linked.aliasPass nav.placed fun r member => (linkable.typed r member).get? _
  have second := again.aliasPass linkable'.navigable.placed
    fun r member => (linkable'.typed r member).get? _
  rw [again.aliasedAt_resolved linkable'.navigable.placed, second.backs,
    (linked.unmoved nav.placed).aliasLinks, linked.aliasedAt_resolved nav.placed, first.backs,
    Backs.foldl_note_idem]

/-- Only marks come again, one for each request that was cut. -/
theorem LinkedBy.usersAt_again (a : Int) : resolved'.store.usersAt a = resolved.store.usersAt a ++
    List.replicate (s.cutRequests resolved.store.usersAt a) .circular := by
  have linkable' := linked.linkable linkable
  have first := (linked.pass linkable.navigable).1.grows
  have second := (again.pass linkable'.navigable).1.grows
  rw [linked.asked_again linkable] at second
  rw [← linked.usersAt_resolved linkable] at first
  rw [again.usersAt_resolved linkable', second.settled fun q member => ?_]
  · rfl
  · rcases first.answered (u := q.1) (t := q.2) member with ⟨_, known⟩ | ⟨path, _⟩
    · exact Or.inr known
    · exact Or.inl path

theorem LinkedBy.events_again : resolved'.events = resolved.events := by
  have linkable' := linked.linkable linkable
  have e := linked.linkedIn linkable
  have unmoved := linked.unmoved linkable.navigable.placed
  have counterpart := unmoved.mono fun _ _ unmoved => unmoved.1.1
  have kind : ∀ a b, s.LinkedIn a b → b.kind = a.kind := fun _ _ linked => linked.unmoved.1.1.kind
  have leads := Users.leads_of_marks (linked.usersAt_again linkable again)
  have requires : (Work.ofRecords resolved.store.known).flatMap
        (resolved.store.tells resolved'.store.usersAt) =
      (Work.ofRecords s.known).flatMap (s.tells resolved.store.usersAt) := by
    simp only [Work.ofRecords, List.flatMap_assoc, List.flatMap_map]
    exact e.flatMap_known kind fun r r' known linked =>
      counterpart.tells_again linked.unmoved.1 leads (linked.requires known)
  have sees : resolved.store.known.flatMap resolved.store.seeProblems =
      s.known.flatMap s.seeProblems :=
    e.flatMap_known kind fun r r' known linked =>
      linkable.consistent.seeProblems_again counterpart linked.unmoved.1 (linked.sees known)
  rw [again.events linkable', linked.events linkable, unmoved.aliasTells_known, requires, sees]

/-- Linking again leaves every record as it is but for the marks. -/
theorem LinkedBy.marked_again : resolved.store.Evolves
    (fun r r' => r' = { r with usedBy :=
      r.usedBy ++ List.replicate (s.cutRequests resolved.store.usersAt r.uid) .circular })
    resolved'.store := by
  have linkable' := linked.linkable linkable
  have e := linked.linkedIn linkable
  have e' := again.linkedIn linkable'
  have counterpart := e.mono fun _ _ linked => linked.unmoved.1.1
  refine { e' with records := fun i r r' before after => ?_ }
  have same := e'.records i r r' before after
  obtain ⟨r₀, _, linked₀⟩ := e.getElem?_of_after before
  have kind := linked₀.unmoved.1.1.kind
  have inside := List.mem_of_getElem? before
  have inside' := List.mem_of_getElem? after
  have placed := linkable'.navigable.placed
  have placed' := (again.linkable linkable').navigable.placed
  have backs := congrFun (linked.aliasedAt_again linkable again) r.uid
  have users := linked.usersAt_again linkable again r.uid
  have uid := same.unmoved.1.1.2
  rw [← uid, aliasedAt, aliasedAt, placed'.viewAt_uid inside', uid, placed.viewAt_uid inside] at backs
  rw [← uid, usersAt, placed'.viewAt_uid inside', uid, usersAt, placed.viewAt_uid inside] at users
  have requires : (if r.kind = .unknown then r.requires else resolved.store.linkedRequires r) =
      r.requires := by
    split
    · rfl
    · rename_i known
      exact counterpart.linkedRequires_again (linked₀.requires (kind ▸ known))
  have sees : (if r.kind = .unknown then r.sees else r.sees.map resolved.store.point) = r.sees := by
    split
    · rfl
    · rename_i known
      exact linkable.consistent.sees_again counterpart (linked₀.sees (kind ▸ known))
  obtain ⟨_, _, rfl⟩ := same
  rw [requires, sees]
  cases backs
  cases users
  rfl

end

variable {m : ReferenceMatch} {g : Registry} {rs : List Record}

theorem linkable_ofRecords (typed : ∀ r ∈ rs, r.Typed)
    (inside : ∀ r ∈ rs, ∀ u : Reference, .user u ∈ r.usedBy → 0 ≤ u.uid ∧ u.uid < rs.length) :
    (ofRecords m rs).Linkable := by
  have typed' : ∀ r ∈ (ofRecords m rs).records, r.Typed :=
    forall_mem_ofRecords fun r member uid =>
      Record.Typed.settle (r := { r with uid := uid }) (typed r member) _
  refine ⟨⟨placed_ofRecords m rs, fun r member => (typed' r member).get? _, ?_⟩, typed',
    consistent_ofRecords m rs⟩
  rw [size_ofRecords]
  exact forall_mem_ofRecords fun r member _ => inside r member

/-- What linking leaves as it is when it is done again: the events and problems are the same, and a record
only gets as many marks more as it got at first, one for each request for it that was cut. -/
structure Repeats (s : Store) (first second : Linking) : Prop where
  events : second.events = first.events
  problems : second.problems = first.problems
  marks : s.Evolves (fun r r' => r'.usedBy.count .circular =
    r.usedBy.count .circular + s.cutRequests first.store.usersAt r.uid) first.store
  records : first.store.Evolves (fun r r' => r' = { r with
    usedBy := r.usedBy ++ List.replicate (s.cutRequests first.store.usersAt r.uid) .circular })
    second.store

theorem Linkable.repeats (linkable : s.Linkable) (c : Config) :
    let first := s.link (.builtin c) false
    let second := first.1.store.link (.builtin c) false
    first.2 = none ∧ second.2 = none ∧ s.Repeats first.1 second.1 := by
  obtain ⟨aliased, required, resolved, linked, first⟩ := linkable.linkedBy c
  have linkable' := linked.linkable linkable
  obtain ⟨aliased', required', resolved', again, second⟩ := linkable'.linkedBy c
  simp only [first, second, true_and]
  have events := linked.events_again linkable again
  have problems : ∀ {s : Store} {a r l : Linking}, s.LinkedBy (.builtin c) a r l →
      l.problems = l.events.filter (·.kind = "resolution") := by
    intro s a r l linked
    have told := Linking.problems_phases (.builtin c) s
    rwa [linked.phases] at told
  refine ⟨events, by rw [problems again, problems linked, events], ?_,
    linked.marked_again linkable again⟩
  have e := linked.linkedIn linkable
  refine { e with records := fun i r r' before after => ?_ }
  have uid := (e.records i r r' before after).unmoved.1.1.2
  have count := linked.count_circular linkable r.uid
  have here : resolved.store.usersAt r.uid = r'.usedBy := by
    rw [← uid]
    exact linkable'.navigable.placed.viewAt_uid (List.mem_of_getElem? after)
  have there : s.usersAt r.uid = r.usedBy :=
    linkable.navigable.placed.viewAt_uid (List.mem_of_getElem? before)
  rwa [here, there] at count

/-- Linking twice is linking once, but for the marks of cut requests that come again. -/
theorem link_again (m : ReferenceMatch) (standard : Registry.standard c [] = .ok g)
    (typed : ∀ r ∈ rs, r.Typed)
    (inside : ∀ r ∈ rs, ∀ u : Reference, .user u ∈ r.usedBy → 0 ≤ u.uid ∧ u.uid < rs.length) :
    let s := ofRecords m rs
    let first := s.link g false
    let second := first.1.store.link g false
    first.2 = none ∧ second.2 = none ∧ s.Repeats first.1 second.1 := by
  cases Except.ok.inj ((Registry.standard_nil c).symm.trans standard)
  exact (linkable_ofRecords typed inside).repeats c

theorem link_again_includers :
    (∀ r ∈ includers, r.Typed ∧
        ∀ u : Reference, .user u ∈ r.usedBy → 0 ≤ u.uid ∧ u.uid < includers.length) ∧
      let s := ofRecords .preferType includers
      let first := s.link (.builtin .default) false
      s.Repeats first.1 (first.1.store.link (.builtin .default) false).1 := by
  have typed : ∀ r ∈ includers, r.Typed := by simp [includers, Record.Typed]
  have inside : ∀ r ∈ includers, ∀ u : Reference, .user u ∈ r.usedBy →
      0 ≤ u.uid ∧ u.uid < includers.length := by simp [includers]
  obtain ⟨_, _, repeats⟩ :=
    link_again .preferType (Registry.standard_nil .default) typed inside
  exact ⟨fun r member => ⟨typed r member, inside r member⟩, repeats⟩

end Store

end SheetDoc
