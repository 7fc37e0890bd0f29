import SheetDoc.Proofs.Linking.Requires
import SheetDoc.Proofs.Linking.Totality

namespace SheetDoc

namespace Store

/-- The pointers of the record at an index. -/
def seesAt (s : Store) : Int → List See := s.viewAt (·.sees)

/-- A pointer with what it is linked to, where a record answers to it. -/
def point (s : Store) (e : See) : See :=
  match s.find? e.name e.kind with
  | none => e
  | some t => { e with item := some t.reference, kind := some (e.kind.getD t.kind) }

theorem point_of_none {s : Store} {e : See} (missing : s.find? e.name e.kind = none) :
    s.point e = e := by
  simp only [point, missing]

theorem point_of_some {s : Store} {e : See} {t : Record} (found : s.find? e.name e.kind = some t) :
    s.point e = { e with item := some t.reference, kind := some (e.kind.getD t.kind) } := by
  simp only [point, found]

/-- The problem with a pointer that no record answers to. -/
def seeProblem? (s : Store) (r : Record) (e : See) : Option Event :=
  match s.find? e.name e.kind with
  | some _ => none
  | none =>
    some (r.complaint
      ("Item `" ++ r.name ++ "` refers to `" ++ e.name ++ "` but this item doesn't exist."))

/-- The problems with the pointers of a record. -/
def seeProblems (s : Store) (r : Record) : List Event := r.sees.filterMap (s.seeProblem? r)

variable {s s' : Store} {r r' : Record}

/-- Look-ups that lead to the same constructs link pointers alike. -/
theorem Evolves.point (e : s.Evolves Record.Counterpart s') : s'.point = s.point := by
  funext see
  unfold Store.point
  cases found : s.find? see.name see.kind with
  | none => rw [e.find?_none found]
  | some t =>
    obtain ⟨t', found', same⟩ := e.find? found
    rw [found']
    simp only [same.reference, same.kind]

theorem Evolves.seeProblems (e : s.Evolves Record.Counterpart s') (sited : r.Sited r')
    (sees : r'.sees = r.sees) : s'.seeProblems r' = s.seeProblems r := by
  unfold Store.seeProblems
  rw [sees]
  congr 1
  funext see
  unfold seeProblem?
  cases found : s.find? see.name see.kind with
  | none => simp only [e.find?_none found, sited.complaint, sited.1.name]
  | some t =>
    obtain ⟨t', found', _⟩ := e.find? found
    simp only [found']

end Store

namespace Linking

variable {s : Store} {l l' : Linking} {r : Record}

theorem problem_of_typed (typed : r.Typed) (message : String) (l : Linking) :
    problem r message l = ({ l with
      events := l.events ++ [r.complaint message]
      problems := l.problems ++ [r.complaint message] }, none) := by
  simp only [problem, typed.readPath]
  rfl

theorem eachUntil_problem (typed : r.Typed) (messages : List String) (l : Linking) :
    eachUntil (problem r) messages l = ({ l with
      events := l.events ++ messages.map r.complaint
      problems := l.problems ++ messages.map r.complaint }, none) := by
  induction messages generalizing l with
  | nil => simp [eachUntil]
  | cons message rest ih =>
    rw [eachUntil, problem_of_typed typed]
    simp only [ih, List.map_cons, List.append_assoc, List.singleton_append]

/-- Pointers of typed records are all linked, and the problems are told in their order. -/
theorem resolveEach_of_typed (typed : ∀ t ∈ s.records, t.Typed) (own : r.Typed) (sees : List See) :
    ∃ messages, Tag.resolveEach s r sees = (sees.map s.point, .ok messages) ∧
      messages.map r.complaint = sees.filterMap (s.seeProblem? r) := by
  induction sees with
  | nil => exact ⟨[], rfl, rfl⟩
  | cons e rest ih =>
    obtain ⟨messages, later, told⟩ := ih
    rw [Tag.resolveEach, Tag.resolveSee]
    cases found : s.find? e.name e.kind with
    | none =>
      refine ⟨_, by simp only [own.readName, later, List.map_cons, Store.point_of_none found]; rfl, ?_⟩
      simp only [List.map_append, told, List.filterMap_cons, Store.seeProblem?, found]
      rfl
    | some t =>
      have refers := (typed t (Store.find?_mem found)).refer
      refine ⟨_, by simp only [refers, later, List.map_cons, Store.point_of_some found]; rfl, ?_⟩
      simp only [List.nil_append, told, List.filterMap_cons, Store.seeProblem?, found]

theorem resolveSees_of_typed (typed : ∀ t ∈ s.records, t.Typed) (own : r.Typed) :
    ∃ messages, Tag.resolveSees s r = ({ r with sees := r.sees.map s.point }, .ok messages) ∧
      messages.map r.complaint = s.seeProblems r := by
  obtain ⟨messages, each, told⟩ := resolveEach_of_typed typed own r.sees
  refine ⟨messages, ?_, told⟩
  rw [Tag.resolveSees, each, own.flaw]
  rfl

/-- One record has its pointers linked. -/
theorem resolveRecord_of_typed (typed : l.Typed) (placed : l.store.Placed)
    (member : r ∈ l.store.records) {l' : Linking}
    (done : resolveRecord Tag.see Tag.resolveSees r.uid l = (l', none)) :
    l'.store = l.store.modify r.uid (fun _ => { r with sees := r.sees.map l.store.point }) ∧
      l'.events = l.events ++ l.store.seeProblems r ∧
      l'.problems = l.problems ++ l.store.seeProblems r := by
  have own := typed r member
  obtain ⟨messages, linked, told⟩ := resolveSees_of_typed typed own
  have own' : ({ r with sees := r.sees.map l.store.point } : Record).Typed := own
  rw [resolveRecord, placed.at?_uid member] at done
  simp only [linked, eachUntil_problem own'] at done
  cases done
  rw [← told]
  exact ⟨rfl, rfl, rfl⟩

/-- The only builtin tag with a resolve step is the one of the pointers. -/
theorem resolveAll_builtin (c : Config) (uids : List Int) (l : Linking) :
    resolveAll (.builtin c) uids l = eachUntil (resolveRecord Tag.see Tag.resolveSees) uids l := by
  rw [resolveAll, Registry.toList_builtin]
  have split : Tag.builtins c =
      (Tag.builtins c).take 16 ++ Tag.see :: (Tag.builtins c).drop 17 := rfl
  have idle : ∀ a : Tag, a.resolve = none → ∀ l, resolveTag uids a l = (l, none) := by
    intro a none l
    rw [resolveTag, none]
  rw [split]
  refine eachUntil_of_idle (fun a member => idle a ?_) (fun a member => idle a ?_) l
  · have before : ∀ a ∈ (Tag.builtins c).take 16, a.resolve = none := by
      simp [Tag.builtins, Tag.access, Tag.aliasOf, Tag.author, Tag.content, Tag.deprecated,
        Tag.sample, Tag.group, Tag.groupDescription, Tag.ignore, Tag.link, Tag.rename, Tag.output,
        Tag.parameter, Tag.property, Tag.require, Tag.returns]
    exact before a member
  · have after : ∀ a ∈ (Tag.builtins c).drop 17, a.resolve = none := by
      simp [Tag.builtins, Tag.since, Tag.throw, Tag.todo, Tag.type]
    exact after a member

theorem seesAt_linked (placed : l.store.Placed) (member : r ∈ l.store.records) (sees : List See) :
    (l.store.modify r.uid fun _ => { r with sees := sees }).seesAt =
      Function.update l.store.seesAt r.uid sees := by
  funext a
  rw [Store.seesAt, Store.viewAt_modify _ _ (placed.uid_nonneg member), Function.update_apply,
    placed.records_uid member]
  rfl

theorem sited_linked (placed : l.store.Placed) (member : r ∈ l.store.records) (sees : List See) :
    l.store.Evolves Record.Sited (l.store.modify r.uid fun _ => { r with sees := sees }) := by
  refine .modify Record.Sited.repeatable.refl fun t atUid => ?_
  rw [placed.records_uid member] at atUid
  cases atUid
  exact ⟨⟨rfl, rfl⟩, rfl, rfl⟩

/-- The pass over records links the pointers of each of them once, as they were before it. -/
theorem resolveRecords_done {rs : List Record} (placed : s.Placed)
    (sited : s.Evolves Record.Sited l.store) (typed : l.Typed) (members : ∀ r ∈ rs, r ∈ s.records)
    (distinct : (rs.map (·.uid)).Nodup) (listed : ∀ r ∈ rs, l.store.seesAt r.uid = r.sees)
    (done : eachUntil (resolveRecord Tag.see Tag.resolveSees) (rs.map (·.uid)) l = (l', none)) :
    l'.events = l.events ++ rs.flatMap s.seeProblems ∧
      l'.problems = l.problems ++ rs.flatMap s.seeProblems ∧
      (∀ r ∈ rs, l'.store.seesAt r.uid = r.sees.map s.point) ∧
      ∀ a ∉ rs.map (·.uid), l'.store.seesAt a = l.store.seesAt a := by
  induction rs generalizing l with
  | nil =>
    cases done
    simp
  | cons r rs ih =>
    obtain ⟨next, first, done⟩ := eachUntil_cons_done.mp done
    obtain ⟨fresh, distinct⟩ := List.nodup_cons.mp distinct
    have placed' := sited.placed Record.Sited.repeatable.uid placed
    obtain ⟨r', atUid, same⟩ :=
      sited.getElem? (placed.records_uid (members r List.mem_cons_self))
    have inside := List.mem_of_getElem? atUid
    have sees : r'.sees = r.sees := by
      rw [← listed r List.mem_cons_self, ← same.1.2, Store.seesAt, placed'.viewAt_uid inside]
    have here : resolveRecord Tag.see Tag.resolveSees r'.uid l = (next, none) := by
      rw [same.1.2]
      exact first
    obtain ⟨store, events, problems⟩ := resolveRecord_of_typed typed placed' inside here
    have counterpart := sited.mono fun _ _ sited => sited.1
    have linked : next.store.seesAt =
        Function.update l.store.seesAt r.uid (r.sees.map s.point) := by
      rw [store, seesAt_linked placed' inside, same.1.2, sees, counterpart.point]
    have typed' : next.Typed := by
      rw [Typed, store]
      exact forall_mem_modify typed fun _ _ => typed r' inside
    have sited' : s.Evolves Record.Sited next.store := by
      rw [store]
      exact sited.trans Record.Sited.repeatable.trans (sited_linked placed' inside _)
    have listed' : ∀ t ∈ rs, next.store.seesAt t.uid = t.sees := by
      intro t member
      rw [linked, Function.update_of_ne, listed t (List.mem_cons_of_mem r member)]
      intro same
      exact fresh (List.mem_map.mpr ⟨t, member, same⟩)
    obtain ⟨heard, told, each, others⟩ := ih sited' typed'
      (fun t member => members t (List.mem_cons_of_mem r member)) distinct listed' done
    refine ⟨?_, ?_, ?_, ?_⟩
    · rw [heard, events, counterpart.seeProblems same sees, List.flatMap_cons, List.append_assoc]
    · rw [told, problems, counterpart.seeProblems same sees, List.flatMap_cons, List.append_assoc]
    · intro t member
      rcases List.mem_cons.mp member with rfl | later
      · rw [others _ fresh, linked, Function.update_self]
      · exact each t later
    · intro a outside
      obtain ⟨different, outside⟩ := not_or.mp (List.mem_cons.not.mp outside)
      rw [others a outside, linked, Function.update_of_ne different]

end Linking

end SheetDoc
