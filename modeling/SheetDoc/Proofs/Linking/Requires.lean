import SheetDoc.Proofs.Linking.Pass

namespace SheetDoc

open Relation

namespace Linking

variable {s : Store} {before : List Event} {work : Store.Work} {l l' : Linking} {r t : Record}

theorem modify_congr {α : Type} {f g : α → α} {as : List α} {i : Nat} {a : α}
    (listed : as[i]? = some a) (same : f a = g a) : as.modify i f = as.modify i g := by
  rw [List.modify_eq_set_getElem?, List.modify_eq_set_getElem?, listed]
  simp [same]

theorem modify_middle {α : Type} (f : α → α) (front rest : List α) (a : α) :
    (front ++ a :: rest).modify front.length f = front ++ f a :: rest :=
  List.modifyTailIdx_add _ 0 front (a :: rest)

/-- A warning leaves the store alone. -/
theorem Pass.warn (pass : Pass s before work l) (member : r ∈ s.records) {e : Require}
    {message : String} (asks : s.asked [(r, e)] = [])
    (told : ∀ g, s.tells g (r, e) = [r.complaint message])
    (done : problem r message l = (l', none)) :
    Pass s before (work ++ [(r, e)]) l' ∧ l'.store.requiresAt = l.store.requiresAt := by
  cases problem_complaint done
  refine ⟨pass.next member rfl (.refl Record.Counterpart.repeatable.refl l.store) pass.clean ?_
    (fun _ _ => rfl) ?_, rfl⟩
  · rw [asks, List.append_nil]
    exact pass.grows
  · rw [told]

/-- A requirement that nothing answers to stays as it is. -/
theorem linkRequire_missing (pass : Pass s before work l) (member : r ∈ s.records) {e : Require}
    {index : Nat} (missing : s.find? e.name (some e.kind) = none)
    (done : linkRequire r (e, index) l = (l', none)) :
    Pass s before (work ++ [(r, e)]) l' ∧ l'.store.requiresAt = l.store.requiresAt := by
  have answers := pass.store.find?_none missing
  have asks : s.asked [(r, e)] = [] := by
    simp only [Store.asked, Store.request?, missing, Option.map_none, List.filterMap_cons,
      List.filterMap_nil]
  unfold linkRequire at done
  simp only [answers] at done
  split at done
  · rename_i suggested
    cases done
    have told : ∀ g, s.tells g (r, e) = [] := by
      intro g
      simp [Store.tells, Store.requireProblem?, Store.cycleNotice?, missing, suggested]
    refine ⟨pass.next member rfl (.refl Record.Counterpart.repeatable.refl l.store) pass.clean ?_
      (fun _ _ => rfl) ?_, rfl⟩
    · rw [asks, List.append_nil]
      exact pass.grows
    · rw [told, List.append_nil]
  · rename_i explicit
    refine pass.warn member asks (fun g => ?_) done
    simp [Store.tells, Store.requireProblem?, Store.cycleNotice?, missing, explicit]

/-- A requirement that a record answers to gets its item, and the request for it is decided. -/
theorem linkRequire_found (pass : Pass s before work l) (member : r ∈ s.records) {e : Require}
    {index : Nat} (found : s.find? e.name (some e.kind) = some t)
    (done : linkRequire r (e, index) l = (l', none)) :
    Pass s before (work ++ [(r, e)]) l' ∧
      l'.store.requiresAt = Function.update l.store.requiresAt r.uid
        ((l.store.requiresAt r.uid).modify index fun e => { e with item := some t.reference }) := by
  obtain ⟨t', found', same⟩ := pass.store.find? found
  unfold linkRequire at done
  simp only [found'] at done
  split at done
  · cases done
  · rename_i reference refers
    obtain ⟨_, _, refers⟩ := bind_eq_ok.mp refers
    obtain ⟨_, _, refers⟩ := bind_eq_ok.mp refers
    cases refers
    have marked := pass.modify r.uid (f := setItem index t'.reference)
      fun _ _ => ⟨⟨rfl, rfl⟩, rfl, rfl⟩
    obtain ⟨t'', inside, same'⟩ := marked.counterpart (Store.find?_mem found)
    have alike : t'.Counterpart t'' :=
      ⟨same'.1.trans same.1.symm, same'.2.trans same.2.symm⟩
    obtain ⟨linked, kept⟩ := linkTarget_done marked member inside found same' alike done
    refine ⟨linked, ?_⟩
    rw [kept, ← same.reference]
    exact Store.viewAt_modify_eq_update (g := (·.modify index _)) l.store
      (pass.start.placed.uid_nonneg member) (List.modify_nil _ index) fun _ => rfl

/-- One requirement is linked: the request for what answers to it is decided, and its item is set
in the entry that it stands in. -/
theorem linkRequire_done (pass : Pass s before work l) (member : r ∈ s.records) {e : Require}
    {index : Nat} (done : linkRequire r (e, index) l = (l', none)) :
    Pass s before (work ++ [(r, e)]) l' ∧
      ((l.store.requiresAt r.uid)[index]? = some e →
        l'.store.requiresAt = Function.update l.store.requiresAt r.uid
          ((l.store.requiresAt r.uid).modify index s.answer)) := by
  cases found : s.find? e.name (some e.kind) with
  | none =>
    obtain ⟨linked, kept⟩ := linkRequire_missing pass member found done
    refine ⟨linked, fun listed => ?_⟩
    rw [kept, modify_congr (g := id) listed (Store.answer_of_none found), List.modify_id,
      Function.update_eq_self]
  | some t =>
    obtain ⟨linked, items⟩ := linkRequire_found pass member found done
    refine ⟨linked, fun listed => ?_⟩
    rw [items]
    congr 1
    exact modify_congr listed (Store.answer_of_some found).symm

/-- The requirements of a record one after another: those behind the linked ones are as they were. -/
theorem linkEntries_done (front : List Require) {rest : List Require} (pass : Pass s before work l)
    (member : r ∈ s.records) (listed : l.store.requiresAt r.uid = front.map s.answer ++ rest)
    (done : eachUntil (linkRequire r) (rest.zipIdx front.length) l = (l', none)) :
    Pass s before (work ++ rest.map (r, ·)) l' ∧
      l'.store.requiresAt =
        Function.update l.store.requiresAt r.uid ((front ++ rest).map s.answer) := by
  induction rest generalizing front work l with
  | nil =>
    cases done
    rw [List.append_nil] at listed
    rw [List.append_nil, ← listed, Function.update_eq_self]
    simpa using pass
  | cons e rest ih =>
    rw [List.zipIdx_cons] at done
    obtain ⟨next, first, done⟩ := eachUntil_cons_done.mp done
    have here : (l.store.requiresAt r.uid)[front.length]? = some e := by
      rw [listed]
      simp
    obtain ⟨linked, answered⟩ := linkRequire_done pass member first
    have answered := answered here
    have listed' : next.store.requiresAt r.uid = (front ++ [e]).map s.answer ++ rest := by
      have linked := modify_middle s.answer (front.map s.answer) rest e
      rw [List.length_map] at linked
      rw [answered, Function.update_self, listed, linked, List.map_append, List.append_assoc]
      rfl
    have later : (front ++ [e]).length = front.length + 1 := by simp
    rw [← later] at done
    obtain ⟨last, whole⟩ := ih _ linked listed' done
    constructor
    · rw [List.append_assoc] at last
      exact last
    · rw [whole, answered, Function.update_idem, List.append_assoc]
      rfl

/-- The requirements of a record are linked, and those that nothing answers to go if the code only
suggested them. -/
theorem linkRecord_done (pass : Pass s before work l) (member : r ∈ s.records)
    (listed : l.store.requiresAt r.uid = r.requires) (done : linkRecord r l = (l', none)) :
    Pass s before (work ++ r.requires.map (r, ·)) l' ∧
      l'.store.requiresAt =
        Function.update l.store.requiresAt r.uid (s.linkedRequires r) := by
  obtain ⟨next, entries, done⟩ := andThen_done.mp done
  obtain ⟨linked, answered⟩ := linkEntries_done [] pass member listed entries
  split at done
  · cases done
  · cases done
    refine ⟨linked.modify r.uid fun t _ => ⟨⟨rfl, rfl⟩, rfl, ?_⟩, ?_⟩
    · exact Record.get?_settle_of_ne (by decide) _
    · have dropped : (next.modify r.uid fun t =>
            (dropUnfound next.store t).settle .require).store.requiresAt =
          Function.update next.store.requiresAt r.uid
            ((next.store.requiresAt r.uid).filter next.store.keeps) :=
        Store.viewAt_modify_eq_update next.store (pass.start.placed.uid_nonneg member) (by simp)
          fun _ => rfl
      rw [dropped, answered, Function.update_idem, Function.update_self, List.nil_append,
        List.filter_map, linked.store.keeps_answer, Store.linkedRequires]

/-- The pass over records links each of them once. -/
theorem linkRequires_done {rs : List Record} (pass : Pass s before work l)
    (members : ∀ r ∈ rs, r ∈ s.records) (distinct : (rs.map (·.uid)).Nodup)
    (listed : ∀ r ∈ rs, l.store.requiresAt r.uid = r.requires)
    (done : linkRequires rs l = (l', none)) :
    Pass s before (work ++ .ofRecords rs) l' ∧
      (∀ r ∈ rs, l'.store.requiresAt r.uid = s.linkedRequires r) ∧
      ∀ a ∉ rs.map (·.uid), l'.store.requiresAt a = l.store.requiresAt a := by
  induction rs generalizing work l with
  | nil =>
    cases done
    simpa [Store.Work.ofRecords] using pass
  | cons r rs ih =>
    obtain ⟨next, first, done⟩ := eachUntil_cons_done.mp done
    obtain ⟨fresh, distinct⟩ := List.nodup_cons.mp distinct
    obtain ⟨linked, answered⟩ :=
      linkRecord_done pass (members r List.mem_cons_self) (listed r List.mem_cons_self) first
    have later : ∀ t ∈ rs, next.store.requiresAt t.uid = t.requires := by
      intro t inside
      rw [answered, Function.update_of_ne, listed t (List.mem_cons_of_mem r inside)]
      intro same
      exact fresh (List.mem_map.mpr ⟨t, inside, same⟩)
    obtain ⟨last, each, others⟩ :=
      ih linked (fun t inside => members t (List.mem_cons_of_mem r inside)) distinct later done
    refine ⟨?_, ?_, ?_⟩
    · rwa [List.append_assoc] at last
    · intro t inside
      rcases List.mem_cons.mp inside with rfl | rest
      · rw [others _ fresh, answered, Function.update_self]
      · exact each t rest
    · intro a outside
      obtain ⟨different, outside⟩ := not_or.mp (List.mem_cons.not.mp outside)
      rw [others a outside, answered, Function.update_of_ne different]

/-- Of all that a requirement can tell only the notice is one of a usage cycle. -/
theorem mem_tells_iff {g : Users} {w : Record × Require} :
    (∃ e ∈ s.tells g w, e.IsUsageCycle) ↔
      ∃ t, s.find? w.2.name (some w.2.kind) = some t ∧ ReflTransGen g.Leads w.1.uid t.uid := by
  obtain ⟨r, e⟩ := w
  cases found : s.find? e.name (some e.kind) with
  | none =>
    refine iff_of_false ?_ (by simp)
    rintro ⟨event, told, cycle⟩
    simp only [Store.tells, Store.requireProblem?, Store.cycleNotice?, found, Option.toList_none,
      List.append_nil] at told
    split at told
    · cases told
    · cases List.mem_singleton.mp told
      exact Event.not_isUsageCycle_of_level (by simp [Record.complaint, Event.warning]) cycle
  | some t =>
    rw [Store.tells_of_found found]
    by_cases path : ReflTransGen g.Leads r.uid t.uid
    · rw [Store.cycleNotice?_of_path found path]
      refine iff_of_true ⟨_, List.mem_cons_self, rfl, ?_⟩ ⟨t, rfl, path⟩
      exact ⟨r.name ++ "` and `" ++ t.name ++ "`",
        by simp [Record.remark, Event.notice, String.append_assoc]⟩
    · rw [Store.cycleNotice?_of_apart found path]
      refine iff_of_false (by simp) ?_
      rintro ⟨_, same, path'⟩
      cases same
      exact path path'

/-- Where there were no users, a usage cycle is noted exactly when a request was cut. -/
theorem Pass.notices (pass : Pass s before work l) (empty : ∀ a, s.usersAt a = [])
    (quiet : ∀ e ∈ before, ¬e.IsUsageCycle) :
    (∃ e ∈ l.events, e.IsUsageCycle) ↔ ∃ a, .circular ∈ l.store.usersAt a := by
  rw [pass.events]
  constructor
  · rintro ⟨event, told, cycle⟩
    rcases List.mem_append.mp told with old | new
    · exact absurd cycle (quiet event old)
    · obtain ⟨w, listed, tells⟩ := List.mem_flatMap.mp new
      obtain ⟨t, found, path⟩ := mem_tells_iff.mp ⟨event, tells, cycle⟩
      rcases pass.grows.answered (Store.mem_asked listed found) with ⟨apart, _⟩ | ⟨_, marked⟩
      · exact absurd path apart
      · exact ⟨t.uid, marked⟩
  · rintro ⟨a, marked⟩
    rcases pass.grows.circular_origin marked with old | ⟨u, asks, path⟩
    · rw [empty] at old
      cases old
    · obtain ⟨w, listed, request⟩ := List.mem_filterMap.mp asks
      obtain ⟨t, found, same⟩ := Option.map_eq_some_iff.mp request
      obtain ⟨rfl, rfl⟩ := Prod.mk.inj same
      obtain ⟨event, told, cycle⟩ := mem_tells_iff.mpr ⟨t, found, path⟩
      exact ⟨event, List.mem_append_right _ (List.mem_flatMap.mpr ⟨w, listed, told⟩), cycle⟩

end Linking

/-- What linking leaves of a store. -/
structure Store.Settled (s : Store) (l : Linking) : Prop where
  before : s.Placed
  store : s.Evolves Record.Counterpart l.store
  requires : ∀ r ∈ s.known, l.store.requiresAt r.uid = s.linkedRequires r
  grows : Users.Grows (fun _ => []) (s.known.flatMap s.requests) l.store.usersAt
  notices : (∃ e ∈ l.events, e.IsUsageCycle) ↔ ∃ a, .circular ∈ l.store.usersAt a

namespace Store

variable {s : Store}

theorem Placed.nodup_uids (placed : s.Placed) : (s.records.map (·.uid)).Nodup := by
  rw [List.Nodup, List.pairwise_map, List.pairwise_iff_getElem]
  intro i j hi hj before same
  rw [placed i _ (List.getElem?_eq_getElem hi), placed j _ (List.getElem?_eq_getElem hj)] at same
  omega

/-- No record has a user yet. -/
def Unused (s : Store) : Prop :=
  ∀ r ∈ s.records, r.usedBy = [] ∧ r.strays.get? .usedBy = none

theorem Unused.navigable (unused : s.Unused) (placed : s.Placed) : s.Navigable := by
  refine ⟨placed, fun r member => (unused r member).2, fun r member u listed => ?_⟩
  rw [(unused r member).1] at listed
  cases listed

theorem Unused.usersAt_eq (unused : s.Unused) (placed : s.Placed) (a : Int) : s.usersAt a = [] := by
  rw [List.eq_nil_iff_forall_not_mem]
  intro u member
  obtain ⟨r, inside, _, known⟩ := exists_of_mem_viewAt placed member
  rw [(unused r inside).1] at known
  cases known

/-- Alias links leave the pass over the requirements where it starts. -/
theorem pass_linkAliases (nav : s.Navigable) {aliased : Linking}
    (aliases : (Linking.linkAliases s.known { store := s }).1 = aliased) :
    Linking.Pass s aliased.events [] aliased ∧ aliased.store.requiresAt = s.requiresAt := by
  have store := (Linking.phase_linkAliases (l := { store := s }) nav.placed s.known).store
  rw [aliases] at store
  have requires : aliased.store.requiresAt = s.requiresAt := by
    refine funext (store.viewAt ?_)
    rintro r _ ⟨_, _, rfl, _⟩
    rfl
  have users : aliased.store.usersAt = s.usersAt := by
    refine funext (store.viewAt ?_)
    rintro r _ ⟨_, _, rfl, _⟩
    rfl
  refine ⟨⟨nav, store.mono fun _ _ linked => linked.counterpart, ?_, by simp, ?_, ?_⟩, requires⟩
  · intro r' member
    obtain ⟨r, before, _, _, rfl, others⟩ := store.exists_before member
    rw [others .usedBy (by decide)]
    exact nav.clean r before
  · rw [users]
    exact .start
  · rw [List.flatMap_nil, List.append_nil]

/-- Indexes of records do not count from the end. -/
theorem Placed.nonneg_of_known (placed : s.Placed) : ∀ uid ∈ s.known.map (·.uid), 0 ≤ uid := by
  intro uid member
  obtain ⟨r, inside, rfl⟩ := List.mem_map.mp member
  exact placed.uid_nonneg (mem_records_of_known inside)

section

variable {g : Registry} {aliased required resolved : Linking}
  (linked : s.LinkedBy g aliased required resolved)

include linked

/-- The pass over all requirements settles those of the known records and leaves others alone. -/
theorem LinkedBy.pass (nav : s.Navigable) :
    Linking.Pass s aliased.events (.ofRecords s.known) required ∧
      (∀ r ∈ s.known, required.store.requiresAt r.uid = s.linkedRequires r) ∧
      ∀ a ∉ s.known.map (·.uid), required.store.requiresAt a = s.requiresAt a := by
  obtain ⟨start, same⟩ := pass_linkAliases nav (congrArg Prod.fst linked.aliases)
  have distinct : (s.known.map (·.uid)).Nodup :=
    nav.placed.nodup_uids.sublist (List.filter_sublist.map _)
  have listed : ∀ r ∈ s.known, aliased.store.requiresAt r.uid = r.requires := by
    intro r member
    rw [same]
    exact nav.placed.viewAt_uid (mem_records_of_known member)
  rw [← same]
  exact Linking.linkRequires_done start (fun r member => mem_records_of_known member) distinct listed
    linked.requires

variable (placed : s.Placed)

include placed

theorem LinkedBy.aliasPhase : Linking.Phase Record.BackLinked
    (fun e => Linking.OpensWithItem e.message) { store := s } aliased := by
  have phase := Linking.phase_linkAliases (l := { store := s }) placed s.known
  rwa [linked.aliases] at phase

theorem LinkedBy.placed_aliased : aliased.store.Placed :=
  (linked.aliasPhase placed).store.placed Record.BackLinked.repeatable.uid placed

theorem LinkedBy.requirePhase :
    Linking.Phase Record.Required (fun _ => True) aliased required := by
  have phase := Linking.phase_linkRequires (linked.placed_aliased placed) s.known
  rwa [linked.requires] at phase

theorem LinkedBy.placed_required : required.store.Placed :=
  (linked.requirePhase placed).store.placed Record.Required.repeatable.uid
    (linked.placed_aliased placed)

theorem LinkedBy.pointerPhase (pointers : Linking.ResolvesPointers g) :
    Linking.Phase Record.Pointed (fun e => e.level = .warning) required resolved := by
  have phase := Linking.phase_resolveAll pointers placed.nonneg_of_known
    (linked.placed_required placed)
  rwa [linked.pointers] at phase

/-- What does not show the pointers is not changed after the requirements. -/
theorem LinkedBy.viewAt_resolved (pointers : Linking.ResolvesPointers g) {α : Type}
    (view : Record → List α) (blind : ∀ r sees, view { r with sees := sees } = view r) :
    resolved.store.viewAt view = required.store.viewAt view := by
  refine funext ((linked.pointerPhase placed pointers).store.viewAt ?_)
  rintro r _ ⟨sees, rfl⟩
  exact blind r sees

/-- Nothing that the alias links tell is a notice of a usage cycle. -/
theorem LinkedBy.aliases_quiet : ∀ e ∈ aliased.events, ¬e.IsUsageCycle := by
  obtain ⟨more, events, opens⟩ := (linked.aliasPhase placed).events
  intro e member
  rw [events] at member
  exact e.not_isUsageCycle_of_opens (opens e (by simpa using member))

end

/-- Linking that ends has settled every requirement. -/
theorem link_settled {c : Config} {strict : Bool} (placed : s.Placed) (unused : s.Unused)
    (ends : Linking.Ends (s.link (.builtin c) strict).2) :
    s.Settled (s.link (.builtin c) strict).1 := by
  obtain ⟨aliased, required, resolved, linked, store, fatal⟩ := link_ends ends
  obtain ⟨pass, requires, _⟩ := linked.pass (unused.navigable placed)
  have pointers := Linking.resolvesPointers_builtin c
  obtain ⟨pointed, warnings⟩ := linked.pointerPhase placed pointers
  have users : resolved.store.usersAt = required.store.usersAt :=
    linked.viewAt_resolved placed pointers _ fun _ _ => rfl
  have empty : ∀ a, s.usersAt a = [] := unused.usersAt_eq placed
  refine ⟨placed, ?_, ?_, ?_, ?_⟩
  · rw [store]
    exact pass.store.trans Record.Counterpart.repeatable.trans
      (pointed.mono fun _ _ pointed => pointed.counterpart)
  · intro r member
    rw [store, requiresAt, linked.viewAt_resolved placed pointers _ fun _ _ => rfl]
    exact requires r member
  · rw [store, users, ← asked_ofRecords, ← funext empty]
    exact pass.grows
  · rw [store, users, ← pass.notices empty (linked.aliases_quiet placed),
      fatal.usageCycle_iff fun e level => e.not_isUsageCycle_of_level (by simp [level]),
      warnings.usageCycle_iff fun e level => e.not_isUsageCycle_of_level (by simp [level])]

end Store

end SheetDoc
