import SheetDoc.Proofs.Linking.Growth
import SheetDoc.Proofs.Linking.Outcome

namespace SheetDoc

open Relation

/-- A notice of a usage cycle, by the words it begins with. -/
def Event.IsUsageCycle (e : Event) : Prop :=
  e.level = .notice ∧ ∃ rest, e.message = "Usage cycle between `" ++ rest

theorem Event.not_isUsageCycle_of_opens {e : Event} (opens : Linking.OpensWithItem e.message) :
    ¬e.IsUsageCycle := by
  rintro ⟨_, rest, message⟩
  obtain ⟨rest', message'⟩ := opens
  rw [message'] at message
  have letters := congrArg String.toList message
  simp at letters

theorem Event.not_isUsageCycle_of_level {e : Event} (level : e.level ≠ .notice) :
    ¬e.IsUsageCycle := fun cycle => level cycle.1

/-- Reports of another kind neither add a usage cycle nor take one away. -/
theorem Linking.Reports.usageCycle_iff {P : Event → Prop} {l l' : Linking}
    (reports : Reports P l l') (never : ∀ e, P e → ¬e.IsUsageCycle) :
    (∃ e ∈ l'.events, e.IsUsageCycle) ↔ ∃ e ∈ l.events, e.IsUsageCycle := by
  obtain ⟨more, events, each⟩ := reports
  rw [events]
  constructor
  · rintro ⟨e, member, cycle⟩
    rcases List.mem_append.mp member with old | new
    · exact ⟨e, old, cycle⟩
    · exact absurd cycle (never e (each e new))
  · rintro ⟨e, member, cycle⟩
    exact ⟨e, List.mem_append_left more member, cycle⟩

namespace Store

/-- The requirements of the record at an index. -/
def requiresAt (s : Store) : Int → List Require := s.viewAt (·.requires)

/-- A requirement with what it is linked to, where a record answers to it. -/
def answer (s : Store) (e : Require) : Require :=
  match s.find? e.name (some e.kind) with
  | none => e
  | some t => { e with item := some t.reference }

/-- What the code suggests stays only where a record answers to it. -/
def keeps (s : Store) (e : Require) : Bool :=
  !e.autofill || (s.find? e.name (some e.kind)).isSome

/-- The requirements of a record as linking leaves them. -/
def linkedRequires (s : Store) (r : Record) : List Require :=
  (r.requires.filter s.keeps).map s.answer

/-- A record and the index of what it requires, where a record answers to the requirement. -/
def request? (s : Store) (r : Record) (e : Require) : Option (Reference × Int) :=
  (s.find? e.name (some e.kind)).map fun t => (r.reference, t.uid)

theorem answer_of_none {s : Store} {e : Require} (missing : s.find? e.name (some e.kind) = none) :
    s.answer e = e := by
  simp only [answer, missing]

theorem answer_of_some {s : Store} {e : Require} {t : Record}
    (found : s.find? e.name (some e.kind) = some t) :
    s.answer e = { e with item := some t.reference } := by
  simp only [answer, found]

def requests (s : Store) (r : Record) : List (Reference × Int) :=
  r.requires.filterMap (s.request? r)

/-- Requirements with the records that have them, as linking meets them. -/
abbrev Work := List (Record × Require)

/-- The requirements of some records one after another. -/
def Work.ofRecords (rs : List Record) : Work := rs.flatMap fun r => r.requires.map (r, ·)

/-- The requests that requirements make. -/
def asked (s : Store) (work : Work) : List (Reference × Int) :=
  work.filterMap fun w => s.request? w.1 w.2

theorem asked_ofRecords (s : Store) (rs : List Record) :
    s.asked (.ofRecords rs) = rs.flatMap s.requests := by
  simp only [asked, Work.ofRecords, List.filterMap_flatMap, List.filterMap_map]
  rfl

/-- The problem with a requirement that a comment makes and no record answers to. -/
def requireProblem? (s : Store) (r : Record) (e : Require) : Option Event :=
  match s.find? e.name (some e.kind) with
  | some _ => none
  | none =>
    if e.autofill then none
    else
      some (r.complaint
        ("Item `" ++ r.name ++ "` requires `" ++ e.name ++ "` from type `" ++ e.kind.word ++
          "` but this item doesn't exist."))

open scoped Classical in
/-- The notice of a usage cycle that linking a requirement closes, by where users lead. -/
noncomputable def cycleNotice? (s : Store) (g : Users) (r : Record) (e : Require) : Option Event :=
  match s.find? e.name (some e.kind) with
  | none => none
  | some t =>
    if ReflTransGen g.Leads r.uid t.uid then
      some (r.remark ("Usage cycle between `" ++ r.name ++ "` and `" ++ t.name ++ "`"))
    else none

/-- What linking a requirement tells. -/
noncomputable def tells (s : Store) (g : Users) (w : Record × Require) : List Event :=
  (s.requireProblem? w.1 w.2).toList ++ (s.cycleNotice? g w.1 w.2).toList

variable {s : Store} {g g' : Users} {r : Record} {e : Require} {t : Record}

/-- What is told of a requirement only depends on where the users lead. -/
theorem tells_congr (alike : ∀ t, s.find? e.name (some e.kind) = some t →
      (ReflTransGen g'.Leads r.uid t.uid ↔ ReflTransGen g.Leads r.uid t.uid)) :
    s.tells g' (r, e) = s.tells g (r, e) := by
  classical
  have notices : s.cycleNotice? g' r e = s.cycleNotice? g r e := by
    unfold cycleNotice?
    cases found : s.find? e.name (some e.kind) with
    | none => rfl
    | some t => exact if_congr (alike t found) rfl rfl
  rw [tells, tells, notices]

theorem tells_of_found (found : s.find? e.name (some e.kind) = some t) :
    s.tells g (r, e) = (s.cycleNotice? g r e).toList := by
  simp only [tells, requireProblem?, found, Option.toList_none, List.nil_append]

theorem cycleNotice?_of_path (found : s.find? e.name (some e.kind) = some t)
    (path : ReflTransGen g.Leads r.uid t.uid) : s.cycleNotice? g r e =
      some (r.remark ("Usage cycle between `" ++ r.name ++ "` and `" ++ t.name ++ "`")) := by
  simp only [cycleNotice?, found, if_pos path]

theorem cycleNotice?_of_apart (found : s.find? e.name (some e.kind) = some t)
    (apart : ¬ReflTransGen g.Leads r.uid t.uid) : s.cycleNotice? g r e = none := by
  simp only [cycleNotice?, found, if_neg apart]

theorem mem_asked {work : Work} (listed : (r, e) ∈ work)
    (found : s.find? e.name (some e.kind) = some t) : (r.reference, t.uid) ∈ s.asked work :=
  List.mem_filterMap.mpr ⟨(r, e), listed, by rw [request?, found, Option.map_some]⟩

theorem asked_singleton (found : s.find? e.name (some e.kind) = some t) :
    s.asked [(r, e)] = [(r.reference, t.uid)] := by
  simp only [asked, request?, found, Option.map_some, List.filterMap_cons, List.filterMap_nil]

theorem asked_append (work more : Work) : s.asked (work ++ more) = s.asked work ++ s.asked more :=
  List.filterMap_append

omit r e t in
/-- What is linked stays where it stayed before, since the look-ups are the same. -/
theorem Evolves.keeps_answer {s' : Store} (e : s.Evolves Record.Counterpart s') :
    s'.keeps ∘ s.answer = s.keeps := by
  funext require
  have answers := e.find?_isSome require.name (some require.kind)
  simp only [Function.comp_apply, keeps, answer]
  cases found : s.find? require.name (some require.kind) with
  | none => simp only [answers, found]
  | some t => simp only [answers, found]

omit r e t in
theorem viewAt_modify_of_blind {α : Type} {view : Record → List α} (s : Store) (uid : Int)
    {f : Record → Record} (blind : ∀ r, s.records[uid.toNat]? = some r → view (f r) = view r) :
    (s.modify uid f).viewAt view = s.viewAt view := by
  have changed : s.Evolves (fun r r' => view r' = view r) (s.modify uid f) :=
    Evolves.modify (fun r => Eq.refl (view r)) blind
  exact funext (changed.viewAt fun _ _ same => same)

theorem viewAt_modify_eq_update {α : Type} {view : Record → List α} (s : Store) {uid : Int}
    (nonneg : 0 ≤ uid) {f : Record → Record} {g : List α → List α} (empty : g [] = [])
    (each : ∀ r, view (f r) = g (view r)) :
    (s.modify uid f).viewAt view =
      Function.update (s.viewAt view) uid (g (s.viewAt view uid)) := by
  funext a
  rw [Function.update_apply, viewAt_modify _ _ nonneg]
  by_cases here : a = uid
  · subst here
    rw [if_pos rfl, if_pos rfl, viewAt, if_pos nonneg]
    cases s.records[a.toNat]? with
    | none => exact empty.symm
    | some r => exact each r
  · rw [if_neg here, if_neg here]

theorem modify_self {s : Store} (placed : s.Placed) {t : Record} (member : t ∈ s.records) :
    (s.modify t.uid fun _ => t) = s := by
  have same : (s.modify t.uid fun _ => t).records = s.records := by
    apply List.ext_getElem?
    intro i
    rw [getElem?_modify]
    split
    · rename_i here
      rw [← here, placed.records_uid member]
      rfl
    · rfl
  simp only [modify] at same ⊢
  rw [same]

theorem usersAt_modify {s : Store} (placed : s.Placed) {t : Record} (member : t ∈ s.records)
    (entry : Usage) :
    (s.modify t.uid fun _ => { t with usedBy := t.usedBy ++ [entry] }).usersAt =
      s.usersAt.push t.uid entry := by
  funext a
  rw [usersAt, viewAt_modify _ _ (placed.uid_nonneg member), Users.push]
  by_cases here : a = t.uid
  · subst here
    rw [if_pos rfl, if_pos rfl, placed.records_uid member, usersAt, placed.viewAt_uid member]
    rfl
  · rw [if_neg here, if_neg here, usersAt]

end Store

namespace Linking

variable {s : Store} {before : List Event} {work : Store.Work} {l l' : Linking} {r t : Record}

theorem addCircular_of_clean (clean : t.strays.get? .usedBy = none) :
    addCircular t = .ok { t with usedBy := t.usedBy ++ [.circular] } := by
  simp only [addCircular, Record.adding, Record.holdsList, Record.strayValue?, Record.tail, clean]
  rfl

theorem any_same_ofUsage {u : Reference} {usages : List Usage} :
    (usages.map Item.ofUsage).any (Item.same (.reference u)) = true ↔ .user u ∈ usages := by
  rw [List.any_map, List.any_eq_true]
  constructor
  · rintro ⟨v | _, member, same⟩
    · have equal : u = v := by simpa [Item.ofUsage, Item.same] using same
      exact equal ▸ member
    · simp [Item.ofUsage, Item.same] at same
  · intro member
    exact ⟨.user u, member, by simp [Item.ofUsage, Item.same]⟩

/-- A record becomes a user once, and only where it is not one already. -/
theorem addUser_of_clean (clean : t.strays.get? .usedBy = none) {t' : Record}
    (done : addUser r t = .ok t') :
    .user r.reference ∈ t.usedBy ∧ t' = t ∨
      .user r.reference ∉ t.usedBy ∧
        t' = { t with usedBy := t.usedBy ++ [.user r.reference] } := by
  obtain ⟨user, refers, done⟩ := bind_eq_ok.mp done
  obtain ⟨_, _, refers⟩ := bind_eq_ok.mp refers
  obtain ⟨_, _, refers⟩ := bind_eq_ok.mp refers
  cases refers
  have listed : holds r.reference .usedBy (t.usedBy.map .ofUsage) t =
      .ok ((t.usedBy.map Item.ofUsage).any (Item.same (.reference r.reference))) := by
    simp only [holds, Record.strayValue?, Record.tail, clean, List.append_nil]
  obtain ⟨inside, found, done⟩ := bind_eq_ok.mp done
  cases Except.ok.inj (listed.symm.trans found)
  split at done
  · rename_i known
    cases done
    exact Or.inl ⟨any_same_ofUsage.mp known, rfl⟩
  · rename_i fresh
    refine Or.inr ⟨fun known => fresh (any_same_ofUsage.mpr known), ?_⟩
    rcases Record.adding_ok done with rfl | ⟨stray, rfl⟩
    · rfl
    · simp only [Record.adding, Record.holdsList, Record.strayValue?, Record.tail, clean] at done
      exact (Except.ok.inj done).symm

/-- Where the pass over the requirements of a store stands after some of them. What they are linked to
depends only on look-ups, which the pass does not change; whom they make a user depends on the users so
far, and what was told of them is what these would tell. -/
structure Pass (s : Store) (before : List Event) (work : Store.Work) (l : Linking) : Prop where
  start : s.Navigable
  store : s.Evolves Record.Counterpart l.store
  clean : ∀ r ∈ l.store.records, r.strays.get? .usedBy = none
  members : ∀ w ∈ work, w.1 ∈ s.records
  grows : Users.Grows s.usersAt (s.asked work) l.store.usersAt
  events : l.events = before ++ work.flatMap (s.tells l.store.usersAt)

namespace Pass

variable (pass : Pass s before work l)

include pass

theorem placed : l.store.Placed :=
  pass.store.placed Record.Counterpart.repeatable.uid pass.start.placed

theorem counterpart (member : r ∈ s.records) :
    ∃ r' ∈ l.store.records, r.Counterpart r' := by
  obtain ⟨r', atUid, same⟩ := pass.store.getElem? (pass.start.placed.records_uid member)
  exact ⟨r', List.mem_of_getElem? atUid, same⟩

theorem navigable : l.store.Navigable := by
  have size : l.store.size = s.size := pass.store.length
  refine ⟨pass.placed, pass.clean, ?_⟩
  intro t member u known
  rw [size]
  have atT : .user u ∈ l.store.usersAt t.uid := by
    rw [Store.usersAt, pass.placed.viewAt_uid member]
    exact known
  rcases pass.grows.user_origin atT with old | new
  · obtain ⟨t', inside, _, listed⟩ := Store.exists_of_mem_viewAt pass.start.placed old
    exact pass.start.inside t' inside u listed
  · obtain ⟨w, listed, asks⟩ := List.mem_filterMap.mp new
    obtain ⟨_, _, same⟩ := Option.map_eq_some_iff.mp asks
    obtain ⟨rfl, _⟩ := Prod.mk.inj same
    have inside := pass.members w listed
    exact ⟨pass.start.placed.uid_nonneg inside, pass.start.placed.uid_lt inside⟩

/-- Whether a record leads to what it requires is decided all along the pass. -/
theorem reaches (member : r ∈ s.records) (t : Record) :
    ∃ found, l.store.reaches r t = .ok found ∧
      (found = true ↔ ReflTransGen l.store.usersAt.Leads r.uid t.uid) := by
  obtain ⟨r', inside, same⟩ := pass.counterpart member
  have decided := pass.navigable.reaches inside (t := t)
  rw [Store.reaches, same.2] at decided
  exact decided

/-- A change that leaves the users alone does not count. -/
theorem modify (uid : Int) {f : Record → Record}
    (same : ∀ r, l.store.records[uid.toNat]? = some r → r.Counterpart (f r) ∧
      (f r).usedBy = r.usedBy ∧ (f r).strays.get? .usedBy = r.strays.get? .usedBy) :
    Pass s before work (l.modify uid f) := by
  have changed : l.store.Evolves (fun r r' => r.Counterpart r' ∧ r'.usedBy = r.usedBy ∧
      r'.strays.get? .usedBy = r.strays.get? .usedBy) (l.modify uid f).store :=
    .modify (fun r => ⟨⟨rfl, rfl⟩, rfl, rfl⟩) same
  have users : (l.modify uid f).store.usersAt = l.store.usersAt :=
    funext (changed.viewAt fun _ _ same => same.2.1)
  refine ⟨pass.start, ?_, ?_, pass.members, users ▸ pass.grows, users ▸ pass.events⟩
  · exact pass.store.trans Record.Counterpart.repeatable.trans
      (changed.mono fun _ _ same => same.1)
  · intro r' member
    obtain ⟨r, before, _, _, stray⟩ := changed.exists_before member
    rw [stray]
    exact pass.clean r before

/-- Where the users lead alike from what asked before, the pass goes on. -/
theorem next (member : r ∈ s.records) {e : Require} {l' : Linking} {g : Users}
    (users : l'.store.usersAt = g) (store : l.store.Evolves Record.Counterpart l'.store)
    (clean : ∀ r ∈ l'.store.records, r.strays.get? .usedBy = none)
    (grows : Users.Grows s.usersAt (s.asked work ++ s.asked [(r, e)]) g)
    (alike : ∀ w ∈ work, s.tells g w = s.tells l.store.usersAt w)
    (events : l'.events = l.events ++ s.tells g (r, e)) :
    Pass s before (work ++ [(r, e)]) l' := by
  subst users
  refine ⟨pass.start, pass.store.trans Record.Counterpart.repeatable.trans store, clean, ?_, ?_, ?_⟩
  · refine List.forall_mem_append.mpr ⟨pass.members, ?_⟩
    rintro w last
    rw [List.mem_singleton.mp last]
    exact member
  · rw [Store.asked_append]
    exact grows
  · rw [events, pass.events, List.flatMap_append, List.flatMap_congr alike, List.append_assoc,
      List.flatMap_singleton]

/-- An edge that closes no cycle changes nothing of what was told. -/
theorem tells_push_user {u : Reference} {uid : Int}
    (apart : ¬ReflTransGen l.store.usersAt.Leads u.uid uid) :
    ∀ w ∈ work, s.tells (l.store.usersAt.push uid (.user u)) w = s.tells l.store.usersAt w := by
  rintro ⟨r, e⟩ listed
  refine Store.tells_congr fun t found => ?_
  exact pass.grows.path_push_iff apart (u := r.reference) (Store.mem_asked listed found)

end Pass

theorem requiresAt_modify {uid : Int} {f : Record → Record}
    (blind : ∀ r, l.store.records[uid.toNat]? = some r → (f r).requires = r.requires) :
    (l.modify uid f).store.requiresAt = l.store.requiresAt :=
  Store.viewAt_modify_of_blind l.store uid blind

theorem requiresAt_modify_users (placed : l.store.Placed) (inside : t ∈ l.store.records)
    (usedBy : List Usage) :
    (l.modify t.uid fun _ => { t with usedBy := usedBy }).store.requiresAt = l.store.requiresAt := by
  apply requiresAt_modify
  intro r atUid
  rw [placed.records_uid inside] at atUid
  cases atUid
  rfl

/-- One more user or mark changes nothing else of a record. -/
theorem evolves_modify_users (placed : l.store.Placed) (inside : t ∈ l.store.records)
    (usedBy : List Usage) :
    l.store.Evolves (fun r r' => r.Counterpart r' ∧ r'.strays = r.strays)
      (l.modify t.uid fun _ => { t with usedBy := usedBy }).store := by
  refine .modify (fun r => ⟨⟨rfl, rfl⟩, rfl⟩) fun t' atUid => ?_
  rw [placed.records_uid inside] at atUid
  cases atUid
  exact ⟨⟨rfl, rfl⟩, rfl⟩

theorem clean_of_evolves (clean : ∀ r ∈ l.store.records, r.strays.get? .usedBy = none)
    (changed : l.store.Evolves (fun r r' => r.Counterpart r' ∧ r'.strays = r.strays) l'.store) :
    ∀ r ∈ l'.store.records, r.strays.get? .usedBy = none := by
  intro t' member
  obtain ⟨t, before, _, strays⟩ := changed.exists_before member
  rw [strays]
  exact clean t before

section

variable (pass : Pass s before work l) (member : r ∈ s.records) (inside : t ∈ l.store.records)
  {e : Require} {t₀ : Record} (found : s.find? e.name (some e.kind) = some t₀)
  (same : t₀.Counterpart t)

include pass member inside found same

/-- A request that would close a cycle is cut, and a notice tells so. -/
theorem cut_done (path : ReflTransGen l.store.usersAt.Leads r.uid t.uid)
    (done : andThen (change t.uid addCircular l)
      (notice r ("Usage cycle between `" ++ r.name ++ "` and `" ++ t.name ++ "`")) = (l', none)) :
    Pass s before (work ++ [(r, e)]) l' ∧ l'.store.requiresAt = l.store.requiresAt := by
  simp only [change_of_mem pass.placed inside, addCircular_of_clean (pass.clean t inside), andThen]
    at done
  cases notice_remark done
  have changed := evolves_modify_users pass.placed inside (t.usedBy ++ [.circular])
  refine ⟨pass.next member (Store.usersAt_modify pass.placed inside .circular)
    (changed.mono fun _ _ same => same.1) (clean_of_evolves pass.clean changed) ?_ ?_ ?_,
    requiresAt_modify_users pass.placed inside _⟩
  · rw [Store.asked_singleton found, ← same.2]
    exact .cut pass.grows path
  · rintro ⟨q, e'⟩ _
    exact Store.tells_congr fun _ _ => by rw [Users.leads_push_circular]
  · rw [Store.tells_of_found found, Store.cycleNotice?_of_path found, same.name]
    · rfl
    · rw [Users.leads_push_circular, ← same.2]
      exact path

/-- Any other request makes the record a user, unless it is one already. -/
theorem user_done (apart : ¬ReflTransGen l.store.usersAt.Leads r.uid t.uid)
    (done : change t.uid (addUser r) l = (l', none)) :
    Pass s before (work ++ [(r, e)]) l' ∧ l'.store.requiresAt = l.store.requiresAt := by
  have users : l.store.usersAt t.uid = t.usedBy := pass.placed.viewAt_uid inside
  rw [change_of_mem pass.placed inside] at done
  split at done
  · cases done
  · rename_i changed added
    cases done
    rcases addUser_of_clean (pass.clean t inside) added with ⟨known, rfl⟩ | ⟨fresh, rfl⟩
    · rw [← users] at known
      have idle : l.modify changed.uid (fun _ => changed) = l := by
        rw [modify, Store.modify_self pass.placed inside]
      rw [idle]
      refine ⟨pass.next member rfl (.refl Record.Counterpart.repeatable.refl l.store) pass.clean ?_
        (fun _ _ => rfl) ?_, rfl⟩
      · rw [Store.asked_singleton found, ← same.2]
        exact .again pass.grows apart known
      · rw [Store.tells_of_found found, Store.cycleNotice?_of_apart found (same.2 ▸ apart)]
        exact (List.append_nil _).symm
    · rw [← users] at fresh
      have changed := evolves_modify_users pass.placed inside (t.usedBy ++ [.user r.reference])
      refine ⟨pass.next member (Store.usersAt_modify pass.placed inside (.user r.reference))
        (changed.mono fun _ _ same => same.1) (clean_of_evolves pass.clean changed) ?_
        (pass.tells_push_user apart) ?_, requiresAt_modify_users pass.placed inside _⟩
      · rw [Store.asked_singleton found, ← same.2]
        exact .user pass.grows apart fresh
      · have still := Users.not_path_push_self (u := r.reference) apart
        rw [same.2] at still ⊢
        rw [Store.tells_of_found found, Store.cycleNotice?_of_apart found still]
        exact (List.append_nil _).symm

/-- One request is decided by the users so far. -/
theorem linkTarget_done {t' : Record} (alike : t'.Counterpart t)
    (done : linkTarget r t' l = (l', none)) :
    Pass s before (work ++ [(r, e)]) l' ∧ l'.store.requiresAt = l.store.requiresAt := by
  obtain ⟨decision, decided, leads⟩ := pass.reaches member t'
  rw [linkTarget, decided] at done
  rw [← alike.2] at done leads
  cases decision with
  | true =>
    rw [← alike.name] at done
    exact cut_done pass member inside found same (leads.mp rfl) done
  | false =>
    exact user_done pass member inside found same
      (fun path => Bool.false_ne_true (leads.mpr path)) done

end

end Linking

end SheetDoc
