import Mathlib.Algebra.Order.BigOperators.Group.List
import Mathlib.Algebra.Order.Group.Nat
import Mathlib.Algebra.Ring.Nat
import Mathlib.Data.List.Perm.Subperm
import SheetDoc.Proofs.Store.Users

namespace SheetDoc

open Relation

namespace Store

/-- One record is led to by a user of the other. -/
def LeadsTo (s : Store) (a b : Record) : Prop :=
  ∃ u : Reference, Usage.user u ∈ a.usedBy ∧ s.get u.uid = .ok b

/-- How a search goes from what it has seen and from its stack: through a number of rounds to an
answer. -/
inductive Searches (s : Store) (target : Int) : List Int → List Int → Nat → Bool → Prop
  | exhausted {seen} : Searches s target seen [] 0 false
  | met {seen stack} : Searches s target seen (target :: stack) 1 true
  | again {seen uid stack rounds found} : uid ≠ target → uid ∈ seen →
      Searches s target seen stack rounds found →
      Searches s target seen (uid :: stack) (rounds + 1) found
  | visit {seen uid stack r users rounds found} : uid ≠ target → uid ∉ seen →
      s.get uid = .ok r → r.users = .ok users →
      Searches s target (uid :: seen) (users.reverse ++ stack) rounds found →
      Searches s target seen (uid :: stack) (rounds + 1) found

variable {s : Store} {r t : Record} {target uid : Int} {seen stack : List Int} {rounds : Nat}
  {found : Bool}

theorem get_eq_ok : s.get uid = .ok r ↔ s.at? uid = some r := by
  unfold get
  split
  · rename_i t atUid
    rw [atUid, Except.ok.injEq, Option.some.injEq]
  · rename_i missing
    rw [missing]
    exact ⟨nofun, nofun⟩

/-- The search answers what its rounds lead to. -/
theorem search_eq_ok : s.search target seen stack = .ok found ↔
    ∃ rounds, s.Searches target seen stack rounds found := by
  constructor
  · intro answer
    fun_induction Store.search s target seen stack with
    | case1 seen =>
      cases answer
      exact ⟨0, .exhausted⟩
    | case2 seen stack =>
      cases answer
      exact ⟨1, .met⟩
    | case3 seen uid stack different again ih =>
      obtain ⟨rounds, later⟩ := ih answer
      exact ⟨rounds + 1, .again different (by simpa using again) later⟩
    | case4 | case5 => cases answer
    | case6 seen uid stack different new r atUid users listed ih =>
      obtain ⟨rounds, later⟩ := ih answer
      exact ⟨rounds + 1, .visit different (by simpa using new) (get_eq_ok.mpr atUid) listed later⟩
  · rintro ⟨rounds, searches⟩
    induction searches with
    | exhausted => rw [search]
    | met => rw [search, if_pos rfl]
    | again different again _ ih =>
      rw [search, if_neg different, dif_pos (by simpa using again)]
      exact ih
    | visit different new atUid listed _ ih =>
      rw [search, if_neg different, dif_neg (by simpa using new)]
      split
      · rename_i missing
        cases (get_eq_ok.mp atUid).symm.trans missing
      · rename_i r' atUid'
        cases Option.some.inj ((get_eq_ok.mp atUid).symm.trans atUid')
        simpa only [listed] using ih

/-- How many users the records list that a search has not seen. -/
def unread (s : Store) (seen : List Int) : Nat :=
  ((s.unvisited seen).map (·.usedBy.length)).sum

/-- What a record lists is read once it is seen. -/
theorem unread_cons (member : r ∈ s.records) (fresh : r.uid ∉ seen) :
    s.unread (r.uid :: seen) + r.usedBy.length ≤ s.unread seen := by
  have fewer : (s.unvisited (r.uid :: seen)).Sublist (s.unvisited seen) := by
    refine List.monotone_filter_right _ fun t unseen => ?_
    simp only [List.contains_cons, Bool.not_or, Bool.and_eq_true] at unseen
    exact unseen.2
  have dropped : r ∉ s.unvisited (r.uid :: seen) := by simp [unvisited]
  have kept : r ∈ s.unvisited seen := by simpa [unvisited] using ⟨member, fresh⟩
  obtain ⟨rest, perm, sub⟩ := List.cons_subperm_of_not_mem_of_mem dropped kept fewer.subperm
  calc s.unread (r.uid :: seen) + r.usedBy.length
      = ((r :: s.unvisited (r.uid :: seen)).map (·.usedBy.length)).sum := by
        rw [List.map_cons, List.sum_cons, Nat.add_comm, unread]
    _ = (rest.map (·.usedBy.length)).sum := ((perm.map _).sum_eq).symm
    _ ≤ s.unread seen := (sub.map _).sum_le_sum fun _ _ => Nat.zero_le _

/-- A search visits no record twice, so it takes off the stack what is on it and what the unseen
records list. -/
theorem Navigable.rounds_le (nav : s.Navigable) (searches : s.Searches target seen stack rounds found)
    (waiting : ∀ uid ∈ stack, 0 ≤ uid ∧ uid < s.size) :
    rounds ≤ stack.length + s.unread seen := by
  induction searches with
  | exhausted => exact Nat.zero_le _
  | met => simp only [List.length_cons]; omega
  | again _ _ _ ih =>
    have later := ih fun uid inside => waiting uid (List.mem_cons_of_mem _ inside)
    simp only [List.length_cons]
    omega
  | @visit seen uid stack r users rounds found different new atUid listed _ ih =>
    obtain ⟨r', atUid', member, rfl⟩ := nav.at? (waiting uid List.mem_cons_self)
    cases Option.some.inj ((get_eq_ok.mp atUid).symm.trans atUid')
    have few : users.length ≤ r.usedBy.length := by
      rw [Record.users_of_clean (nav.clean r member)] at listed
      cases listed
      exact List.length_filterMap_le _ _
    have later : ∀ v ∈ users.reverse ++ stack, 0 ≤ v ∧ v < s.size := by
      intro v inside
      rcases List.mem_append.mp inside with user | old
      · exact nav.leads_inside member
          ((nav.mem_users member listed v).mp (List.mem_reverse.mp user))
      · exact waiting v (List.mem_cons_of_mem _ old)
    -- what the record puts on the stack it no longer counts among the unread
    have rest := ih later
    have read := unread_cons member new
    simp only [List.length_append, List.length_reverse, List.length_cons] at rest ⊢
    omega

/-- Records lead to each other as their indexes do. -/
theorem Navigable.leadsTo_iff (nav : s.Navigable) (member : r ∈ s.records) :
    s.LeadsTo r t ↔ t ∈ s.records ∧ s.usersAt.Leads r.uid t.uid := by
  have here : s.usersAt r.uid = r.usedBy := nav.placed.viewAt_uid member
  constructor
  · rintro ⟨u, listed, atUid⟩
    obtain ⟨t', atUid', inside, uid⟩ := nav.at? (nav.inside r member u listed)
    cases Option.some.inj ((get_eq_ok.mp atUid).symm.trans atUid')
    exact ⟨inside, u, here ▸ listed, uid.symm⟩
  · rintro ⟨inside, u, listed, uid⟩
    refine ⟨u, here ▸ listed, get_eq_ok.mpr ?_⟩
    rw [uid]
    exact nav.placed.at?_uid inside

/-- So do paths. -/
theorem Navigable.path_iff (nav : s.Navigable) (member : r ∈ s.records) :
    ReflTransGen s.LeadsTo r t ↔ t ∈ s.records ∧ ReflTransGen s.usersAt.Leads r.uid t.uid := by
  constructor
  · intro path
    induction path with
    | refl => exact ⟨member, .refl⟩
    | tail _ edge ih =>
      obtain ⟨inside, path⟩ := ih
      obtain ⟨next, edge⟩ := (nav.leadsTo_iff inside).mp edge
      exact ⟨next, path.tail edge⟩
  · rintro ⟨inside, path⟩
    have ends : ∀ uid, ReflTransGen s.usersAt.Leads r.uid uid →
        ∃ t' ∈ s.records, t'.uid = uid ∧ ReflTransGen s.LeadsTo r t' := by
      intro uid path
      induction path with
      | refl => exact ⟨r, member, rfl, .refl⟩
      | tail _ edge ih =>
        obtain ⟨a, inside, rfl, path⟩ := ih
        obtain ⟨b, _, next, rfl⟩ := nav.at? (nav.leads_inside inside edge)
        exact ⟨b, next, rfl, path.tail ((nav.leadsTo_iff inside).mpr ⟨next, edge⟩)⟩
    obtain ⟨t', inside', same, path⟩ := ends t.uid path
    cases nav.placed.eq_of_uid_eq inside' inside same
    exact path

/-- Whatever marks, repetitions and cycles there are among the users of a store, the search from one
record to another ends, after no more rounds than there are users and one for the start, and it says
whether a path along users leads from the one to the other. -/
theorem reaches_decides (nav : s.Navigable) (member : r ∈ s.records) (other : t ∈ s.records) :
    ∃ rounds found, s.Searches t.uid [] [r.uid] rounds found ∧
      rounds ≤ (s.records.map (·.usedBy.length)).sum + 1 ∧ s.reaches r t = .ok found ∧
      (found = true ↔ ReflTransGen s.LeadsTo r t) := by
  obtain ⟨found, answer, iff⟩ := nav.reaches (t := t) member
  obtain ⟨rounds, searches⟩ := search_eq_ok.mp answer
  have bound := nav.rounds_le searches
    (by simpa using ⟨nav.placed.uid_nonneg member, nav.placed.uid_lt member⟩)
  have unseen : s.unvisited [] = s.records := by simp [unvisited]
  rw [unread, unseen, List.length_singleton, Nat.add_comm] at bound
  refine ⟨rounds, found, searches, bound, answer, iff.trans ?_⟩
  rw [nav.path_iff member]
  exact (and_iff_right other).symm

/-- Two mixins that use each other, the second one also itself, and a function that the first uses. -/
def looping : Store where
  records :=
    [{ context := { kind := .mixin, name := "open" }, file := ⟨"a.scss", "a.scss"⟩, uid := 0,
       usedBy := [.user ⟨1, .mixin, "close"⟩, .circular, .user ⟨1, .mixin, "close"⟩] },
     { context := { kind := .mixin, name := "close" }, file := ⟨"a.scss", "a.scss"⟩, uid := 1,
       usedBy := [.user ⟨0, .mixin, "open"⟩, .user ⟨1, .mixin, "close"⟩] },
     { context := { kind := .function, name := "ease" }, file := ⟨"a.scss", "a.scss"⟩, uid := 2,
       usedBy := [.user ⟨0, .mixin, "open"⟩] }]

theorem reaches_decides_looping :
    looping.Navigable ∧
      ∀ opens ∈ looping.records[0]?, ∀ closes ∈ looping.records[1]?, ∀ ease ∈ looping.records[2]?,
        looping.reaches ease closes = .ok true ∧ ∃ rounds, rounds ≤ 7 ∧
          looping.Searches ease.uid [] [opens.uid] rounds false ∧
          looping.reaches opens ease = .ok false := by
  have placed : looping.Placed := by
    intro i r atI
    rcases i with _ | _ | _ | i
    · cases atI
      rfl
    · cases atI
      rfl
    · cases atI
      rfl
    · cases atI
  have nav : looping.Navigable := by
    refine ⟨placed, ?_, ?_⟩
    · simp [looping, Assoc.get?]
    · simp [looping, size]
  refine ⟨nav, fun opens atOpens closes atCloses ease atEase => ?_⟩
  have first := List.mem_of_getElem? atOpens
  have last := List.mem_of_getElem? atEase
  constructor
  · obtain ⟨_, found, _, _, answer, iff⟩ :=
      reaches_decides nav last (List.mem_of_getElem? atCloses)
    have path : ReflTransGen looping.LeadsTo ease closes := by
      cases atOpens
      cases atCloses
      cases atEase
      exact .tail (.single ⟨_, List.mem_cons_self, rfl⟩) ⟨_, List.mem_cons_self, rfl⟩
    rw [iff.mpr path] at answer
    exact answer
  · obtain ⟨rounds, found, searches, bound, answer, iff⟩ := reaches_decides nav first last
    have stays : ∀ uid, ReflTransGen looping.usersAt.Leads opens.uid uid → uid = 0 ∨ uid = 1 := by
      intro uid path
      induction path with
      | refl =>
        cases atOpens
        exact Or.inl rfl
      | tail _ edge ih =>
        obtain ⟨u, listed, rfl⟩ := edge
        rcases ih with rfl | rfl
        · have listed : u = ⟨1, .mixin, "close"⟩ := by
            simpa [usersAt, viewAt, looping] using listed
          exact Or.inr (congrArg Reference.uid listed)
        · have listed : u = ⟨0, .mixin, "open"⟩ ∨ u = ⟨1, .mixin, "close"⟩ := by
            simpa [usersAt, viewAt, looping] using listed
          exact listed.imp (congrArg Reference.uid) (congrArg Reference.uid)
    have apart : found = false := by
      rw [Bool.eq_false_iff, Ne, iff]
      intro path
      have reached := stays ease.uid ((nav.path_iff first).mp path).2
      cases atEase
      simp at reached
    subst apart
    exact ⟨rounds, bound, searches, answer⟩

end Store

end SheetDoc
