import Mathlib.Logic.Relation
import SheetDoc.Proofs.Store.Layout

namespace SheetDoc

open Relation

/-- The users of every record, by its index. -/
abbrev Users := Int → List Usage

namespace Users

/-- One index has another among its users. -/
def Leads (g : Users) (a b : Int) : Prop := ∃ u : Reference, Usage.user u ∈ g a ∧ u.uid = b

/-- No index is led back to itself. -/
def Acyclic (g : Users) : Prop := ∀ a, ¬TransGen g.Leads a a

theorem Acyclic.not_leads {g : Users} (acyclic : g.Acyclic) {a b : Int}
    (path : ReflTransGen g.Leads a b) : ¬g.Leads b a :=
  fun back => acyclic a (TransGen.tail' path back)

/-- What has been seen is left behind: its users are seen or wait on the stack. -/
def LeftBehind (g : Users) (seen stack : List Int) : Prop :=
  ∀ a ∈ seen, ∀ b, g.Leads a b → b ∈ seen ∨ b ∈ stack

/-- Something on the stack leads to the target. -/
def Awaits (g : Users) (stack : List Int) (target : Int) : Prop :=
  ∃ v ∈ stack, ReflTransGen g.Leads v target

section

variable {g : Users} {seen stack users : List Int} {target v uid : Int}

/-- A path that starts among the seen leaves them through the stack. -/
theorem LeftBehind.awaits (behind : g.LeftBehind seen stack) (fresh : target ∉ seen)
    (path : ReflTransGen g.Leads v target) (start : v ∈ seen) : g.Awaits stack target := by
  induction path using ReflTransGen.head_induction_on with
  | refl => exact absurd start fresh
  | head edge rest ih =>
    rcases behind _ start _ edge with inside | waiting
    · exact ih inside
    · exact ⟨_, waiting, rest⟩

theorem awaits_cons :
    g.Awaits (uid :: stack) target ↔ ReflTransGen g.Leads uid target ∨ g.Awaits stack target := by
  simp only [Awaits, List.exists_mem_cons_iff]

/-- What has been seen already can be taken off the stack. -/
theorem LeftBehind.skip (behind : g.LeftBehind seen (uid :: stack)) (again : uid ∈ seen) :
    g.LeftBehind seen stack := by
  intro a inside b edge
  rcases behind a inside b edge with old | waits
  · exact Or.inl old
  · rcases List.mem_cons.mp waits with rfl | later
    · exact Or.inl again
    · exact Or.inr later

/-- What is taken off the stack leaves its users there. -/
theorem LeftBehind.visit (behind : g.LeftBehind seen (uid :: stack))
    (listed : ∀ b, b ∈ users ↔ g.Leads uid b) :
    g.LeftBehind (uid :: seen) (users.reverse ++ stack) := by
  intro a inside b edge
  rcases List.mem_cons.mp inside with rfl | old
  · exact Or.inr (List.mem_append_left _ (List.mem_reverse.mpr ((listed b).mpr edge)))
  · rcases behind a old b edge with seen | waits
    · exact Or.inl (List.mem_cons_of_mem uid seen)
    · rcases List.mem_cons.mp waits with rfl | later
      · exact Or.inl List.mem_cons_self
      · exact Or.inr (List.mem_append_right _ later)

theorem awaits_visit (behind : g.LeftBehind (uid :: seen) (users.reverse ++ stack))
    (fresh : target ∉ uid :: seen) (listed : ∀ b, b ∈ users ↔ g.Leads uid b) :
    g.Awaits (users.reverse ++ stack) target ↔ g.Awaits (uid :: stack) target := by
  rw [awaits_cons]
  constructor
  · rintro ⟨v, waits, path⟩
    rcases List.mem_append.mp waits with user | old
    · exact Or.inl (ReflTransGen.head ((listed v).mp (List.mem_reverse.mp user)) path)
    · exact Or.inr ⟨v, old, path⟩
  · rintro (path | ⟨v, old, path⟩)
    · exact behind.awaits fresh path List.mem_cons_self
    · exact ⟨v, List.mem_append_right _ old, path⟩

end

end Users

namespace Store

/-- The users of the record at an index, none where there is no record. -/
def usersAt (s : Store) : Users := s.viewAt (·.usedBy)

/-- A store whose users can be walked along: they are lists of references into the store. -/
structure Navigable (s : Store) : Prop where
  placed : s.Placed
  clean : ∀ r ∈ s.records, r.strays.get? .usedBy = none
  inside : ∀ r ∈ s.records, ∀ u : Reference, Usage.user u ∈ r.usedBy → 0 ≤ u.uid ∧ u.uid < s.size

end Store

theorem Record.users_of_clean {r : Record} (clean : r.strays.get? .usedBy = none) :
    r.users = .ok (r.usedBy.filterMap fun
      | .user reference => some reference.uid
      | .circular => none) := by
  simp only [users, usages, strayValue?, tail, clean, List.map_nil, List.append_nil]
  rfl

namespace Store

variable {s : Store}

theorem Navigable.at? (nav : s.Navigable) {uid : Int} (inside : 0 ≤ uid ∧ uid < s.size) :
    ∃ r, s.at? uid = some r ∧ r ∈ s.records ∧ r.uid = uid := by
  have bound : uid.toNat < s.records.length := by
    have := inside.2
    simp only [size] at this
    omega
  have atUid := List.getElem?_eq_getElem bound
  refine ⟨s.records[uid.toNat], ?_, List.getElem_mem bound, ?_⟩
  · rw [Store.at?, if_pos inside.1]
    exact atUid
  · rw [nav.placed _ _ atUid]
    omega

/-- The indices of the users of a record are those that it leads to. -/
theorem Navigable.mem_users (nav : s.Navigable) {r : Record} (member : r ∈ s.records)
    {users : List Int} (listed : r.users = .ok users) (b : Int) :
    b ∈ users ↔ s.usersAt.Leads r.uid b := by
  have here : s.usersAt r.uid = r.usedBy := nav.placed.viewAt_uid member
  rw [Record.users_of_clean (nav.clean r member)] at listed
  cases listed
  simp only [List.mem_filterMap, Users.Leads, here]
  constructor
  · rintro ⟨_ | _, inside, same⟩
    · exact ⟨_, inside, Option.some.inj same⟩
    · cases same
  · rintro ⟨u, inside, rfl⟩
    exact ⟨_, inside, rfl⟩

theorem Navigable.leads_inside (nav : s.Navigable) {r : Record} (member : r ∈ s.records) {b : Int}
    (edge : s.usersAt.Leads r.uid b) : 0 ≤ b ∧ b < s.size := by
  obtain ⟨u, listed, rfl⟩ := edge
  rw [usersAt, nav.placed.viewAt_uid member] at listed
  exact nav.inside r member u listed

/-- The search ends well in a navigable store, and finds the target exactly when something on the
stack leads to it. -/
theorem Navigable.search (nav : s.Navigable) {target : Int} {seen stack : List Int}
    (waiting : ∀ uid ∈ stack, 0 ≤ uid ∧ uid < s.size) (fresh : target ∉ seen)
    (behind : s.usersAt.LeftBehind seen stack) :
    ∃ found, s.search target seen stack = .ok found ∧
      (found = true ↔ s.usersAt.Awaits stack target) := by
  fun_induction Store.search s target seen stack with
  | case1 seen => exact ⟨false, rfl, by simp [Users.Awaits]⟩
  | case2 seen stack =>
    exact ⟨true, rfl, by simpa using Users.awaits_cons.mpr (Or.inl ReflTransGen.refl)⟩
  | case3 seen uid stack different again ih =>
    have again : uid ∈ seen := by simpa using again
    have rest := behind.skip again
    obtain ⟨found, ends, iff⟩ :=
      ih (fun v later => waiting v (List.mem_cons_of_mem uid later)) fresh rest
    refine ⟨found, ends, iff.trans ⟨fun later => Users.awaits_cons.mpr (Or.inr later), ?_⟩⟩
    intro awaits
    rcases Users.awaits_cons.mp awaits with path | later
    · exact rest.awaits fresh path again
    · exact later
  | case4 seen uid stack different new missing =>
    obtain ⟨r, atUid, _⟩ := nav.at? (waiting uid List.mem_cons_self)
    rw [atUid] at missing
    cases missing
  | case5 seen uid stack different new r atUid fault failed =>
    rw [Record.users_of_clean (nav.clean r (at?_mem atUid))] at failed
    cases failed
  | case6 seen uid stack different new r atUid users listed ih =>
    have member := at?_mem atUid
    obtain ⟨r', atUid', _, rfl⟩ := nav.at? (waiting uid List.mem_cons_self)
    cases Option.some.inj (atUid.symm.trans atUid')
    have listed := nav.mem_users member listed
    have later : ∀ v ∈ users.reverse ++ stack, 0 ≤ v ∧ v < s.size := by
      intro v waits
      rcases List.mem_append.mp waits with user | old
      · exact nav.leads_inside member ((listed v).mp (List.mem_reverse.mp user))
      · exact waiting v (List.mem_cons_of_mem _ old)
    have fresh : target ∉ r.uid :: seen := by
      simpa only [List.mem_cons, not_or] using ⟨fun same => different same.symm, fresh⟩
    have rest := behind.visit listed
    obtain ⟨found, ends, iff⟩ := ih later fresh rest
    exact ⟨found, ends, iff.trans (Users.awaits_visit rest fresh listed)⟩

/-- Whether one record leads to another along users is decided in every navigable store. -/
theorem Navigable.reaches (nav : s.Navigable) {r t : Record} (member : r ∈ s.records) :
    ∃ found, s.reaches r t = .ok found ∧
      (found = true ↔ ReflTransGen s.usersAt.Leads r.uid t.uid) := by
  have waiting : ∀ uid ∈ [r.uid], 0 ≤ uid ∧ uid < s.size := by
    simpa using ⟨nav.placed.uid_nonneg member, nav.placed.uid_lt member⟩
  have fresh : t.uid ∉ ([] : List Int) := List.not_mem_nil
  have behind : s.usersAt.LeftBehind [] [r.uid] := fun a inside => absurd inside List.not_mem_nil
  obtain ⟨found, ends, iff⟩ := nav.search waiting fresh behind
  exact ⟨found, ends, by simpa [Users.Awaits] using iff⟩

/-- A search fails at a user that leads nowhere. -/
theorem reaches_of_stray {r r' t : Record} {others : List Int} {uid : Int} (apart : r.uid ≠ t.uid)
    (here : s.at? r.uid = some r') (users : r'.users = .ok (others ++ [uid]))
    (fresh : uid ≠ t.uid ∧ uid ≠ r.uid) (nowhere : s.at? uid = none) :
    s.reaches r t = .error (.misuse .outOfRange) := by
  have next : s.search t.uid [r.uid] (uid :: others.reverse) = .error (.misuse .outOfRange) := by
    rw [search, if_neg fresh.1, dif_neg (by simpa using fresh.2)]
    split
    · rfl
    · rename_i found
      rw [nowhere] at found
      cases found
  rw [reaches, search, if_neg apart, dif_neg (by simp)]
  split
  · rfl
  · rename_i found
    cases here.symm.trans found
    simpa only [users, List.reverse_append, List.reverse_singleton, List.singleton_append,
      List.append_nil] using next

end Store

end SheetDoc
