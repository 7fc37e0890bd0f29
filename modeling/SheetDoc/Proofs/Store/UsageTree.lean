import Mathlib.Data.List.Nodup
import Mathlib.Data.List.Perm.Subperm
import SheetDoc.Proofs.Store.Users

namespace SheetDoc

open Relation

mutual

/-- How many lists of users lie one in another in an entry, with the one it stands in. -/
def UsageTree.depth : UsageTree → Nat
  | .circular => 1
  | .user _ _ users => depths users + 1

def UsageTree.depths : List UsageTree → Nat
  | [] => 0
  | entry :: rest => max entry.depth (depths rest)

end

theorem Record.usages_of_clean {r : Record} (clean : r.strays.get? .usedBy = none) :
    r.usages = .ok r.usedBy := by
  simp only [usages, strayValue?, tail, clean, List.map_nil, List.append_nil]

namespace Store

/-- The entry of a tree that a user becomes below a path: the mark of a cut for a mark and for a user
on the path, and otherwise the record that is meant. -/
inductive Shows (s : Store) (path : List Int) : Usage → UsageTree → Prop
  | mark : Shows s path .circular .circular
  | cut {u : Reference} : u.uid ∈ path → Shows s path (.user u) .circular
  | node {u : Reference} {t : Record} {below : List UsageTree} : u.uid ∉ path →
      s.at? u.uid = some t → Shows s path (.user u) (.user t.kind t.name below)

/-- What stands where in the tree below a record: the indexes on the way down, the record there, and
the entries for its users. -/
inductive Branch (s : Store) (r : Record) (tree : List UsageTree) :
    List Int → Record → List UsageTree → Prop
  | root : Branch s r tree [r.uid] r tree
  | down {path t entries below t'} {i : Nat} {u : Reference} {kind : Kind} {name : String} :
      Branch s r tree path t entries → t.usedBy[i]? = some (.user u) →
      entries[i]? = some (.user kind name below) → s.at? u.uid = some t' →
      Branch s r tree (path ++ [t'.uid]) t' below

/-- The whole of what users become below a path. -/
inductive Unfolds (s : Store) : List Int → List Usage → List UsageTree → Prop
  | nil {path} : Unfolds s path [] []
  | mark {path users entries} : Unfolds s path users entries →
      Unfolds s path (.circular :: users) (.circular :: entries)
  | cut {path u users entries} : u.uid ∈ path → Unfolds s path users entries →
      Unfolds s path (.user u :: users) (.circular :: entries)
  | node {path u t below users entries} : u.uid ∉ path → s.at? u.uid = some t → t.uid = u.uid →
      Unfolds s (path ++ [t.uid]) t.usedBy below → Unfolds s path users entries →
      Unfolds s path (.user u :: users) (.user t.kind t.name below :: entries)

variable {s : Store} {r : Record} {path : List Int} {users : List Usage} {entries : List UsageTree}

theorem Unfolds.cons {usage : Usage} {entry : UsageTree} (first : s.Unfolds path [usage] [entry])
    (rest : s.Unfolds path users entries) : s.Unfolds path (usage :: users) (entry :: entries) := by
  cases first with
  | mark => exact rest.mark
  | cut onPath => exact rest.cut onPath
  | node fresh found uid below => exact .node fresh found uid below rest

theorem Unfolds.mapM {step : Usage → Except Failure UsageTree}
    (each : ∀ usage ∈ users, ∃ entry, step usage = .ok entry ∧ s.Unfolds path [usage] [entry]) :
    ∃ entries, users.mapM step = .ok entries ∧ s.Unfolds path users entries := by
  induction users with
  | nil => exact ⟨[], rfl, .nil⟩
  | cons usage rest ih =>
    obtain ⟨entry, here, first⟩ := each usage List.mem_cons_self
    obtain ⟨entries, later, others⟩ := ih fun u inside => each u (List.mem_cons_of_mem usage inside)
    refine ⟨entry :: entries, ?_, first.cons others⟩
    rw [List.mapM_cons, bind_eq_ok]
    exact ⟨entry, here, bind_eq_ok.mpr ⟨entries, later, rfl⟩⟩

/-- In a navigable store the users below a path are unfolded to the end. -/
theorem Navigable.expand (nav : s.Navigable) (path recent : List Int) {users : List Usage}
    (inside : ∀ u : Reference, .user u ∈ users → 0 ≤ u.uid ∧ u.uid < s.size) :
    ∃ entries, s.expand path recent users = .ok entries ∧ s.Unfolds path users entries := by
  fun_induction Store.expand s path recent users with
  | case1 path recent users _ ih =>
    refine Unfolds.mapM fun usage listed => ?_
    cases usage with
    | circular => exact ⟨_, rfl, .mark .nil⟩
    | user u =>
      simp only
      by_cases onPath : u.uid ∈ path
      · rw [if_pos (by simpa using onPath)]
        exact ⟨_, rfl, .cut onPath .nil⟩
      · rw [if_neg (by simpa using onPath)]
        obtain ⟨t, found, member, uid⟩ := nav.at? (inside u listed)
        have fresh : ¬path.contains t.uid = true := by simpa [uid] using onPath
        obtain ⟨below, unfolded, unfolds⟩ := ih u t found fresh t.usedBy (nav.inside t member)
        split
        · rename_i missing
          cases found.symm.trans missing
        · rename_i t' found'
          cases Option.some.inj (found.symm.trans found')
          rw [dif_neg fresh, Record.usages_of_clean (nav.clean t member)]
          exact ⟨_, congrArg (Except.map _) unfolded, .node onPath found uid unfolds .nil⟩

theorem Navigable.usageTree (nav : s.Navigable) (member : r ∈ s.records) :
    ∃ entries, s.usageTree r = .ok entries ∧ s.Unfolds [r.uid] r.usedBy entries := by
  rw [Store.usageTree, Record.usages_of_clean (nav.clean r member)]
  exact nav.expand [r.uid] [r.uid] (nav.inside r member)

/-- Indexes of records, none of them twice. -/
structure Trail (s : Store) (path : List Int) : Prop where
  distinct : path.Nodup
  inside : ∀ uid ∈ path, 0 ≤ uid ∧ uid < s.size

theorem Trail.start (placed : s.Placed) (member : r ∈ s.records) : s.Trail [r.uid] where
  distinct := List.nodup_singleton _
  inside := by simpa using ⟨placed.uid_nonneg member, placed.uid_lt member⟩

theorem Trail.down (trail : s.Trail path) (placed : s.Placed) (member : r ∈ s.records)
    (fresh : r.uid ∉ path) : s.Trail (path ++ [r.uid]) where
  distinct := by
    rw [← List.concat_eq_append]
    exact (List.nodup_concat _ _).mpr ⟨fresh, trail.distinct⟩
  inside := List.forall_mem_append.mpr ⟨trail.inside, (Trail.start placed member).inside⟩

/-- There are no more steps on a trail than records. -/
theorem Trail.length_le (trail : s.Trail path) : path.length ≤ s.size := by
  have listed : path ⊆ (List.range s.size).map fun n : Nat => (n : Int) := by
    intro uid onPath
    obtain ⟨low, high⟩ := trail.inside uid onPath
    exact List.mem_map.mpr ⟨uid.toNat, List.mem_range.mpr (by omega), by omega⟩
  simpa using (trail.distinct.subperm listed).length_le

namespace Unfolds

variable (unfolds : s.Unfolds path users entries)

include unfolds

theorem shows : List.Forall₂ (s.Shows path) users entries := by
  induction unfolds with
  | nil => exact .nil
  | mark _ ih => exact .cons .mark ih
  | cut onPath _ ih => exact .cons (.cut onPath) ih
  | node fresh found _ _ _ _ ih => exact .cons (.node fresh found) ih

/-- Where a record is shown, its own users are unfolded below it. -/
theorem down {i : Nat} {u : Reference} {kind : Kind} {name : String} {below : List UsageTree}
    (listed : users[i]? = some (.user u)) (shown : entries[i]? = some (.user kind name below)) :
    ∃ t, s.at? u.uid = some t ∧ t.uid ∉ path ∧ s.Unfolds (path ++ [t.uid]) t.usedBy below := by
  induction unfolds generalizing i with
  | nil => cases listed
  | mark _ ih | cut _ _ ih =>
    cases i with
    | zero => cases shown
    | succ i => exact ih listed shown
  | node fresh found uid below _ _ ih =>
    cases i with
    | zero =>
      cases listed
      cases shown
      exact ⟨_, found, uid ▸ fresh, below⟩
    | succ i => exact ih listed shown

/-- Every list of users that lies in another goes with one more index on the way down. -/
theorem depths_le (placed : s.Placed) (trail : s.Trail path) :
    path.length + UsageTree.depths entries ≤ s.size + 1 := by
  induction unfolds with
  | nil => simpa [UsageTree.depths] using Nat.le_succ_of_le trail.length_le
  | mark _ ih | cut _ _ ih =>
    have here := trail.length_le
    have later := ih trail
    simp only [UsageTree.depths, UsageTree.depth]
    omega
  | node fresh found uid _ _ ihBelow ih =>
    have deeper := ihBelow (trail.down placed (at?_mem found) (uid ▸ fresh))
    have later := ih trail
    rw [List.length_append, List.length_singleton] at deeper
    simp only [UsageTree.depths, UsageTree.depth]
    omega

end Unfolds

namespace Branch

variable {tree : List UsageTree} {t : Record} (branch : s.Branch r tree path t entries)

include branch

theorem unfolds (placed : s.Placed) (member : r ∈ s.records)
    (whole : s.Unfolds [r.uid] r.usedBy tree) :
    s.Trail path ∧ s.Unfolds path t.usedBy entries := by
  induction branch with
  | root => exact ⟨.start placed member, whole⟩
  | down _ listed shown found ih =>
    obtain ⟨trail, unfolds⟩ := ih
    obtain ⟨t', found', fresh, below⟩ := unfolds.down listed shown
    cases Option.some.inj (found.symm.trans found')
    exact ⟨trail.down placed (at?_mem found) fresh, below⟩

/-- Whatever is on the way down leads to where it ends. -/
theorem leads (nav : s.Navigable) (member : r ∈ s.records) :
    t ∈ s.records ∧ ∀ uid ∈ path, ReflTransGen s.usersAt.Leads uid t.uid := by
  induction branch with
  | root => exact ⟨member, by simpa using ReflTransGen.refl⟩
  | @down path t _ _ t' i u _ _ _ listed _ found ih =>
    obtain ⟨inside, leads⟩ := ih
    have user : .user u ∈ t.usedBy := List.mem_of_getElem? listed
    obtain ⟨t'', found', _, uid⟩ := nav.at? (nav.inside t inside u user)
    cases Option.some.inj (found.symm.trans found')
    have here : s.usersAt t.uid = t.usedBy := nav.placed.viewAt_uid inside
    have edge : s.usersAt.Leads t.uid t'.uid := ⟨u, here ▸ user, uid.symm⟩
    refine ⟨at?_mem found, List.forall_mem_append.mpr ⟨?_, by simpa using ReflTransGen.refl⟩⟩
    exact fun uid onPath => (leads uid onPath).tail edge

/-- Where users never go round, what is cut is a mark. -/
theorem marks (nav : s.Navigable) (acyclic : s.usersAt.Acyclic) (member : r ∈ s.records)
    (shows : List.Forall₂ (s.Shows path) t.usedBy entries) :
    List.Forall₂ (fun usage entry => entry = .circular ↔ usage = .circular) t.usedBy entries := by
  obtain ⟨inside, leads⟩ := branch.leads nav member
  have here : s.usersAt t.uid = t.usedBy := nav.placed.viewAt_uid inside
  refine ((List.forall₂_and_left _ _).mpr ⟨fun usage listed => listed, shows⟩).imp ?_
  rintro usage entry ⟨listed, shown⟩
  cases shown with
  | mark => simp
  | @cut u onPath => exact absurd ⟨u, here ▸ listed, rfl⟩ (acyclic.not_leads (leads u.uid onPath))
  | node => simp

end Branch

end Store

end SheetDoc
