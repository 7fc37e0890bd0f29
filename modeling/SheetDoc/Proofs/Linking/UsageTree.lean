import SheetDoc.Tag.Custom
import SheetDoc.Proofs.Linking.Reciprocity
import SheetDoc.Proofs.Store.UsageTree
import SheetDoc.Proofs.Tag.Registration

namespace SheetDoc

open Relation

/-- `r'` has the index and the users of `r`. -/
def Record.Spared (r r' : Record) : Prop :=
  r'.uid = r.uid ∧ r'.usedBy = r.usedBy ∧ r'.strays.get? .usedBy = r.strays.get? .usedBy

theorem Record.Spared.repeatable : Repeatable Spared where
  refl _ := ⟨rfl, rfl, rfl⟩
  trans := fun _ _ _ ⟨uid, users, stray⟩ ⟨uid', users', stray'⟩ =>
    ⟨uid'.trans uid, users'.trans users, stray'.trans stray⟩
  uid _ _ spared := spared.1

theorem Record.BackLinked.spared {r r' : Record} (linked : r.BackLinked r') : r.Spared r' := by
  obtain ⟨_, _, rfl, others⟩ := linked
  exact ⟨rfl, rfl, others .usedBy (by decide)⟩

/-- The resolve step of a tag, if it has one, does not touch the users of a record. -/
def Tag.SparesUsers (a : Tag) : Prop :=
  ∀ step, a.resolve = some step → ∀ (s : Store) (r : Record), r.Spared (step s r).1

/-- Tags that a caller describes only report what they find. -/
theorem Custom.sparesUsers (c : Custom) : c.toAnnotation.SparesUsers := by
  intro step resolves s r
  obtain ⟨rule, _, rfl⟩ := Option.map_eq_some_iff.mp resolves
  exact Record.Spared.repeatable.refl r

namespace Registry

def SparesUsers (g : Registry) : Prop := ∀ a ∈ g.toList, a.SparesUsers

variable {g : Registry}

theorem SparesUsers.register (spares : g.SparesUsers) {a : Tag} (own : a.SparesUsers)
    (name : String) : (g.register name a).1.SparesUsers := by
  intro b member
  rw [register_eq] at member
  obtain ⟨e, listed, rfl⟩ := List.mem_map.mp member
  split at listed
  · rcases Assoc.mem_of_mem_set listed with old | new
    · exact spares e.2 (List.mem_map.mpr ⟨e, old, rfl⟩)
    · rw [new]
      exact own
  · exact spares e.2 (List.mem_map.mpr ⟨e, listed, rfl⟩)

theorem SparesUsers.registerAll {tags : List Tag} (own : ∀ a ∈ tags, a.SparesUsers)
    (spares : g.SparesUsers) : (registerAll tags g).1.SparesUsers := by
  induction tags generalizing g with
  | nil => exact spares
  | cons a rest ih =>
    have next := spares.register (own a List.mem_cons_self) a.name
    rw [Registry.registerAll]
    split
    · rename_i g' done
      rw [done] at next
      exact ih (fun b inside => own b (List.mem_cons_of_mem a inside)) next
    · exact next

theorem sparesUsers_builtin (c : Config) : (builtin c).SparesUsers := by
  intro a member step resolves s r
  cases Linking.resolvesPointers_builtin c a member step resolves
  exact ⟨rfl, rfl, rfl⟩

/-- Further tags that spare the users leave a registry that does. -/
theorem sparesUsers_standard {c : Config} {more : List Tag} (own : ∀ a ∈ more, a.SparesUsers)
    (standard : Registry.standard c more = .ok g) : g.SparesUsers := by
  have builtins : ofList (Tag.builtins c) = .ok (builtin c) := by
    obtain ⟨g, listed, same⟩ := bind_eq_ok.mp (standard_nil c)
    cases same
    exact listed
  obtain ⟨g₀, listed, registered⟩ := bind_eq_ok.mp standard
  cases Except.ok.inj (builtins.symm.trans listed)
  have spares := (sparesUsers_builtin c).registerAll own
  split at registered
  · rename_i done
    cases registered
    rw [done] at spares
    exact spares
  · cases registered

end Registry

namespace Linking

variable {n : Nat} {l l' : Linking} {r t : Record}

/-- Among a number of records users can be walked along, and never go round. -/
structure Straight (n : Nat) (l : Linking) : Prop where
  size : l.store.size = n
  nav : l.store.Navigable
  acyclic : l.store.usersAt.Acyclic

theorem andThen_keeps {P : Linking → Prop} {done : Linking × Option Failure}
    {next : Linking → Linking × Option Failure} (first : P done.1)
    (second : ∀ l, P l → P (next l).1) : P (andThen done next).1 := by
  obtain ⟨l, _ | failure⟩ := done
  · exact second l first
  · exact first

namespace Straight

variable (straight : Straight n l)

include straight

theorem of_spared (e : l.store.Evolves Record.Spared l'.store) : Straight n l' := by
  have users : l'.store.usersAt = l.store.usersAt := funext (e.viewAt fun _ _ same => same.2.1)
  have size : l'.store.size = l.store.size := e.length
  refine ⟨size.trans straight.size, ⟨?_, ?_, ?_⟩, users ▸ straight.acyclic⟩
  · exact e.placed (fun _ _ spared => spared.1) straight.nav.placed
  · intro r' member
    obtain ⟨r, before, _, _, stray⟩ := e.exists_before member
    rw [stray]
    exact straight.nav.clean r before
  · intro r' member u listed
    obtain ⟨r, before, _, usedBy, _⟩ := e.exists_before member
    rw [size]
    exact straight.nav.inside r before u (usedBy ▸ listed)

theorem of_store_eq (same : l'.store = l.store) : Straight n l' :=
  straight.of_spared (same ▸ .refl Record.Spared.repeatable.refl l.store)

theorem problem (r : Record) (message : String) : Straight n (problem r message l).1 :=
  straight.of_spared (phase_problem (P := fun _ => True) Record.Spared.repeatable r message
    (fun _ _ => trivial) l).store

/-- One more entry that closes no cycle. -/
theorem push (member : t ∈ l.store.records) {entry : Usage}
    (inside : ∀ u : Reference, entry = .user u → 0 ≤ u.uid ∧ u.uid < n)
    (acyclic : (l.store.usersAt.push t.uid entry).Acyclic) :
    Straight n (l.modify t.uid fun _ => { t with usedBy := t.usedBy ++ [entry] }) := by
  have placed := straight.nav.placed
  have changed := evolves_modify_users placed member (t.usedBy ++ [entry])
  have placed' := changed.placed (fun _ _ same => same.1.2) placed
  have size := changed.length.trans straight.size
  have users : (l.modify t.uid fun _ => { t with usedBy := t.usedBy ++ [entry] }).store.usersAt =
      l.store.usersAt.push t.uid entry := Store.usersAt_modify placed member entry
  refine ⟨size, ⟨placed', clean_of_evolves straight.nav.clean changed, ?_⟩, users ▸ acyclic⟩
  intro r after u listed
  have known : .user u ∈ l.store.usersAt.push t.uid entry r.uid := by
    rw [← users, Store.usersAt, placed'.viewAt_uid after]
    exact listed
  rw [Store.size, size]
  rcases Users.mem_push.mp known with old | ⟨_, new⟩
  · obtain ⟨r₀, before, _, listed₀⟩ := Store.exists_of_mem_viewAt placed old
    rw [← straight.size]
    exact straight.nav.inside r₀ before u listed₀
  · exact inside u new.symm

theorem cut (member : t ∈ l.store.records) : Straight n (change t.uid addCircular l).1 := by
  rw [change_of_mem straight.nav.placed member,
    addCircular_of_clean (straight.nav.clean t member)]
  refine straight.push member (fun _ same => nomatch same) ?_
  intro a
  rw [Users.leads_push_circular]
  exact straight.acyclic a

theorem user (member : t ∈ l.store.records) (inside : 0 ≤ r.uid ∧ r.uid < n)
    (apart : ¬ReflTransGen l.store.usersAt.Leads r.uid t.uid) :
    Straight n (change t.uid (addUser r) l).1 := by
  rw [change_of_mem straight.nav.placed member]
  split
  · exact straight
  · rename_i t' added
    rcases addUser_of_clean (straight.nav.clean t member) added with ⟨_, rfl⟩ | ⟨_, rfl⟩
    · exact straight.of_store_eq (Store.modify_self straight.nav.placed member)
    · refine straight.push member ?_ (straight.acyclic.push_user apart)
      rintro _ ⟨⟩
      exact inside

/-- A record becomes a user only where it is not led to what it requires. -/
theorem target (source : 0 ≤ r.uid ∧ r.uid < n) (inside : 0 ≤ t.uid ∧ t.uid < n) :
    Straight n (linkTarget r t l).1 := by
  rw [← straight.size] at source inside
  obtain ⟨r', _, member, uid⟩ := straight.nav.at? source
  obtain ⟨t', _, member', uid'⟩ := straight.nav.at? inside
  obtain ⟨found, decided, leads⟩ := straight.nav.reaches member (t := t')
  have decided : l.store.reaches r t = .ok found := by
    rwa [Store.reaches, uid, uid'] at decided
  rw [straight.size] at source
  rw [linkTarget, decided, ← uid']
  cases found with
  | true => exact andThen_keeps (straight.cut member') fun l next =>
      next.of_spared (phase_notice (P := fun _ => True) Record.Spared.repeatable r _
        (fun _ _ => trivial) l).store
  | false =>
    refine straight.user member' source fun path => Bool.false_ne_true (leads.mpr ?_)
    rwa [uid]

end Straight

theorem straight_linkRequire (straight : Straight n l) (source : 0 ≤ r.uid ∧ r.uid < n)
    (entry : Require × Nat) : Straight n (linkRequire r entry l).1 := by
  unfold linkRequire
  simp only
  split
  · split
    · exact straight
    · exact straight.problem r _
  · rename_i t found
    split
    · exact straight
    · have member := Store.find?_mem found
      have inside : 0 ≤ t.uid ∧ t.uid < n :=
        ⟨straight.nav.placed.uid_nonneg member, straight.size ▸ straight.nav.placed.uid_lt member⟩
      refine Straight.target (straight.of_spared ?_) source inside
      exact .modify Record.Spared.repeatable.refl fun _ _ => ⟨rfl, rfl, rfl⟩

theorem straight_linkRecord (straight : Straight n l) (source : 0 ≤ r.uid ∧ r.uid < n) :
    Straight n (linkRecord r l).1 := by
  refine andThen_keeps (eachUntil_keeps (P := Straight n) ?_ straight) fun l next => ?_
  · exact fun entry _ l straight => straight_linkRequire straight source entry
  · split
    · exact next
    · refine next.of_spared (.modify Record.Spared.repeatable.refl fun _ _ => ⟨rfl, rfl, ?_⟩)
      exact Record.get?_settle_of_ne (by decide) _

/-- The pass over the requirements keeps users straight, step by step. -/
theorem straight_linkRequires {rs : List Record} (straight : Straight n l)
    (sources : ∀ r ∈ rs, 0 ≤ r.uid ∧ r.uid < n) : Straight n (linkRequires rs l).1 :=
  eachUntil_keeps (fun r member _ straight => straight_linkRecord straight (sources r member)) straight

end Linking

namespace Store

variable {s : Store} {g : Registry} {r : Record}

/-- Linking keeps users straight wherever it comes to an end. -/
theorem straight_link (placed : s.Placed) (unused : s.Unused) (spares : g.SparesUsers)
    (strict : Bool) : Linking.Straight s.size (s.link g strict).1 := by
  have sources : ∀ r ∈ s.known, 0 ≤ r.uid ∧ r.uid < s.size := fun r member =>
    ⟨placed.uid_nonneg (mem_records_of_known member), placed.uid_lt (mem_records_of_known member)⟩
  have start : Linking.Straight s.size { store := s } :=
    ⟨rfl, unused.navigable placed, Users.acyclic_of_empty (unused.usersAt_eq placed)⟩
  have aliased : Linking.Straight s.size (Linking.linkAliases s.known { store := s }).1 :=
    start.of_spared ((Linking.phase_linkAliases (l := { store := s }) placed s.known).store.mono
      fun _ _ linked => linked.spared)
  refine Linking.andThen_keeps (Linking.andThen_keeps (Linking.andThen_keeps aliased ?_) ?_) ?_
  · exact fun l straight => Linking.straight_linkRequires straight sources
  · exact fun l straight => straight.of_spared (Linking.phase_resolve (P := fun _ => True)
      Record.Spared.repeatable (fun _ _ _ => trivial) spares placed.nonneg_of_known
      straight.nav.placed).store
  · intro l straight
    unfold Linking.escalate
    split
    · exact straight.of_store_eq rfl
    · exact straight

/-- Trees of users are unfolded to the end: an entry for every user in its order, cut exactly at a
mark and at what is on the way down already. So no way goes on for longer than there are records, and
after linking only marks are cut. -/
theorem usageTree_unfolds (strict : Bool) :
    (s.Navigable → r ∈ s.records → ∃ tree, s.usageTree r = .ok tree ∧
        UsageTree.depths tree ≤ s.size ∧
        ∀ path t entries, s.Branch r tree path t entries →
          path.Nodup ∧ List.Forall₂ (s.Shows path) t.usedBy entries) ∧
      (s.Placed → s.Unused → g.SparesUsers →
        let linked := (s.link g strict).1.store
        linked.Navigable ∧ ∀ r ∈ linked.records, ∃ tree, linked.usageTree r = .ok tree ∧
          ∀ path t entries, linked.Branch r tree path t entries →
            List.Forall₂ (fun usage entry => entry = .circular ↔ usage = .circular)
              t.usedBy entries) := by
  constructor
  · intro nav member
    obtain ⟨tree, answer, unfolds⟩ := nav.usageTree member
    have deep := unfolds.depths_le nav.placed (.start nav.placed member)
    rw [List.length_singleton] at deep
    refine ⟨tree, answer, by omega, fun path t entries branch => ?_⟩
    obtain ⟨trail, below⟩ := branch.unfolds nav.placed member unfolds
    exact ⟨trail.distinct, below.shows⟩
  · intro placed unused spares linked
    have straight := straight_link placed unused spares strict
    refine ⟨straight.nav, fun r member => ?_⟩
    obtain ⟨tree, answer, unfolds⟩ := straight.nav.usageTree member
    refine ⟨tree, answer, fun path t entries branch => ?_⟩
    have below := (branch.unfolds straight.nav.placed member unfolds).2
    exact branch.marks straight.nav straight.acyclic member below.shows

/-- Two mixins that use each other, one of them twice and with a mark. -/
def circling : Store where
  records :=
    [{ context := { kind := .mixin, name := "open" }, file := ⟨"a.scss", "a.scss"⟩, uid := 0,
       usedBy := [.user ⟨1, .mixin, "close"⟩, .circular, .user ⟨1, .mixin, "close"⟩] },
     { context := { kind := .mixin, name := "close" }, file := ⟨"a.scss", "a.scss"⟩, uid := 1,
       usedBy := [.user ⟨0, .mixin, "open"⟩, .user ⟨1, .mixin, "close"⟩] }]

/-- A tag of a caller that reports how many users a record has. -/
def counting : Custom := { name := "usage", resolve := some .usedBy }

theorem usageTree_unfolds_circling :
    circling.Navigable ∧
      (∀ r ∈ circling.records, ∃ tree, circling.usageTree r = .ok tree ∧
        UsageTree.depths tree ≤ 2 ∧ ∀ path t entries, circling.Branch r tree path t entries →
          path.Nodup ∧ List.Forall₂ (circling.Shows path) t.usedBy entries) ∧
      ∃ g, Registry.standard .default [counting.toAnnotation] = .ok g ∧
        (ofRecords .preferType includers).Unused ∧
          let linked := ((ofRecords .preferType includers).link g false).1.store
          linked.Navigable ∧ ∀ r ∈ linked.records, ∃ tree, linked.usageTree r = .ok tree ∧
            ∀ path t entries, linked.Branch r tree path t entries →
              List.Forall₂ (fun usage entry => entry = .circular ↔ usage = .circular)
                t.usedBy entries := by
  have placed : circling.Placed := by
    intro i r atI
    rcases i with _ | _ | i
    · cases atI
      rfl
    · cases atI
      rfl
    · cases atI
  have nav : circling.Navigable := by
    refine ⟨placed, ?_, ?_⟩
    · simp [circling, Assoc.get?]
    · simp [circling, size]
  have unlinked : ∀ r ∈ includers, r.Unlinked := by simp [includers, Record.Unlinked, Assoc.get?]
  have unused : (ofRecords .preferType includers).Unused := by
    intro r member
    obtain ⟨users, clean, _⟩ := forall_unlinked unlinked r member
    exact ⟨users, clean⟩
  obtain ⟨g, standard⟩ : ∃ g, Registry.standard .default [counting.toAnnotation] = .ok g := ⟨_, rfl⟩
  have spares : g.SparesUsers :=
    Registry.sparesUsers_standard (by simpa using counting.sparesUsers) standard
  refine ⟨nav, fun r member => (usageTree_unfolds (g := g) false).1 nav member, g, standard, unused, ?_⟩
  exact (usageTree_unfolds (r := default) false).2 (placed_ofRecords _ _) unused spares

end Store

end SheetDoc
