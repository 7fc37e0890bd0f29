import SheetDoc.Proofs.Extraction.Detached
import SheetDoc.Proofs.Linking.Problems
import SheetDoc.Proofs.Store.Index

namespace SheetDoc

namespace Store

/-- The reference is that of a record of the store, and of a known kind. -/
def Knows (s : Store) (u : Reference) : Prop :=
  0 ≤ u.uid ∧ u.uid < s.size ∧ s.Bears u.uid.toNat u.name u.kind

/-- Every reference that a record holds is that of a record of the store. With a requirement or a
pointer it has the name that is asked for, and the kind where only records of that kind count. -/
structure Refers (s : Store) (r : Record) : Prop where
  aliased : ∀ u ∈ r.aliased, s.Knows u
  usedBy : ∀ u, .user u ∈ r.usedBy → s.Knows u
  requires : ∀ e ∈ r.requires, ∀ u, e.item = some u →
    s.Knows u ∧ u.name = e.name ∧ (s.referenceMatch = .exactType → u.kind = e.kind)
  sees : ∀ e ∈ r.sees, ∀ u, e.item = some u →
    s.Knows u ∧ u.name = e.name ∧ (s.referenceMatch = .exactType → e.kind = some u.kind)

/-- All records hold values of the types of their fields, and no reference dangles. -/
def Referential (s : Store) : Prop := ∀ r ∈ s.records, r.Typed ∧ s.Refers r

variable {s s' : Store} {r t : Record} {u : Reference}

theorem Placed.knows (placed : s.Placed) (member : r ∈ s.records) (known : r.kind ≠ .unknown) :
    s.Knows r.reference :=
  ⟨placed.uid_nonneg member, placed.uid_lt member, known, r, placed.records_uid member, rfl, rfl⟩

/-- A reference holds as long as records keep their places, kinds and names. -/
theorem Evolves.knows (e : s.Evolves Record.Counterpart s') (knows : s.Knows u) : s'.Knows u := by
  obtain ⟨nonneg, bound, known, r, atUid, name, kind⟩ := knows
  obtain ⟨r', atUid', same⟩ := e.getElem? atUid
  refine ⟨nonneg, by simpa only [size, e.length] using bound, known, r', atUid', ?_, ?_⟩
  · rw [← name, same.name]
  · rw [← kind, same.kind]

/-- The record that a look-up leads to can be referred to. -/
theorem Indexed.knows_found (indexed : s.Indexed) (placed : s.Placed) {name : String}
    {kind : Option Kind} (found : s.find? name kind = some t) :
    s.Knows t.reference ∧ t.reference.name = name ∧
      (s.referenceMatch = .exactType → ∀ k, kind = some k → t.reference.kind = k) := by
  obtain ⟨named, known, exact⟩ := indexed.find? found
  exact ⟨placed.knows (find?_mem found) known, named, exact⟩

/-- What answers to a requirement can be referred to. -/
theorem Indexed.knows_answer (indexed : s.Indexed) (placed : s.Placed) {e : Require}
    (blank : e.item = none) (item : (s.answer e).item = some u) :
    s.Knows u ∧ u.name = (s.answer e).name ∧
      (s.referenceMatch = .exactType → u.kind = (s.answer e).kind) := by
  cases found : s.find? e.name (some e.kind) with
  | none =>
    rw [answer_of_none found, blank] at item
    cases item
  | some t =>
    rw [answer_of_some found] at item ⊢
    cases item
    obtain ⟨knows, named, exact⟩ := indexed.knows_found placed found
    exact ⟨knows, named, fun mode => exact mode e.kind rfl⟩

/-- What a pointer leads to can be referred to. -/
theorem Indexed.knows_point (indexed : s.Indexed) (placed : s.Placed) {e : See}
    (blank : e.item = none) (item : (s.point e).item = some u) :
    s.Knows u ∧ u.name = (s.point e).name ∧
      (s.referenceMatch = .exactType → (s.point e).kind = some u.kind) := by
  cases found : s.find? e.name e.kind with
  | none =>
    rw [point_of_none found, blank] at item
    cases item
  | some t =>
    rw [point_of_some found] at item ⊢
    cases item
    obtain ⟨knows, named, exact⟩ := indexed.knows_found placed found
    refine ⟨knows, named, fun mode => ?_⟩
    cases kind : e.kind with
    | none => rfl
    | some k => exact congrArg some (exact mode k kind).symm

/-- A record that is not linked holds no reference. -/
theorem refers_of_detached (s : Store) (detached : r.Detached) : s.Refers r where
  aliased u listed := by
    rw [detached.aliased] at listed
    cases listed
  usedBy u user := by
    rw [detached.usedBy] at user
    cases user
  requires e listed u item := by
    rw [detached.requires e listed] at item
    cases item
  sees e listed u item := by
    rw [detached.sees e listed] at item
    cases item

/-- Other fields of a record do not matter. -/
theorem Evolves.refers {r' : Record} (e : s.Evolves Record.Counterpart s') (refers : s.Refers r)
    (aliased : r'.aliased = r.aliased) (usedBy : r'.usedBy = r.usedBy)
    (requires : r'.requires = r.requires) (sees : r'.sees = r.sees) : s'.Refers r' where
  aliased u listed := e.knows (refers.aliased u (aliased ▸ listed))
  usedBy u user := e.knows (refers.usedBy u (usedBy ▸ user))
  requires entry listed u item := by
    obtain ⟨knows, named, exact⟩ := refers.requires entry (requires ▸ listed) u item
    exact ⟨e.knows knows, named, fun mode => exact (e.referenceMatch ▸ mode)⟩
  sees entry listed u item := by
    obtain ⟨knows, named, exact⟩ := refers.sees entry (sees ▸ listed) u item
    exact ⟨e.knows knows, named, fun mode => exact (e.referenceMatch ▸ mode)⟩

end Store

namespace Linking

variable {l l' : Linking} {r t t' : Record}

theorem forall_mem_change {P : Record → Prop} (each : ∀ r ∈ l.store.records, P r) {uid : Int}
    {f : Record → Except Misuse Record} (keeps : ∀ r r', P r → f r = .ok r' → P r') :
    ∀ r ∈ (change uid f l).1.store.records, P r := by
  unfold change
  cases atUid : l.store.at? uid with
  | none => exact each
  | some r =>
    cases done : f r with
    | error fault => simpa only [Option.map_some, done] using each
    | ok r' =>
      simp only [Option.map_some, done]
      exact forall_mem_modify each fun _ _ => keeps r r' (each r (Store.at?_mem atUid)) done

theorem mem_aliased (done : addAliased r t = .ok t') {u : Reference} (member : u ∈ t'.aliased) :
    u ∈ t.aliased ∨ u = r.reference := by
  obtain ⟨reference, refers, done⟩ := bind_eq_ok.mp done
  obtain ⟨_, _, refers⟩ := bind_eq_ok.mp refers
  obtain ⟨_, _, refers⟩ := bind_eq_ok.mp refers
  cases refers
  obtain ⟨inside, _, done⟩ := bind_eq_ok.mp done
  split at done
  · cases done
    exact Or.inl member
  · rcases Record.adding_ok done with rfl | ⟨stray, rfl⟩
    · simpa using member
    · exact Or.inl member

theorem store_problem (r : Record) (message : String) (l : Linking) :
    (problem r message l).1.store = l.store := by
  unfold problem
  split <;> rfl

theorem store_notice (r : Record) (message : String) (l : Linking) :
    (notice r message l).1.store = l.store := by
  unfold notice
  split <;> rfl

/-- Every back-link is the reference of one of the records. -/
def BackLinks (rs : List Record) (l : Linking) : Prop :=
  ∀ t ∈ l.store.records, ∀ u ∈ t.aliased, ∃ r ∈ rs, r.reference = u

variable {rs : List Record}

theorem BackLinks.linkAlias (before : BackLinks rs l) (inside : r ∈ rs) (name : String) :
    BackLinks rs (linkAlias r name l).1 := by
  unfold Linking.linkAlias
  split
  · rw [BackLinks, store_problem]
    exact before
  · split
    · rw [BackLinks, store_notice]
      exact before
    · refine forall_mem_change before fun t t' known done u listed => ?_
      rcases mem_aliased done listed with old | new
      · exact known u old
      · exact ⟨r, inside, new.symm⟩

theorem BackLinks.linkAliases (before : BackLinks rs l) : BackLinks rs (linkAliases rs l).1 := by
  refine eachUntil_keeps (fun r inside l before => ?_) before
  have each : BackLinks rs (eachUntil (Linking.linkAlias r) r.aliases l).1 :=
    eachUntil_keeps (fun name _ _ before => before.linkAlias inside name) before
  unfold linkRecordAliases
  split
  · split
    · exact before
    · exact each
  · exact each

end Linking

namespace Store

variable {s : Store} {c : Config} {strict : Bool} {aliased required resolved : Linking}

section

variable (detached : ∀ r ∈ s.records, r.Detached)

include detached

theorem sound_of_detached : s.Sound := by
  refine fun r member => ⟨(detached r member).typed, fun u listed => ?_⟩
  rw [(detached r member).usedBy] at listed
  cases listed

theorem unused_of_detached : s.Unused :=
  fun r member => ⟨(detached r member).usedBy, (detached r member).typed.get? _⟩

theorem ends_of_detached (placed : s.Placed) : Linking.Ends (s.link (.builtin c) strict).2 :=
  link_total placed (sound_of_detached detached)
    (Linking.resolvesPointers_builtin c).resolvesTyped

/-- Back-links are references of known records. -/
theorem LinkedBy.aliased_origin (linked : s.LinkedBy (.builtin c) aliased required resolved)
    (placed : s.Placed) {t : Record} (member : t ∈ resolved.store.records) {u : Reference}
    (listed : u ∈ t.aliased) : ∃ r ∈ s.known, r.reference = u := by
  have start : Linking.BackLinks s.known { store := s } := by
    intro t inside u listed
    rw [(detached t inside).aliased] at listed
    cases listed
  have origin := start.linkAliases
  rw [linked.aliases] at origin
  have pointers := linked.pointerPhase placed (Linking.resolvesPointers_builtin c)
  obtain ⟨q, atQ, _, rfl⟩ := pointers.store.exists_before member
  obtain ⟨a, atA, _, _, _, rfl⟩ := (linked.requirePhase placed).store.exists_before atQ
  exact origin a atA u listed

end

/-- Linking leaves no reference that dangles. -/
theorem link_referential (placed : s.Placed) (indexed : s.Indexed)
    (detached : ∀ r ∈ s.records, r.Detached) :
    (s.link (.builtin c) strict).1.store.Referential := by
  have ends : Linking.Ends (s.link (.builtin c) strict).2 := ends_of_detached detached placed
  have sound := sound_of_detached detached
  have unused := unused_of_detached detached
  have settled := link_settled placed unused ends
  obtain ⟨aliased, required, resolved, linked, store, _⟩ := link_ends ends
  have evolves := settled.store
  have placed' := settled.placed
  have typed : resolved.Typed := by
    obtain ⟨l, done, typed⟩ := phases_total placed sound
      (Linking.resolvesPointers_builtin c).resolvesTyped
    cases done.symm.trans linked.phases
    exact typed
  intro r' after
  obtain ⟨r, inside, same⟩ := evolves.exists_before after
  have after' : r' ∈ resolved.store.records := store ▸ after
  refine ⟨typed r' after', ?_, ?_, ?_, ?_⟩
  · intro u listed
    obtain ⟨t, known, rfl⟩ := linked.aliased_origin detached placed after' listed
    exact evolves.knows (placed.knows (mem_records_of_known known) (kind_ne_of_known known))
  · intro u user
    obtain ⟨t, known, rfl, _⟩ :=
      settled.origin (fun r member => (detached r member).requires) after user
    exact placed'.knows (mem_records_of_known known) (kind_ne_of_known known)
  · intro e listed u item
    rw [linked.requires_eq placed (unused.navigable placed) inside after' same.2] at listed
    split at listed
    · rw [(detached r inside).requires e listed] at item
      cases item
    · obtain ⟨e₀, kept, rfl⟩ := List.mem_map.mp listed
      have blank := (detached r inside).requires e₀ (List.mem_of_mem_filter kept)
      obtain ⟨knows, named, exact⟩ := indexed.knows_answer placed blank item
      exact ⟨evolves.knows knows, named, fun mode => exact (evolves.referenceMatch ▸ mode)⟩
  · intro e listed u item
    rw [linked.sees_eq placed sound inside after' same.2] at listed
    split at listed
    · rw [(detached r inside).sees e listed] at item
      cases item
    · obtain ⟨e₀, member, rfl⟩ := List.mem_map.mp listed
      have blank := (detached r inside).sees e₀ member
      obtain ⟨knows, named, exact⟩ := indexed.knows_point placed blank item
      exact ⟨evolves.knows knows, named, fun mode => exact (evolves.referenceMatch ▸ mode)⟩

end Store

end SheetDoc
