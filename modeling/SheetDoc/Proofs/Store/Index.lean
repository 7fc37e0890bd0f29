import SheetDoc.Proofs.Record.Typed
import SheetDoc.Proofs.Store.Layout

namespace SheetDoc.Store

/-- At an index stands a record of the name, and of a kind that can be looked up. -/
def Bears (s : Store) (i : Nat) (name : String) (kind : Kind) : Prop :=
  kind ≠ .unknown ∧ ∃ r, s.records[i]? = some r ∧ r.name = name ∧ r.kind = kind

/-- Every look-up leads to a record of what is looked up. -/
structure Indexed (s : Store) : Prop where
  byKey : ∀ kind name i, s.byKey.get? (kind, name) = some i → s.Bears i name kind
  byName : ∀ name i, s.byName.get? name = some i → ∃ kind, s.Bears i name kind

variable {s : Store}

theorem indexed_empty (m : ReferenceMatch) : Indexed { referenceMatch := m } :=
  ⟨nofun, nofun⟩

theorem Bears.add {i : Nat} {name : String} {kind : Kind} (bears : s.Bears i name kind) (r : Record) :
    (s.add r).1.Bears i name kind := by
  obtain ⟨known, t, atI, named⟩ := bears
  obtain ⟨bound, _⟩ := List.getElem?_eq_some_iff.mp atI
  refine ⟨known, t, ?_, named⟩
  rw [records_add, List.getElem?_append_left bound]
  exact atI

/-- What stands at an index is what the index bears. -/
theorem Bears.here {i : Nat} {name : String} {kind : Kind} (bears : s.Bears i name kind) {t : Record}
    (atI : s.records[i]? = some t) : t.name = name ∧ t.kind = kind ∧ t.kind ≠ .unknown := by
  obtain ⟨known, r, atR, rfl, rfl⟩ := bears
  cases Option.some.inj (atI.symm.trans atR)
  exact ⟨rfl, rfl, known⟩

theorem bears_added {r : Record} (known : r.kind ≠ .unknown) :
    (s.add r).1.Bears s.size r.name r.kind := by
  refine ⟨known, ({ r with uid := (s.size : Int) } : Record).settle .uid, ?_, rfl, rfl⟩
  rw [records_add]
  exact List.getElem?_concat_length

/-- An addition leaves the look-ups alone, or makes those of the record's name lead to it. The last it
does for all typed records of a known kind. -/
theorem lookups_add (r : Record) (s : Store) :
    ((r.Typed → r.kind = .unknown) ∧ (s.add r).1.byKey = s.byKey ∧ (s.add r).1.byName = s.byName) ∨
      r.kind ≠ .unknown ∧ (s.add r).1.byKey = s.byKey.set (r.kind, r.name) s.size ∧
        (s.add r).1.byName = s.byName.set r.name s.size := by
  unfold add
  simp only
  split
  · rename_i unknown
    exact Or.inl ⟨fun _ => unknown, rfl, rfl⟩
  · rename_i known
    split
    · rename_i faulty
      refine Or.inl ⟨fun typed => ?_, rfl, rfl⟩
      rw [typed.readPath] at faulty
      cases faulty
    · exact Or.inr ⟨known, rfl, rfl⟩

theorem Indexed.add (indexed : s.Indexed) (r : Record) : (s.add r).1.Indexed := by
  rcases lookups_add r s with ⟨_, byKey, byName⟩ | ⟨known, byKey, byName⟩
  · constructor
    · intro kind name i found
      rw [byKey] at found
      exact (indexed.byKey kind name i found).add r
    · intro name i found
      rw [byName] at found
      obtain ⟨kind, bears⟩ := indexed.byName name i found
      exact ⟨kind, bears.add r⟩
  · have here := bears_added (s := s) known
    constructor
    · intro kind name i found
      rw [byKey, Assoc.get?_set] at found
      split at found
      · rename_i same
        obtain ⟨rfl, rfl⟩ := Prod.mk.inj (eq_of_beq same)
        cases found
        exact here
      · exact (indexed.byKey kind name i found).add r
    · intro name i found
      rw [byName, Assoc.get?_set] at found
      split at found
      · rename_i same
        cases eq_of_beq same
        cases found
        exact ⟨r.kind, here⟩
      · obtain ⟨kind, bears⟩ := indexed.byName name i found
        exact ⟨kind, bears.add r⟩

/-- A look-up finds by kind and name, or else by the name where that is enough. -/
theorem find?_cases {name : String} {kind : Kind} {t : Record} (found : s.find? name (some kind) = some t) :
    ∃ i : Nat, s.records[i]? = some t ∧ (s.byKey.get? (kind, name) = some i ∨
      s.byKey.get? (kind, name) = none ∧ s.referenceMatch = .preferType ∧
        s.byName.get? name = some i) := by
  obtain ⟨i, atName, atI⟩ := Option.bind_eq_some_iff.mp found
  refine ⟨i, atI, ?_⟩
  simp only [findUid?] at atName
  cases listed : s.byKey.get? (kind, name) with
  | some j =>
    rw [listed] at atName
    exact Or.inl atName
  | none =>
    rw [listed] at atName
    refine Or.inr ⟨rfl, ?_⟩
    cases mode : s.referenceMatch with
    | exactType =>
      rw [mode] at atName
      cases atName
    | preferType =>
      rw [mode] at atName
      exact ⟨rfl, atName⟩

/-- What a look-up finds has the name it asks for and a known kind; where only records of the kind
it asks for count, it has that kind. -/
theorem Indexed.find? (indexed : s.Indexed) {name : String} {kind : Option Kind} {t : Record}
    (found : s.find? name kind = some t) :
    t.name = name ∧ t.kind ≠ .unknown ∧
      (s.referenceMatch = .exactType → ∀ k, kind = some k → t.kind = k) := by
  have byName : ∀ i, s.records[i]? = some t → s.byName.get? name = some i →
      t.name = name ∧ t.kind ≠ .unknown := by
    intro i atI listed
    obtain ⟨kind, bears⟩ := indexed.byName name i listed
    obtain ⟨named, _, known⟩ := bears.here atI
    exact ⟨named, known⟩
  cases kind with
  | none =>
    obtain ⟨i, listed, atI⟩ := Option.bind_eq_some_iff.mp found
    obtain ⟨named, known⟩ := byName i atI listed
    exact ⟨named, known, nofun⟩
  | some k =>
    obtain ⟨i, atI, listed | ⟨_, lenient, listed⟩⟩ := find?_cases found
    · obtain ⟨named, kinded, known⟩ := (indexed.byKey k name i listed).here atI
      exact ⟨named, known, fun _ _ same => Option.some.inj same ▸ kinded⟩
    · obtain ⟨named, known⟩ := byName i atI listed
      refine ⟨named, known, fun exact => ?_⟩
      rw [lenient] at exact
      cases exact

/-- A record that a name leads to is also found by its kind and the name. -/
def Consistent (s : Store) : Prop := ∀ name i, s.byName.get? name = some i →
  ∃ r, s.records[i]? = some r ∧ s.byKey.get? (r.kind, name) = some i

theorem Consistent.add (consistent : s.Consistent) (r : Record) : (s.add r).1.Consistent := by
  intro name i found
  rcases lookups_add r s with ⟨_, byKey, byName⟩ | ⟨known, byKey, byName⟩
  · rw [byName] at found
    obtain ⟨t, atI, listed⟩ := consistent name i found
    refine ⟨t, ?_, by rw [byKey]; exact listed⟩
    rw [records_add, List.getElem?_append_left (List.getElem?_eq_some_iff.mp atI).1]
    exact atI
  · rw [byName, Assoc.get?_set] at found
    rw [byKey]
    split at found
    · rename_i same
      cases eq_of_beq same
      cases found
      obtain ⟨_, t, atI, _, kind⟩ := bears_added (s := s) known
      exact ⟨t, atI, by rw [kind, Assoc.get?_set, if_pos (beq_self_eq_true _)]⟩
    · rename_i other
      obtain ⟨t, atI, listed⟩ := consistent name i found
      refine ⟨t, ?_, ?_⟩
      · rw [records_add, List.getElem?_append_left (List.getElem?_eq_some_iff.mp atI).1]
        exact atI
      · rw [Assoc.get?_set, if_neg, listed]
        intro same
        exact other (beq_of_eq (congrArg Prod.snd (eq_of_beq same)))

/-- What a name leads to is found again by its kind. -/
theorem Consistent.find? (consistent : s.Consistent) {name : String} {t : Record}
    (found : s.find? name none = some t) : s.find? name (some t.kind) = some t := by
  obtain ⟨i, atName, atI⟩ := Option.bind_eq_some_iff.mp found
  obtain ⟨t', atI', listed⟩ := consistent name i atName
  cases Option.some.inj (atI.symm.trans atI')
  simp only [Store.find?, findUid?, listed, Option.bind_some, atI]

/-- Every record of a known kind is listed under its key, or a later one is. -/
def Covers {κ : Type} [BEq κ] (s : Store) (m : Assoc κ Nat) (key : Record → κ) : Prop :=
  ∀ t ∈ s.records, t.kind ≠ .unknown → ∃ i : Nat, m.get? (key t) = some i ∧ t.uid ≤ i

/-- The last record of a name is the one that look-ups lead to. -/
structure Latest (s : Store) : Prop where
  byKey : s.Covers s.byKey fun t => (t.kind, t.name)
  byName : s.Covers s.byName (·.name)

theorem latest_empty (m : ReferenceMatch) : Latest { referenceMatch := m } :=
  ⟨List.forall_mem_nil _, List.forall_mem_nil _⟩

theorem mem_records_add {r t : Record} (member : t ∈ (s.add r).1.records) :
    t ∈ s.records ∨ t.context = r.context ∧ t.uid = s.size := by
  rw [records_add] at member
  refine (List.mem_append.mp member).imp_right fun new => ?_
  rw [List.mem_singleton.mp new]
  exact ⟨rfl, rfl⟩

section

variable {κ : Type} [BEq κ] {m : Assoc κ Nat} {key : Record → κ} {r : Record}

/-- A record of unknown kind need not be listed. -/
theorem Covers.add_unknown (covers : s.Covers m key) (unknown : r.kind = .unknown) :
    (s.add r).1.Covers m key := by
  intro t member known
  rcases mem_records_add member with before | ⟨context, _⟩
  · exact covers t before known
  · rw [Record.kind, context] at known
    exact absurd unknown known

/-- A record that is listed when it is added comes after all others. -/
theorem Covers.add_known [LawfulBEq κ] (covers : s.Covers m key) (placed : s.Placed)
    (same : ∀ t : Record, t.context = r.context → key t = key r) :
    (s.add r).1.Covers (m.set (key r) s.size) key := by
  intro t member known
  rw [Assoc.get?_set]
  split
  · refine ⟨s.size, rfl, ?_⟩
    rcases mem_records_add member with before | ⟨_, last⟩
    · have earlier := placed.uid_lt before
      omega
    · omega
  · rename_i other
    rcases mem_records_add member with before | ⟨context, _⟩
    · exact covers t before known
    · exact absurd (beq_of_eq (same t context).symm) other

end

theorem Latest.add (latest : s.Latest) (placed : s.Placed) {r : Record} (typed : r.Typed) :
    (s.add r).1.Latest := by
  rcases lookups_add r s with ⟨unknown, byKey, byName⟩ | ⟨_, byKey, byName⟩
  · constructor
    · rw [byKey]
      exact latest.byKey.add_unknown (unknown typed)
    · rw [byName]
      exact latest.byName.add_unknown (unknown typed)
  · constructor
    · rw [byKey]
      exact latest.byKey.add_known placed fun t context => by simp only [Record.kind, Record.name, context]
    · rw [byName]
      exact latest.byName.add_known placed fun t context => by simp only [Record.name, context]

theorem Latest.exists_byKey (latest : s.Latest) {t : Record} (member : t ∈ s.records)
    (known : t.kind ≠ .unknown) : ∃ i : Nat, s.byKey.get? (t.kind, t.name) = some i ∧ t.uid ≤ i :=
  latest.byKey t member known

theorem Latest.exists_byName (latest : s.Latest) {t : Record} (member : t ∈ s.records)
    (known : t.kind ≠ .unknown) : ∃ i : Nat, s.byName.get? t.name = some i ∧ t.uid ≤ i :=
  latest.byName t member known

/-- The last record of a name is the last of its kind and name. -/
theorem Latest.consistent (latest : s.Latest) (indexed : s.Indexed) (placed : s.Placed) :
    s.Consistent := by
  intro name i found
  obtain ⟨kind, known, r, atI, rfl, rfl⟩ := indexed.byName name i found
  obtain ⟨j, listed, notBefore⟩ := latest.exists_byKey (List.mem_of_getElem? atI) known
  obtain ⟨_, t, atJ, named, kind⟩ := indexed.byKey _ _ j listed
  obtain ⟨i', found', notAfter⟩ := latest.exists_byName (List.mem_of_getElem? atJ) (kind ▸ known)
  cases found.symm.trans (named ▸ found')
  rw [placed i r atI] at notBefore
  rw [placed j t atJ] at notAfter
  have same : j = i := by omega
  exact ⟨r, atI, same ▸ listed⟩

theorem consistent_ofRecords (m : ReferenceMatch) (rs : List Record) :
    (ofRecords m rs).Consistent :=
  ofRecords_induction nofun fun _ r _ consistent => consistent.add r

theorem indexed_ofRecords (m : ReferenceMatch) (rs : List Record) : (ofRecords m rs).Indexed :=
  ofRecords_induction (indexed_empty m) fun _ r _ indexed => indexed.add r

end SheetDoc.Store
