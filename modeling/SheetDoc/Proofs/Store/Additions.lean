import SheetDoc.Proofs.Store.Index
import SheetDoc.Proofs.Record.Fields

namespace SheetDoc

theorem Kind.ofWord?_eq_some {w : String} {k : Kind} : Kind.ofWord? w = some k ↔ k.word = w := by
  constructor
  · intro means
    unfold Kind.ofWord? at means
    split at means <;> cases means <;> rfl
  · rintro rfl
    exact Kind.ofWord?_word k

/-- Whether a look-up for a name may lead to a record. -/
def Record.bears (name : String) (r : Record) : Bool := r.kind != .unknown && r.name == name

theorem Record.bears_iff {name : String} {r : Record} :
    r.bears name = true ↔ r.kind ≠ .unknown ∧ r.name = name := by
  simp only [bears, Bool.and_eq_true, bne_iff_ne, beq_iff_eq]

namespace Store

/-- A look-up without indexes, in which only the order of the records counts. A kind is given by any
word; where no record of the kind bears the name, the mode decides whether another one will do. -/
def scan? (m : ReferenceMatch) (rs : List Record) (name : String) : Option String → Option Record
  | none => rs.findRev? (·.bears name)
  | some word =>
    match rs.findRev? fun r => r.kind.word == word && r.bears name with
    | some r => some r
    | none => if m = .exactType then none else rs.findRev? (·.bears name)

/-- Records with the indexes that follow on each other. -/
def numbered (start : Nat) (rs : List Record) : List Record :=
  (rs.zipIdx start).map fun (r, index) => { r with uid := index }

theorem add_of_typed {r : Record} (typed : r.Typed) (s : Store) :
    (s.add r).2 = none ∧ (s.add r).1.records = s.records ++ [{ r with uid := (s.size : Int) }] := by
  have stored : ({ r with uid := (s.size : Int) } : Record).Typed := typed
  rw [records_add, stored.settle_eq]
  refine ⟨?_, rfl⟩
  unfold add
  simp only [typed.readPath]
  split
  · rfl
  · cases s.byKey.has (r.kind, r.name) <;> rfl

/-- Typed records are all added, one after another. -/
theorem extend_of_typed {rs : List Record} (typed : ∀ r ∈ rs, r.Typed) (s : Store) :
    (s.extend rs).2 = none ∧ (s.extend rs).1.records = s.records ++ numbered s.size rs := by
  induction rs generalizing s with
  | nil => exact ⟨rfl, (List.append_nil _).symm⟩
  | cons r rest ih =>
    obtain ⟨first, later⟩ := List.forall_mem_cons.mp typed
    obtain ⟨done, records⟩ := add_of_typed first s
    obtain ⟨done', records'⟩ := ih later (s.add r).1
    have next : s.extend (r :: rest) = (s.add r).1.extend rest := eachUntil_cons_of_done done
    rw [next]
    refine ⟨done', ?_⟩
    rw [records', records, size_add, List.append_assoc]
    rfl

variable {s : Store}

/-- A store whose look-ups lead to the last record of what is looked up. -/
structure Ordered (s : Store) : Prop where
  placed : s.Placed
  indexed : s.Indexed
  latest : s.Latest

theorem ordered_empty (m : ReferenceMatch) : Ordered { referenceMatch := m } :=
  ⟨placed_ofRecords m [], indexed_empty m, latest_empty m⟩

theorem Ordered.add (ordered : s.Ordered) {r : Record} (typed : r.Typed) : (s.add r).1.Ordered :=
  ⟨ordered.placed.add r, ordered.indexed.add r, ordered.latest.add ordered.placed typed⟩

theorem Ordered.extend (ordered : s.Ordered) {rs : List Record} (typed : ∀ r ∈ rs, r.Typed) :
    (s.extend rs).1.Ordered :=
  eachUntil_keeps (P := Ordered) (fun r member _ before => before.add (typed r member)) ordered

theorem referenceMatch_add (r : Record) (s : Store) :
    (s.add r).1.referenceMatch = s.referenceMatch := by
  unfold add
  simp only
  split
  · rfl
  · split <;> rfl

theorem referenceMatch_extend (rs : List Record) (s : Store) :
    (s.extend rs).1.referenceMatch = s.referenceMatch :=
  eachUntil_keeps (P := fun s' => s'.referenceMatch = s.referenceMatch)
    (fun r _ s' same => (referenceMatch_add r s').trans same) rfl

/-- An index that leads to a record with a property, and behind which there is none, leads to the
last one. -/
theorem Placed.last (placed : s.Placed) {p : Record → Bool} {listed : Option Nat}
    (sound : ∀ i, listed = some i → ∃ r, s.records[i]? = some r ∧ p r = true)
    (latest : ∀ t ∈ s.records, p t = true → ∃ i : Nat, listed = some i ∧ t.uid ≤ i) :
    (listed.bind fun i => s.records[i]?) = s.records.findRev? p := by
  rw [List.findRev?_eq_find?_reverse]
  cases listed with
  | none =>
    refine (List.find?_eq_none.mpr fun t member holds => ?_).symm
    obtain ⟨i, absent, _⟩ := latest t (List.mem_reverse.mp member) holds
    cases absent
  | some i =>
    obtain ⟨r, atI, holds⟩ := sound i rfl
    obtain ⟨bound, here⟩ := List.getElem?_eq_some_iff.mp atI
    have split : s.records = s.records.take i ++ r :: s.records.drop (i + 1) := by
      rw [← here, List.getElem_cons_drop, List.take_append_drop]
    refine atI.trans (List.find?_eq_some_iff_append.mpr
      ⟨holds, (s.records.drop (i + 1)).reverse, (s.records.take i).reverse, ?_, ?_⟩).symm
    · conv => lhs; rw [split]
      simp
    · -- whatever stands behind `i` has an index past it, so the property does not hold of it
      intro t member
      obtain ⟨n, atN⟩ := List.mem_iff_getElem?.mp (List.mem_reverse.mp member)
      rw [List.getElem?_drop] at atN
      rw [Bool.not_eq_true', Bool.eq_false_iff]
      intro later
      obtain ⟨j, same, notAfter⟩ := latest t (List.mem_of_getElem? atN) later
      cases same
      have index := placed _ t atN
      omega

/-- What stands under a name is the last record that bears it. -/
theorem Ordered.byName (ordered : s.Ordered) (name : String) :
    ((s.byName.get? name).bind fun i => s.records[i]?) = s.records.findRev? (·.bears name) := by
  apply ordered.placed.last
  · intro i listed
    obtain ⟨kind, known, r, atI, named, rfl⟩ := ordered.indexed.byName name i listed
    exact ⟨r, atI, Record.bears_iff.mpr ⟨known, named⟩⟩
  · intro t member bears
    obtain ⟨known, rfl⟩ := Record.bears_iff.mp bears
    exact ordered.latest.exists_byName member known

/-- What stands under a kind and a name is the last record of the kind that bears it. -/
theorem Ordered.byKey (ordered : s.Ordered) (kind : Kind) (name : String) :
    ((s.byKey.get? (kind, name)).bind fun i => s.records[i]?) =
      s.records.findRev? fun r => r.kind.word == kind.word && r.bears name := by
  apply ordered.placed.last
  · intro i listed
    obtain ⟨known, r, atI, named, rfl⟩ := ordered.indexed.byKey kind name i listed
    exact ⟨r, atI, by simp [Record.bears_iff.mpr ⟨known, named⟩]⟩
  · intro t member both
    rw [Bool.and_eq_true, beq_iff_eq] at both
    obtain ⟨known, rfl⟩ := Record.bears_iff.mp both.2
    rw [← Kind.word_injective both.1]
    exact ordered.latest.exists_byKey member known

/-- A look-up by kind takes what stands under kind and name before it asks for the name alone. -/
theorem find?_some_eq (indexed : s.Indexed) (name : String) (kind : Kind) :
    s.find? name (some kind) =
      match (s.byKey.get? (kind, name)).bind fun i => s.records[i]? with
      | some r => some r
      | none => if s.referenceMatch = .exactType then none else s.find? name none := by
  simp only [find?, findUid?]
  cases listed : s.byKey.get? (kind, name) with
  | some i =>
    obtain ⟨_, r, atI, _⟩ := indexed.byKey kind name i listed
    simp only [Option.bind_some, atI]
  | none =>
    simp only [Option.bind_none]
    split <;> rfl

/-- Indexes or none, a look-up leads to the same record. -/
theorem Ordered.findByWord? (ordered : s.Ordered) (name : String) (word : Option String) :
    s.findByWord? name word = scan? s.referenceMatch s.records name word := by
  have byName : s.find? name none = s.records.findRev? (·.bears name) := ordered.byName name
  cases word with
  | none => exact byName
  | some w =>
    simp only [Store.findByWord?, scan?]
    cases means : Kind.ofWord? w with
    | some kind =>
      cases Kind.ofWord?_eq_some.mp means
      simp only [find?_some_eq ordered.indexed, ordered.byKey, byName]
    | none =>
      have nothing : (s.records.findRev? fun r => r.kind.word == w && r.bears name) = none := by
        rw [List.findRev?_eq_find?_reverse, List.find?_eq_none]
        intro r _ both
        rw [Bool.and_eq_true, beq_iff_eq] at both
        rw [Kind.ofWord?_eq_some.mpr both.1] at means
        cases means
      simp only [nothing, byName]

/-- A declaration is found by its kind and name, unless a later one of both is found instead. -/
theorem Ordered.finds (ordered : s.Ordered) {r : Record} (member : r ∈ s.records)
    (known : r.kind ≠ .unknown) :
    ∃ t ∈ s.records, s.findByWord? r.name (some r.kind.word) = some t ∧ t.kind = r.kind ∧
      t.name = r.name ∧ ∀ u ∈ s.records, u.kind = r.kind → u.name = r.name → u.uid ≤ t.uid := by
  obtain ⟨i, listed, _⟩ := ordered.latest.exists_byKey member known
  obtain ⟨_, t, atI, named, kind⟩ := ordered.indexed.byKey _ _ i listed
  refine ⟨t, List.mem_of_getElem? atI, ?_, kind, named, ?_⟩
  · simp only [Store.findByWord?, Kind.ofWord?_word, find?_some_eq ordered.indexed, listed,
      Option.bind_some, atI]
  · intro u inside sameKind sameName
    obtain ⟨j, listed', notAfter⟩ := ordered.latest.exists_byKey inside (sameKind ▸ known)
    rw [sameKind, sameName, listed] at listed'
    cases listed'
    rw [ordered.placed i t atI]
    exact notAfter

end Store

/-- A call that fills a store, with one record or with those of a file. -/
inductive Addition
  | one (r : Record)
  | several (rs : List Record)

namespace Addition

def records : Addition → List Record
  | one r => [r]
  | several rs => rs

def apply : Addition → Store → Store × Option Failure
  | one r => Store.add r
  | several rs => Store.extend rs

theorem apply_eq (call : Addition) (s : Store) : call.apply s = s.extend call.records := by
  cases call with
  | one r =>
    simp only [apply, records, Store.extend, eachUntil]
    split
    · assumption
    · rfl
  | several rs => rfl

/-- To fill a store call by call is to fill it record by record. -/
theorem eachUntil_apply (calls : List Addition) (s : Store) :
    eachUntil apply calls s = s.extend (calls.flatMap records) := by
  induction calls generalizing s with
  | nil => rfl
  | cons call rest ih =>
    rw [List.flatMap_cons, Store.extend, eachUntil_append, eachUntil, apply_eq]
    simp only [ih]
    rfl

end Addition

/-- Whatever calls fill a store, its records stand in the order of the calls with their positions as
their indexes, and every look-up leads where a scan from the last record back leads. So a declaration
is found by its kind and name unless a later one of both is. -/
theorem Store.additions_searched (m : ReferenceMatch) (calls : List Addition)
    (typed : ∀ call ∈ calls, ∀ r ∈ call.records, r.Typed) :
    ∃ s : Store, eachUntil Addition.apply calls { referenceMatch := m } = (s, none) ∧
      s.records = numbered 0 (calls.flatMap Addition.records) ∧ s.Placed ∧
      (∀ name word, s.findByWord? name word = scan? m s.records name word) ∧
      ∀ r ∈ s.records, r.kind ≠ .unknown →
        ∃ t ∈ s.records, s.findByWord? r.name (some r.kind.word) = some t ∧ t.kind = r.kind ∧
          t.name = r.name ∧ ∀ u ∈ s.records, u.kind = r.kind → u.name = r.name → u.uid ≤ t.uid := by
  have typed : ∀ r ∈ calls.flatMap Addition.records, r.Typed := List.forall_mem_flatMap.mpr typed
  have ordered := (ordered_empty m).extend typed
  have mode := referenceMatch_extend (calls.flatMap Addition.records) { referenceMatch := m }
  obtain ⟨done, records⟩ := extend_of_typed typed { referenceMatch := m }
  refine ⟨_, ?_, records, ordered.placed, ?_, fun r => ordered.finds⟩
  · rw [Addition.eachUntil_apply, ← done]
  · intro name word
    rw [ordered.findByWord?, mode]

/-- A mixin whose name a function shares is declared again, before a construct of unknown kind. -/
def resizing : List Addition :=
  [.one { context := { kind := .mixin, name := "size" }, file := ⟨"a.scss", "a.scss"⟩ },
   .several
    [{ context := { kind := .mixin, name := "size" }, file := ⟨"b.scss", "b.scss"⟩ },
     { context := { kind := .function, name := "size" }, file := ⟨"b.scss", "b.scss"⟩ },
     { context := { kind := .unknown, name := "size" }, file := ⟨"b.scss", "b.scss"⟩ }]]

theorem Store.additions_searched_resizing :
    (∀ call ∈ resizing, ∀ r ∈ call.records, r.Typed) ∧
      ∃ s : Store, eachUntil Addition.apply resizing { referenceMatch := .exactType } = (s, none) ∧
        s.records.map (·.uid) = [0, 1, 2, 3] ∧
        (s.findByWord? "size" (some "mixin")).map (·.uid) = some 1 ∧
        (s.findByWord? "size" (some "placeholder")).isNone ∧
        (s.findByWord? "size" none).map (·.uid) = some 2 := by
  have typed : ∀ call ∈ resizing, ∀ r ∈ call.records, r.Typed := by
    simp [resizing, Addition.records, Record.Typed]
  obtain ⟨s, done, records, _, searched, _⟩ := Store.additions_searched .exactType resizing typed
  refine ⟨typed, s, done, ?_, ?_, ?_, ?_⟩
  · rw [records]
    rfl
  all_goals
    rw [searched, records]
    decide +kernel

end SheetDoc
