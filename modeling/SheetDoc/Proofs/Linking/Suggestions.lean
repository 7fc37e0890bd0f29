import SheetDoc.Proofs.Linking.Again
import SheetDoc.Proofs.Linking.References

namespace SheetDoc

/-- What leads a record to itself is cut. -/
theorem Linking.linkTarget_self (r : Record) (l : Linking) :
    linkTarget r r l = andThen (change r.uid addCircular l)
      (notice r ("Usage cycle between `" ++ r.name ++ "` and `" ++ r.name ++ "`")) := by
  rw [linkTarget, Store.reaches, Store.search, if_pos rfl]

namespace Store

/-- The look-up of a requirement that asks for another kind falls back to the record itself: no known
record is of that kind and the name, and none of the name comes later. -/
def FallsBack (s : Store) (r : Record) (e : Require) : Prop :=
  s.referenceMatch = .preferType ∧ e.name = r.name ∧
    ∀ t ∈ s.known, t.name = e.name → t.kind ≠ e.kind ∧ t.uid ≤ r.uid

/-- No record depends on itself by the word of its code alone, unless a look-up falls back to it. -/
structure Outward (s : Store) : Prop where
  /-- What the code suggests is linked to the record itself exactly where the look-up falls back. -/
  suggested : ∀ r ∈ s.records, ∀ e ∈ r.requires, e.autofill = true → ∀ u, e.item = some u →
    (u.uid = r.uid ↔ s.FallsBack r e)
  /-- A record for which neither its comment nor a poster declares a requirement has its marks of cuts
  from others, where no look-up falls back. -/
  marks : ∀ r ∈ s.records, r.has "require" = false → (∀ e ∈ r.requires, ¬s.FallsBack r e) →
    r.usedBy.count .circular = ((s.known.filter (·.uid ≠ r.uid)).map (s.cuts · r)).sum

variable {s s' : Store} {r r' t t' : Record} {e : Require}

/-- What asks for another construct leads to the record itself exactly where it falls back. -/
theorem Latest.uid_eq_iff (latest : s.Latest) (indexed : s.Indexed) (placed : s.Placed)
    (known : r ∈ s.known) (other : e.key ≠ (r.kind, r.name))
    (found : s.find? e.name (some e.kind) = some t) : t.uid = r.uid ↔ s.FallsBack r e := by
  obtain ⟨member, kind⟩ := mem_known_iff.mp known
  obtain ⟨i, atI, listed | ⟨missing, lenient, listed⟩⟩ := find?_cases found
  · -- A record of the kind and the name answers: it is another one, and nothing falls back.
    obtain ⟨named, kinded, kind'⟩ := (indexed.byKey _ _ i listed).here atI
    refine iff_of_false (fun same => ?_) fun ⟨_, _, others⟩ => ?_
    · cases placed.eq_of_uid_eq (List.mem_of_getElem? atI) member same
      exact other (by rw [Require.key, named, kinded])
    · exact (others t (mem_known_iff.mpr ⟨List.mem_of_getElem? atI, kind'⟩) named).1 kinded
  · obtain ⟨_, bears⟩ := indexed.byName _ i listed
    obtain ⟨named, _, kind'⟩ := bears.here atI
    have inside := List.mem_of_getElem? atI
    have last := placed i t atI
    constructor
    · intro same
      cases placed.eq_of_uid_eq inside member same
      refine ⟨lenient, named.symm, fun t' known' named' => ⟨fun kinded => ?_, ?_⟩⟩
      · obtain ⟨j, listed', _⟩ := latest.exists_byKey (mem_records_of_known known') (kind_ne_of_known known')
        rw [named', kinded, missing] at listed'
        cases listed'
      · obtain ⟨j, listed', notAfter⟩ :=
          latest.exists_byName (mem_records_of_known known') (kind_ne_of_known known')
        rw [named', listed] at listed'
        cases listed'
        omega
    · rintro ⟨_, own, others⟩
      have notAfter := (others t (mem_known_iff.mpr ⟨inside, kind'⟩) named).2
      obtain ⟨j, listed', notBefore⟩ := latest.exists_byName member kind
      rw [← own, listed] at listed'
      cases listed'
      omega

theorem Evolves.symm {rel : Record → Record → Prop} (symmetric : ∀ r r', rel r r' → rel r' r)
    (e : s.Evolves rel s') : s'.Evolves rel s :=
  ⟨e.length.symm, fun i r r' before after => symmetric r' r (e.records i r' r after before),
    e.referenceMatch.symm, e.groupDescriptions.symm, e.byKey.symm, e.byName.symm⟩

theorem FallsBack.evolves (falls : s.FallsBack r e) (evolves : s.Evolves Record.Counterpart s')
    (same : r.Counterpart r') : s'.FallsBack r' e := by
  obtain ⟨mode, named, others⟩ := falls
  refine ⟨evolves.referenceMatch.trans mode, named.trans same.name.symm, fun t' known' named' => ?_⟩
  obtain ⟨member', kind'⟩ := mem_known_iff.mp known'
  obtain ⟨t, member, alike⟩ := evolves.exists_before member'
  rw [alike.kind] at kind' ⊢
  rw [alike.name] at named'
  rw [alike.2, same.2]
  exact others t (mem_known_iff.mpr ⟨member, kind'⟩) named'

/-- Whether a look-up falls back depends on the places, kinds and names of the records. -/
theorem Evolves.fallsBack_iff (evolves : s.Evolves Record.Counterpart s') (same : r.Counterpart r') :
    s'.FallsBack r' e ↔ s.FallsBack r e := by
  have symmetric : ∀ r r' : Record, r.Counterpart r' → r'.Counterpart r :=
    fun _ _ same => ⟨same.1.symm, same.2.symm⟩
  exact ⟨fun falls => falls.evolves (evolves.symm symmetric) (symmetric r r' same),
    fun falls => falls.evolves evolves same⟩

theorem cuts_eq_zero (apart : ∀ e ∈ r.requires, e.item ≠ some t.reference) : s.cuts r t = 0 := by
  refine List.countP_eq_zero.mpr fun e member => ?_
  simp [apart e member]

/-- What counts for nothing can be left out of a sum. -/
theorem sum_map_filter {rs : List Record} {p : Record → Bool} {f : Record → Nat}
    (void : ∀ r ∈ rs, p r = false → f r = 0) : ((rs.filter p).map f).sum = (rs.map f).sum := by
  induction rs with
  | nil => rfl
  | cons r rest ih =>
    obtain ⟨first, later⟩ := List.forall_mem_cons.mp void
    rw [List.map_cons, List.sum_cons, List.filter_cons]
    by_cases counts : p r = true
    · rw [if_pos counts, List.map_cons, List.sum_cons, ih later]
    · rw [if_neg counts, ih later, first (Bool.eq_false_iff.mpr counts), Nat.zero_add]

/-- A record that does not require itself has its marks of cuts from others. -/
theorem Reciprocal.marks_others (reciprocal : s.Reciprocal) (placed : s.Placed)
    (member : r ∈ s.records) (apart : ∀ e ∈ r.requires, e.item ≠ some r.reference) :
    r.usedBy.count .circular = ((s.known.filter (·.uid ≠ r.uid)).map (s.cuts · r)).sum := by
  rw [reciprocal.marks r member, sum_map_filter]
  intro t known same
  cases placed.eq_of_uid_eq (mem_records_of_known known) member (by simpa using same)
  exact cuts_eq_zero apart

/-- A requirement with an item, as it was before it was linked. -/
theorem LinkedIn.exists_require (linked : s.LinkedIn r r') (blank : ∀ e ∈ r.requires, e.item = none)
    {u : Reference} (member : e ∈ r'.requires) (item : e.item = some u) :
    r.kind ≠ .unknown ∧ ∃ e₀ ∈ r.requires, ∃ t,
      s.find? e₀.name (some e₀.kind) = some t ∧ t.reference = u ∧ e = { e₀ with item := some u } := by
  have requires : r'.requires = if r.kind = .unknown then r.requires else s.linkedRequires r := by
    obtain ⟨_, _, rfl⟩ := linked
    rfl
  rw [requires] at member
  by_cases unknown : r.kind = .unknown
  · rw [if_pos unknown] at member
    rw [blank e member] at item
    cases item
  · rw [if_neg unknown] at member
    obtain ⟨e₀, kept, rfl⟩ := List.mem_map.mp member
    have inside := List.mem_of_mem_filter kept
    obtain ⟨t, found, rfl⟩ := (answer_item_iff (blank e₀ inside)).mp item
    exact ⟨unknown, e₀, inside, t, found, rfl, answer_of_some found⟩

section

variable {c : Config} {strict : Bool}

/-- Linking leads the code of a record to the record itself only where a look-up falls back. -/
theorem link_outward (placed : s.Placed) (indexed : s.Indexed) (latest : s.Latest)
    (detached : ∀ r ∈ s.records, r.Detached) (selfless : ∀ r ∈ s.records, r.Selfless) :
    (s.link (.builtin c) strict).1.store.Outward := by
  have ends : Linking.Ends (s.link (.builtin c) strict).2 := ends_of_detached detached placed
  have unused := unused_of_detached detached
  have linkable : s.Linkable := ⟨unused.navigable placed, fun r member => (detached r member).typed,
    latest.consistent indexed placed⟩
  have settled := link_settled placed unused ends
  have reciprocal := settled.reciprocal fun r member => (detached r member).requires
  have evolves := settled.store
  have placed' := settled.placed
  obtain ⟨aliased, required, resolved, linked, store, _⟩ := link_ends ends
  rw [store] at reciprocal evolves placed' ⊢
  have suggested : ∀ r' ∈ resolved.store.records, ∃ r ∈ s.records, s.LinkedIn r r' ∧
      ∀ e ∈ r'.requires, e.autofill = true → ∀ u, e.item = some u →
        (u.uid = r'.uid ↔ resolved.store.FallsBack r' e) := by
    intro r' member
    obtain ⟨r, inside, linkedIn⟩ := (linked.linkedIn linkable).exists_before member
    have same := linkedIn.unmoved.1.1
    refine ⟨r, inside, linkedIn, fun e listed suggested u item => ?_⟩
    obtain ⟨known, e₀, listed₀, t, found, rfl, rfl⟩ :=
      linkedIn.exists_require (detached r inside).requires listed item
    have explained := (selfless r inside).explains e₀ listed₀
    rw [Record.Explains, if_pos suggested] at explained
    rw [evolves.fallsBack_iff same, same.2]
    exact latest.uid_eq_iff indexed placed (mem_known_iff.mpr ⟨inside, known⟩) explained found
  constructor
  · intro r' member
    obtain ⟨_, _, _, suggested⟩ := suggested r' member
    exact suggested
  · intro r' member silent apart
    refine reciprocal.marks_others placed' member fun e listed item => apart e listed ?_
    obtain ⟨r, inside, linkedIn, suggested⟩ := suggested r' member
    obtain ⟨_, e₀, listed₀, _, _, _, rfl⟩ :=
      linkedIn.exists_require (detached r inside).requires listed item
    have explained := (selfless r inside).explains e₀ listed₀
    have tags : r'.has Tag.require.name = r.has Tag.require.name := by
      obtain ⟨_, _, rfl⟩ := linkedIn
      rfl
    rw [Record.Explains, ← tags] at explained
    split at explained
    · rename_i filled
      exact (suggested _ listed filled _ item).mp rfl
    · rw [Tag.require, silent] at explained
      cases explained

end

end Store

end SheetDoc
