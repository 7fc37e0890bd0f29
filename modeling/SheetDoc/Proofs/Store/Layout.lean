import SheetDoc.Store.Usage
import SheetDoc.Proofs.Steps

namespace SheetDoc

namespace Store

/-- The store after records were added one after another. An addition that fails leaves its record
in the store, and the next one follows. -/
def ofRecords (m : ReferenceMatch) (rs : List Record) : Store :=
  rs.foldl (fun s r => (s.add r).1) { referenceMatch := m }

/-- Every record holds its position as its index. -/
def Placed (s : Store) : Prop := ∀ (i : Nat) (r : Record), s.records[i]? = some r → r.uid = i

theorem records_add (r : Record) (s : Store) :
    (s.add r).1.records = s.records ++ [({ r with uid := (s.size : Int) } : Record).settle .uid] := by
  unfold add
  simp only
  split
  · rfl
  · split <;> rfl

theorem Placed.add {s : Store} (placed : s.Placed) (r : Record) : (s.add r).1.Placed := by
  intro i stored atI
  rw [records_add] at atI
  by_cases before : i < s.records.length
  · rw [List.getElem?_append_left before] at atI
    exact placed i stored atI
  · rw [List.getElem?_append_right (by omega)] at atI
    obtain ⟨bound, same⟩ := List.getElem?_eq_some_iff.mp atI
    have last : i = s.size := by
      simp only [List.length_cons, List.length_nil] at bound
      simp only [size]
      omega
    subst last
    simp [← same, Record.settle]

/-- A fact of every record of a list that does not look at the index holds in the store of it. -/
theorem ofRecords_induction {P : Store → Prop} {m : ReferenceMatch} {rs : List Record}
    (empty : P { referenceMatch := m }) (add : ∀ s, ∀ r ∈ rs, P s → P (s.add r).1) :
    P (ofRecords m rs) := by
  have general : ∀ (rest : List Record) (s : Store), rest ⊆ rs → P s →
      P (rest.foldl (fun s r => (s.add r).1) s) := by
    intro rest
    induction rest with
    | nil => exact fun _ _ holds => holds
    | cons r rest ih =>
      intro s inside holds
      obtain ⟨member, rest⟩ := List.cons_subset.mp inside
      exact ih _ rest (add s r member holds)
  exact general rs _ (List.Subset.refl rs) empty

theorem placed_ofRecords (m : ReferenceMatch) (rs : List Record) : (ofRecords m rs).Placed :=
  ofRecords_induction (by intro i r atI; simp at atI) fun _ r _ placed => placed.add r

theorem size_ofRecords (m : ReferenceMatch) (rs : List Record) : (ofRecords m rs).size = rs.length := by
  have general : ∀ (s : Store), (rs.foldl (fun s r => (s.add r).1) s).size = s.size + rs.length := by
    induction rs with
    | nil => exact fun _ => rfl
    | cons r rest ih =>
      intro s
      rw [List.foldl_cons, ih, size_add, List.length_cons]
      omega
  exact (general _).trans (Nat.zero_add _)

theorem forall_mem_ofRecords {P : Record → Prop} {m : ReferenceMatch} {rs : List Record}
    (each : ∀ r ∈ rs, ∀ uid : Int, P (({ r with uid := uid } : Record).settle .uid)) :
    ∀ r ∈ (ofRecords m rs).records, P r := by
  apply ofRecords_induction (P := fun s => ∀ r ∈ s.records, P r)
  · simp
  · intro s r member holds stored inside
    rw [records_add] at inside
    rcases List.mem_append.mp inside with old | new
    · exact holds stored old
    · rw [List.mem_singleton.mp new]
      exact each r member s.size

namespace Placed

variable {s : Store} (placed : s.Placed)

include placed

theorem uid_nonneg {r : Record} (member : r ∈ s.records) : 0 ≤ r.uid := by
  obtain ⟨i, atI⟩ := List.mem_iff_getElem?.mp member
  rw [placed i r atI]
  omega

theorem records_uid {r : Record} (member : r ∈ s.records) :
    s.records[r.uid.toNat]? = some r := by
  obtain ⟨i, atI⟩ := List.mem_iff_getElem?.mp member
  rw [placed i r atI]
  exact atI

theorem at?_uid {r : Record} (member : r ∈ s.records) : s.at? r.uid = some r := by
  rw [at?, if_pos (placed.uid_nonneg member)]
  exact placed.records_uid member

theorem uid_lt {r : Record} (member : r ∈ s.records) : r.uid < s.size := by
  obtain ⟨i, atI⟩ := List.mem_iff_getElem?.mp member
  obtain ⟨bound, _⟩ := List.getElem?_eq_some_iff.mp atI
  rw [placed i r atI]
  simp only [size]
  omega

theorem eq_of_uid_eq {r t : Record} (inside : r ∈ s.records) (other : t ∈ s.records)
    (same : r.uid = t.uid) : r = t := by
  have atR := placed.records_uid inside
  rw [same, placed.records_uid other] at atR
  exact (Option.some.inj atR).symm

end Placed

/-- What is listed in the record at an index, nothing where there is no record. -/
def viewAt {α : Type} (view : Record → List α) (s : Store) (uid : Int) : List α :=
  if 0 ≤ uid then ((s.records[uid.toNat]?).map view).getD [] else []

theorem Placed.viewAt_uid {α : Type} {view : Record → List α} {s : Store} (placed : s.Placed)
    {r : Record} (member : r ∈ s.records) : s.viewAt view r.uid = view r := by
  rw [viewAt, if_pos (placed.uid_nonneg member), placed.records_uid member]
  rfl

theorem exists_of_mem_viewAt {α : Type} {view : Record → List α} {s : Store} (placed : s.Placed)
    {uid : Int} {a : α} (member : a ∈ s.viewAt view uid) :
    ∃ r ∈ s.records, r.uid = uid ∧ a ∈ view r := by
  unfold viewAt at member
  split at member
  · rename_i nonneg
    cases atUid : s.records[uid.toNat]? with
    | none => simp [atUid] at member
    | some r =>
      refine ⟨r, List.mem_of_getElem? atUid, ?_, by simpa [atUid] using member⟩
      rw [placed _ r atUid]
      omega
  · cases member

theorem getElem?_modify (s : Store) (uid : Int) (f : Record → Record) (i : Nat) :
    (s.modify uid f).records[i]? =
      if uid.toNat = i then (s.records[i]?).map f else s.records[i]? := by
  rw [modify, List.getElem?_modify]
  by_cases here : uid.toNat = i
  · simp [here]
  · simp [here]

theorem viewAt_modify {α : Type} (view : Record → List α) (s : Store) {uid : Int}
    (nonneg : 0 ≤ uid) (f : Record → Record) (a : Int) :
    (s.modify uid f).viewAt view a =
      if a = uid then ((s.records[uid.toNat]?).map (view ∘ f)).getD [] else s.viewAt view a := by
  unfold viewAt
  rw [getElem?_modify]
  by_cases here : a = uid
  · subst here
    simp [nonneg]
  · by_cases inside : 0 ≤ a
    · have apart : uid.toNat ≠ a.toNat := by omega
      simp [here, inside, apart]
    · simp [here, inside]

/-- Each record is replaced by a related one; look-ups and descriptions stay. -/
structure Evolves (rel : Record → Record → Prop) (s s' : Store) : Prop where
  length : s'.records.length = s.records.length
  records : ∀ (i : Nat) (r r' : Record),
    s.records[i]? = some r → s'.records[i]? = some r' → rel r r'
  referenceMatch : s'.referenceMatch = s.referenceMatch
  groupDescriptions : s'.groupDescriptions = s.groupDescriptions
  byKey : s'.byKey = s.byKey
  byName : s'.byName = s.byName

namespace Evolves

variable {rel : Record → Record → Prop} {s s' s'' : Store}

theorem refl (reflexive : ∀ r, rel r r) (s : Store) : Evolves rel s s := by
  refine ⟨rfl, ?_, rfl, rfl, rfl, rfl⟩
  intro i r r' before after
  cases Option.some.inj (before.symm.trans after)
  exact reflexive r

theorem getElem? (e : Evolves rel s s') {i : Nat} {r : Record} (before : s.records[i]? = some r) :
    ∃ r', s'.records[i]? = some r' ∧ rel r r' := by
  obtain ⟨bound, _⟩ := List.getElem?_eq_some_iff.mp before
  have inside : i < s'.records.length := by rw [e.length]; exact bound
  exact ⟨_, List.getElem?_eq_getElem inside,
    e.records i r _ before (List.getElem?_eq_getElem inside)⟩

theorem getElem?_of_after (e : Evolves rel s s') {i : Nat} {r' : Record}
    (after : s'.records[i]? = some r') : ∃ r, s.records[i]? = some r ∧ rel r r' := by
  obtain ⟨bound, _⟩ := List.getElem?_eq_some_iff.mp after
  have inside : i < s.records.length := by rw [← e.length]; exact bound
  exact ⟨_, List.getElem?_eq_getElem inside,
    e.records i _ r' (List.getElem?_eq_getElem inside) after⟩

theorem exists_before (e : Evolves rel s s') {r' : Record} (after : r' ∈ s'.records) :
    ∃ r ∈ s.records, rel r r' := by
  obtain ⟨i, atI⟩ := List.mem_iff_getElem?.mp after
  obtain ⟨r, before, changed⟩ := e.getElem?_of_after atI
  exact ⟨r, List.mem_of_getElem? before, changed⟩

theorem trans (transitive : ∀ a b c, rel a b → rel b c → rel a c) (first : Evolves rel s s')
    (second : Evolves rel s' s'') : Evolves rel s s'' := by
  refine ⟨second.length.trans first.length, ?_,
    second.referenceMatch.trans first.referenceMatch,
    second.groupDescriptions.trans first.groupDescriptions, second.byKey.trans first.byKey,
    second.byName.trans first.byName⟩
  intro i a c before after
  obtain ⟨b, middle, changed⟩ := first.getElem? before
  exact transitive a b c changed (second.records i b c middle after)

theorem mono {rel' : Record → Record → Prop} (weaker : ∀ a b, rel a b → rel' a b)
    (e : Evolves rel s s') : Evolves rel' s s' :=
  { e with records := fun i r r' before after => weaker r r' (e.records i r r' before after) }

theorem modify (reflexive : ∀ r, rel r r) {uid : Int} {f : Record → Record}
    (changed : ∀ r, s.records[uid.toNat]? = some r → rel r (f r)) :
    Evolves rel s (s.modify uid f) := by
  refine ⟨by simp [Store.modify], ?_, rfl, rfl, rfl, rfl⟩
  intro i r r' before after
  rw [getElem?_modify] at after
  by_cases here : uid.toNat = i
  · rw [if_pos here, before] at after
    cases after
    exact changed r (here ▸ before)
  · rw [if_neg here, before] at after
    cases after
    exact reflexive r

theorem find? (e : Evolves rel s s') {name : String} {kind : Option Kind} {t : Record}
    (found : s.find? name kind = some t) : ∃ t', s'.find? name kind = some t' ∧ rel t t' := by
  obtain ⟨uid, atName, atUid⟩ := Option.bind_eq_some_iff.mp found
  obtain ⟨t', atUid', changed⟩ := e.getElem? atUid
  refine ⟨t', Option.bind_eq_some_iff.mpr ⟨uid, ?_, atUid'⟩, changed⟩
  rw [← atName]
  simp only [findUid?, e.referenceMatch, e.byKey, e.byName]

theorem find?_isSome (e : Evolves rel s s') (name : String) (kind : Option Kind) :
    (s'.find? name kind).isSome = (s.find? name kind).isSome := by
  have uid : s'.findUid? name kind = s.findUid? name kind := by
    simp only [findUid?, e.referenceMatch, e.byKey, e.byName]
  rw [Store.find?, Store.find?, uid]
  cases s.findUid? name kind with
  | none => rfl
  | some i =>
    rw [Option.bind_some, Option.bind_some, Bool.eq_iff_iff, Option.isSome_iff_exists,
      Option.isSome_iff_exists]
    constructor
    · rintro ⟨r', after⟩
      obtain ⟨r, before, _⟩ := e.getElem?_of_after after
      exact ⟨r, before⟩
    · rintro ⟨r, before⟩
      obtain ⟨r', after, _⟩ := e.getElem? before
      exact ⟨r', after⟩

theorem find?_none (e : Evolves rel s s') {name : String} {kind : Option Kind}
    (missing : s.find? name kind = none) : s'.find? name kind = none := by
  rw [← Option.isNone_iff_eq_none, ← Option.isSome_eq_false_iff, e.find?_isSome, missing]
  rfl

theorem viewAt {α : Type} {view : Record → List α} (e : Evolves rel s s')
    (blind : ∀ r r', rel r r' → view r' = view r) (uid : Int) :
    s'.viewAt view uid = s.viewAt view uid := by
  unfold Store.viewAt
  cases before : s.records[uid.toNat]? with
  | none =>
    rw [List.getElem?_eq_none_iff, ← e.length, ← List.getElem?_eq_none_iff] at before
    simp [before]
  | some r =>
    obtain ⟨r', after, changed⟩ := e.getElem? before
    simp [after, blind r r' changed]

theorem placed (e : Evolves rel s s') (index : ∀ r r', rel r r' → r'.uid = r.uid)
    (before : s.Placed) : s'.Placed := by
  intro i r' after
  obtain ⟨r, atI, changed⟩ := e.getElem?_of_after after
  rw [index r r' changed]
  exact before i r atI

end Evolves

end Store

end SheetDoc
