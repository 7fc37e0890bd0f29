import SheetDoc.Data.Merge
import SheetDoc.Proofs.Lookup

namespace SheetDoc

namespace Assoc

variable {κ α : Type} [BEq κ]

/-- The value of the last entry under a key. -/
def last? (entries : Assoc κ α) (key : κ) : Option α :=
  (entries.reverse.find? (·.1 == key)).map (·.2)

/-- No two keys are equal. -/
def Distinct (m : Assoc κ α) : Prop := (keys m).Pairwise fun k k' => (k == k') = false

theorem distinct_iff_nodup [LawfulBEq κ] {m : Assoc κ α} : Distinct m ↔ (keys m).Nodup := by
  simp only [Distinct, List.Nodup, beq_eq_false_iff_ne]

/-- A key that is not in the list comes last. -/
theorem set_of_apart {m : Assoc κ α} {key : κ} (apart : ∀ k ∈ keys m, (k == key) = false)
    (value : α) : set m key value = m ++ [(key, value)] := by
  induction m with
  | nil => rfl
  | cons e r ih =>
    obtain ⟨k, v⟩ := e
    obtain ⟨here, later⟩ := List.forall_mem_cons.mp apart
    simp [set, here, ih later]

/-- A key that comes later differs from those before it. -/
theorem apart_of_distinct {m rest : Assoc κ α} {e : κ × α} (distinct : Distinct (m ++ e :: rest)) :
    ∀ k ∈ keys m, (k == e.1) = false := by
  rw [Distinct, keys_append, List.pairwise_append] at distinct
  exact fun k member => distinct.2.2 k member e.1 List.mem_cons_self

theorem Distinct.set {m : Assoc κ α} (distinct : Distinct m) (key : κ) (value : α) :
    Distinct (set m key value) := by
  unfold Distinct
  rw [keys_set]
  split
  · exact distinct
  · rename_i fresh
    refine List.pairwise_append.mpr ⟨distinct, List.pairwise_singleton _ _, fun k member k' last => ?_⟩
    rw [List.mem_singleton.mp last]
    simpa using fun same => fresh (List.any_eq_true.mpr ⟨k, member, same⟩)

theorem keys_prefix_set (m : Assoc κ α) (key : κ) (value : α) :
    keys m <+: keys (set m key value) := by
  rw [keys_set]
  split
  · exact List.prefix_refl _
  · exact List.prefix_append _ _

theorem distinct_nil : Distinct ([] : Assoc κ α) := List.Pairwise.nil

theorem distinct_update {m : Assoc κ α} (distinct : Distinct m) (n : Assoc κ α) :
    Distinct (update m n) := by
  induction n generalizing m with
  | nil => exact distinct
  | cons e rest ih => exact ih (distinct.set e.1 e.2)

theorem mem_keys_set {m : Assoc κ α} {key k : κ} {value : α} (member : k ∈ keys (set m key value)) :
    k ∈ keys m ∨ k = key := by
  rw [keys_set] at member
  split at member
  · exact Or.inl member
  · exact (List.mem_append.mp member).imp_right List.mem_singleton.mp

theorem mem_keys_update {m n : Assoc κ α} {k : κ} (member : k ∈ keys (update m n)) :
    k ∈ keys m ∨ k ∈ keys n := by
  induction n generalizing m with
  | nil => exact Or.inl member
  | cons e rest ih =>
    rcases ih member with old | later
    · rcases mem_keys_set old with old | rfl
      · exact Or.inl old
      · exact Or.inr List.mem_cons_self
    · exact Or.inr (List.mem_cons_of_mem _ later)

/-- New keys follow those that are there. -/
theorem update_of_distinct {m n : Assoc κ α} (distinct : Distinct (m ++ n)) : update m n = m ++ n := by
  induction n generalizing m with
  | nil => exact (List.append_nil m).symm
  | cons e rest ih =>
    have whole : m ++ e :: rest = (m ++ [e]) ++ rest := by simp
    rw [whole, ← ih (whole ▸ distinct), ← set_of_apart (apart_of_distinct distinct)]
    rfl

variable [PartialEquivBEq κ]

/-- Equal keys find the same. -/
theorem get?_congr (m : Assoc κ α) {key other : κ} (same : (key == other) = true) :
    get? m key = get? m other := by
  induction m with
  | nil => rfl
  | cons e r ih =>
    obtain ⟨k, v⟩ := e
    rw [get?, get?, BEq.congr_right same, ih]

theorem get?_eq_none_of_apart {m : Assoc κ α} {key : κ}
    (apart : ∀ k ∈ keys m, (key == k) = false) : get? m key = none := by
  induction m with
  | nil => rfl
  | cons e r ih =>
    obtain ⟨k, v⟩ := e
    obtain ⟨here, later⟩ := List.forall_mem_cons.mp apart
    rw [get?, BEq.comm, here]
    exact ih later

omit [PartialEquivBEq κ] in
theorem last?_cons (e : κ × α) (rest : Assoc κ α) (key : κ) :
    last? (e :: rest) key = (last? rest key).or (if e.1 == key then some e.2 else none) := by
  rw [last?, List.reverse_cons, List.find?_append, Option.map_or, last?]
  cases here : e.1 == key <;> simp [here]

omit [PartialEquivBEq κ] in
theorem last?_append (front rest : Assoc κ α) (key : κ) :
    last? (front ++ rest) key = (last? rest key).or (last? front key) := by
  rw [last?, List.reverse_append, List.find?_append, Option.map_or, last?, last?]

/-- Of what is stored under a key the last stays. -/
theorem get?_update (m n : Assoc κ α) (key : κ) :
    get? (update m n) key = (last? n key).or (get? m key) := by
  induction n generalizing m with
  | nil => rfl
  | cons e rest ih =>
    have step : update m (e :: rest) = update (set m e.1 e.2) rest := rfl
    rw [step, ih, last?_cons, get?_set, Option.or_assoc]
    cases e.1 == key <;> rfl

theorem get?_ofList (entries : Assoc κ α) (key : κ) : get? (ofList entries) key = last? entries key := by
  rw [ofList, get?_update, get?, Option.or_none]

/-- To store entries one after another is to store each key once with its last value. -/
theorem get?_update_ofList (m entries : Assoc κ α) (key : κ) :
    get? (update m (ofList entries)) key = (last? entries key).or (get? m key) := by
  have distinct : Distinct (ofList entries) := distinct_update distinct_nil entries
  have once : ofList (ofList entries) = ofList entries := update_of_distinct (m := []) distinct
  rw [get?_update, ← get?_ofList, once, get?_ofList]

end Assoc

namespace Data

variable {base update : Assoc Scalar Data}

/-- A property that every new entry keeps holds after a merge. -/
theorem mergeEntries_induction {P : Assoc Scalar Data → Prop} (start : P base)
    (set : ∀ m, ∀ e ∈ update, ∀ value, P m → P (m.set e.1 value)) : P (mergeEntries base update) := by
  induction update generalizing base with
  | nil => exact start
  | cons e rest ih =>
    exact ih (set base e List.mem_cons_self _ start) fun m e later =>
      set m e (List.mem_cons_of_mem _ later)

theorem distinct_mergeEntries (distinct : base.Distinct) (update : Assoc Scalar Data) :
    (mergeEntries base update).Distinct :=
  mergeEntries_induction distinct fun _ _ _ _ distinct => distinct.set _ _

theorem keys_prefix_mergeEntries (base update : Assoc Scalar Data) :
    base.keys <+: (mergeEntries base update).keys :=
  mergeEntries_induction (P := fun m => base.keys <+: m.keys) (List.prefix_refl _)
    fun m _ _ _ kept => kept.trans (m.keys_prefix_set _ _)

theorem mem_keys_mergeEntries {key : Scalar} (member : key ∈ (mergeEntries base update).keys) :
    key ∈ base.keys ∨ key ∈ update.keys := by
  refine mergeEntries_induction
    (P := fun m => ∀ k ∈ m.keys, k ∈ base.keys ∨ k ∈ update.keys) (fun _ => Or.inl) ?_ key member
  intro m e listed value known k member
  rcases Assoc.mem_keys_set member with old | rfl
  · exact known k old
  · exact Or.inr (List.mem_map_of_mem listed)

/-- Where no key of the update is repeated, each of them decides for itself. -/
theorem get?_mergeEntries (distinct : update.Distinct) (base : Assoc Scalar Data) (key : Scalar) :
    (mergeEntries base update).get? key =
      match update.get? key with
      | none => base.get? key
      | some value => some (mergeEntry (base.get? key) (key, value)) := by
  induction update generalizing base with
  | nil => rfl
  | cons e rest ih =>
    obtain ⟨k, value⟩ := e
    obtain ⟨apart, later⟩ := List.pairwise_cons.mp distinct
    rw [mergeEntries, ih later, Assoc.get?_set]
    by_cases here : (k == key) = true
    · have missing : Assoc.get? rest key = none := by
        rw [← Assoc.get?_congr rest here]
        exact Assoc.get?_eq_none_of_apart apart
      simp only [missing, Assoc.get?, here, if_true, Assoc.get?_congr base here, mergeEntry]
    · simp only [Assoc.get?, if_neg here]

theorem mergeEntries_append (base update more : Assoc Scalar Data) :
    mergeEntries base (update ++ more) = mergeEntries (mergeEntries base update) more := by
  induction update generalizing base with
  | nil => rfl
  | cons e rest ih => exact ih _

/-- New keys follow those of the base. -/
theorem mergeEntries_of_distinct (distinct : Assoc.Distinct (base ++ update)) :
    mergeEntries base update = base ++ update := by
  induction update generalizing base with
  | nil => rw [List.append_nil, mergeEntries]
  | cons e rest ih =>
    have whole : base ++ e :: rest = (base ++ [e]) ++ rest := by simp
    have fresh := Assoc.apart_of_distinct distinct
    have missing : Assoc.get? base e.1 = none := by
      refine Assoc.get?_eq_none_of_apart fun k member => ?_
      rw [BEq.comm]
      exact fresh k member
    rw [mergeEntries, missing, mergeEntry, Assoc.set_of_apart fresh, whole]
    exact ih (whole ▸ distinct)

/-- What is no mapping makes way for any value. -/
theorem merge_of_not_map {old : Data} (flat : ∀ entries, old ≠ .map entries) (value : Data) :
    merge old value = value := by
  cases value with
  | map update =>
    rw [merge]
    exact flat
  | list | scalar => rw [merge]

end Data

end SheetDoc
