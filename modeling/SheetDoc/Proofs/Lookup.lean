import SheetDoc.Assoc

namespace SheetDoc.Assoc

variable {κ α : Type} [BEq κ] [LawfulBEq κ]

omit [BEq κ] [LawfulBEq κ] in
@[simp]
theorem keys_append (m n : Assoc κ α) : keys (m ++ n) = keys m ++ keys n := List.map_append

theorem get?_eq_none_iff {m : Assoc κ α} {key : κ} : get? m key = none ↔ key ∉ keys m := by
  induction m with
  | nil => simp [get?, keys]
  | cons e r ih =>
    obtain ⟨k, v⟩ := e
    by_cases here : k = key
    · simp [get?, keys, here]
    · have step : keys ((k, v) :: r) = k :: keys r := rfl
      simp [get?, step, here, Ne.symm here, ih]

theorem set_of_fresh {m : Assoc κ α} {key : κ} (fresh : key ∉ keys m) (value : α) :
    set m key value = m ++ [(key, value)] := by
  induction m with
  | nil => rfl
  | cons e r ih =>
    obtain ⟨k, v⟩ := e
    have step : keys ((k, v) :: r) = k :: keys r := rfl
    rw [step, List.mem_cons, not_or] at fresh
    have apart : (k == key) = false := beq_eq_false_iff_ne.mpr (Ne.symm fresh.1)
    simp [set, apart, ih fresh.2]

/-- Where no key is repeated every entry is found under its key. -/
theorem get?_of_mem {m : Assoc κ α} (nodup : (keys m).Nodup) {key : κ} {value : α}
    (member : (key, value) ∈ m) : get? m key = some value := by
  induction m with
  | nil => cases member
  | cons e r ih =>
    obtain ⟨k, v⟩ := e
    obtain ⟨fresh, rest⟩ := List.nodup_cons.mp nodup
    rcases List.mem_cons.mp member with same | later
    · cases same
      simp [get?]
    · have apart : k ≠ key := by
        rintro rfl
        exact fresh (List.mem_map.mpr ⟨(k, value), later, rfl⟩)
      simp [get?, apart, ih rest later]

theorem mem_of_get? {m : Assoc κ α} {key : κ} {value : α} (found : get? m key = some value) :
    (key, value) ∈ m := by
  induction m with
  | nil => cases found
  | cons e r ih =>
    obtain ⟨k, v⟩ := e
    by_cases here : k = key
    · simp [get?, here] at found
      simp [here, found]
    · simp [get?, here] at found
      exact List.mem_cons_of_mem _ (ih found)

omit [LawfulBEq κ] in
theorem mem_of_mem_set {m : Assoc κ α} {key : κ} {value : α} {e : κ × α}
    (member : e ∈ set m key value) : e ∈ m ∨ e.2 = value := by
  induction m with
  | nil => exact Or.inr (List.mem_singleton.mp member ▸ rfl)
  | cons first rest ih =>
    unfold set at member
    split at member
    · rcases List.mem_cons.mp member with rfl | later
      · exact Or.inr rfl
      · exact Or.inl (List.mem_cons_of_mem first later)
    · rcases List.mem_cons.mp member with rfl | later
      · exact Or.inl List.mem_cons_self
      · exact (ih later).imp_left (List.mem_cons_of_mem first)

omit [LawfulBEq κ] in
theorem has_set [PartialEquivBEq κ] (m : Assoc κ α) (key other : κ) (value : α) :
    (set m key value).has other = (key == other || m.has other) := by
  rw [has, get?_set, has]
  split <;> simp_all

theorem get?_erase (m : Assoc κ α) (key other : κ) :
    get? (erase m key) other = if key == other then none else get? m other := by
  induction m with
  | nil => simp [erase, get?]
  | cons e r ih =>
    obtain ⟨k, v⟩ := e
    have step : erase ((k, v) :: r) key =
        if k == key then erase r key else (k, v) :: erase r key := by
      by_cases here : k = key <;> simp [erase, here]
    rw [step]
    by_cases here : k = key
    · subst here
      rw [if_pos (beq_self_eq_true k), ih]
      by_cases same : k = other <;> simp [get?, same]
    · by_cases same : k = other
      · subst same
        simp [get?, here, Ne.symm here]
      · simp [get?, here, same, ih]

end SheetDoc.Assoc
