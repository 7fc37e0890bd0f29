import Mathlib.Data.List.Basic
import Mathlib.Data.List.Induction
import SheetDoc.Order

namespace SheetDoc

variable {keys : List String} {g h : String}

/-- The keys without repetitions, each where it first stands. -/
def distinctKeys (keys : List String) : List String := keys.foldl addDistinct []

theorem distinctKeys_concat (keys : List String) (k : String) :
    distinctKeys (keys ++ [k]) = addDistinct (distinctKeys keys) k :=
  List.foldl_concat ..

theorem mem_distinctKeys : g ∈ distinctKeys keys ↔ g ∈ keys := by
  induction keys using List.reverseRecOn with
  | nil => rfl
  | append_singleton keys k ih =>
    rw [distinctKeys_concat, addDistinct, List.mem_append, List.mem_singleton, ← ih]
    split
    · rename_i known
      have inside : k ∈ distinctKeys keys := by simpa using known
      refine ⟨Or.inl, ?_⟩
      rintro (old | rfl)
      · exact old
      · exact inside
    · rw [List.mem_append, List.mem_singleton]

theorem idxOf_concat (k : String) :
    (keys ++ [k]).idxOf g =
      if g ∈ keys then keys.idxOf g else if g = k then keys.length else keys.length + 1 := by
  rw [List.idxOf_append]
  by_cases inside : g ∈ keys
  · rw [if_pos inside, if_pos inside]
  · rw [if_neg inside, if_neg inside]
    by_cases same : g = k
    · simp [same]
    · rw [if_neg same, List.idxOf_of_notMem (by simpa using same), List.length_singleton, Nat.add_comm]

/-- To drop repetitions does not change which of two keys stands first. -/
theorem idxOf_distinctKeys_lt_iff :
    (distinctKeys keys).idxOf g < (distinctKeys keys).idxOf h ↔ keys.idxOf g < keys.idxOf h := by
  induction keys using List.reverseRecOn with
  | nil => rfl
  | append_singleton keys k ih =>
    have first : g ∈ keys → (distinctKeys keys).idxOf g < (distinctKeys keys).length :=
      fun inside => List.idxOf_lt_length_iff.mpr (mem_distinctKeys.mpr inside)
    have second : h ∈ keys → (distinctKeys keys).idxOf h < (distinctKeys keys).length :=
      fun inside => List.idxOf_lt_length_iff.mpr (mem_distinctKeys.mpr inside)
    have first' : g ∈ keys → keys.idxOf g < keys.length := List.idxOf_lt_length_iff.mpr
    have second' : h ∈ keys → keys.idxOf h < keys.length := List.idxOf_lt_length_iff.mpr
    rw [distinctKeys_concat, addDistinct]
    by_cases known : k ∈ keys
    · rw [if_pos (by simpa using mem_distinctKeys.mpr known), ih, idxOf_concat, idxOf_concat]
      -- the new key is an old one, so only keys that stand nowhere change their place
      grind [List.idxOf_of_notMem]
    · rw [if_neg (by simpa [mem_distinctKeys] using known)]
      simp only [idxOf_concat, mem_distinctKeys]
      grind

theorem idxOf_distinctKeys_inj (inside : g ∈ keys)
    (same : (distinctKeys keys).idxOf g = (distinctKeys keys).idxOf h) : g = h :=
  (List.idxOf_inj (mem_distinctKeys.mpr inside)).mp same

/-- What the ranks of groups are: the configured keys come first, by first occurrence, then the
other groups in the order in which the records show them; no two groups share a rank. -/
structure RanksGroups (configured shown : List String) (rank : String → Nat) : Prop where
  lt_iff : ∀ g ∈ configured, ∀ h ∈ configured,
    (rank g < rank h ↔ configured.idxOf g < configured.idxOf h)
  ahead : ∀ g ∈ configured, ∀ h ∈ shown, h ∉ configured → rank g < rank h
  lt_iff_shown : ∀ g ∈ shown, g ∉ configured → ∀ h ∈ shown, h ∉ configured →
    (rank g < rank h ↔ shown.idxOf g < shown.idxOf h)
  apart : ∀ g ∈ configured ++ shown, ∀ h ∈ configured ++ shown, rank g = rank h → g = h

/-- Places among the distinct keys are such ranks. -/
theorem ranksGroups_idxOf (configured shown : List String) :
    RanksGroups configured shown ((distinctKeys (configured ++ shown)).idxOf ·) where
  lt_iff g inside h other := by
    rw [idxOf_distinctKeys_lt_iff, List.idxOf_append_of_mem inside, List.idxOf_append_of_mem other]
  ahead g inside h _ outside := by
    rw [idxOf_distinctKeys_lt_iff, List.idxOf_append_of_mem inside,
      List.idxOf_append_of_notMem outside]
    exact Nat.lt_add_right _ (List.idxOf_lt_length_iff.mpr inside)
  lt_iff_shown g _ outside h _ outside' := by
    rw [idxOf_distinctKeys_lt_iff, List.idxOf_append_of_notMem outside,
      List.idxOf_append_of_notMem outside']
    omega
  apart _ inside _ _ same := idxOf_distinctKeys_inj inside same

/-- Of groups that stand in the order of their ranks, the one of the smaller rank is seen first. -/
theorem idxOf_lt_of_rank_lt {shown : List String} {rank : String → Nat}
    (ordered : shown.Pairwise fun g h => rank g ≤ rank h) (first : g ∈ shown) (second : h ∈ shown)
    (below : rank g < rank h) : shown.idxOf g < shown.idxOf h := by
  have placed := List.idxOf_lt_length_iff.mpr first
  have placed' := List.idxOf_lt_length_iff.mpr second
  by_contra late
  rcases Nat.lt_or_eq_of_le (Nat.not_lt.mp late) with before | same
  · have order := List.pairwise_iff_getElem.mp ordered _ _ placed' placed before
    rw [List.getElem_idxOf, List.getElem_idxOf] at order
    omega
  · cases (List.idxOf_inj second).mp same
    exact Nat.lt_irrefl _ below

/-- To rank the groups again by records that are in the order of the ranks keeps that order. -/
theorem RanksGroups.lt_of_ordered {configured shown shown' : List String} {rank rank' : String → Nat}
    (ranks : RanksGroups configured shown rank) (ranks' : RanksGroups configured shown' rank')
    (same : ∀ g, g ∈ shown' ↔ g ∈ shown) (ordered : shown'.Pairwise fun g h => rank g ≤ rank h)
    (first : g ∈ shown) (second : h ∈ shown) (below : rank g < rank h) : rank' g < rank' h := by
  have first' := (same g).mpr first
  have second' := (same h).mpr second
  by_cases inside : g ∈ configured
  · by_cases inside' : h ∈ configured
    · exact (ranks'.lt_iff g inside h inside').mpr ((ranks.lt_iff g inside h inside').mp below)
    · exact ranks'.ahead g inside h second' inside'
  · by_cases inside' : h ∈ configured
    · exact absurd (ranks.ahead h inside' g first inside) (Nat.lt_asymm below)
    · exact (ranks'.lt_iff_shown g first' inside h second' inside').mpr
        (idxOf_lt_of_rank_lt ordered first' second' below)

end SheetDoc
