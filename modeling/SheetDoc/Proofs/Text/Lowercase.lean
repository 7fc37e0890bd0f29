import SheetDoc.Text.Lowercase

namespace SheetDoc.Text

/-- A run of letters as first, last, stride and the distance to the small letter. -/
abbrev CapitalRun := Nat × Nat × Nat × Int

namespace CapitalRun

def Holds (run : CapitalRun) (n : Nat) : Prop :=
  run.1 ≤ n ∧ n ≤ run.2.1 ∧ (n - run.1) % run.2.2.1 = 0

/-- The letters that lower case shifts. -/
def shifted : List CapitalRun := (0x41, 0x5A, 1, 32) :: capitalRuns

/-- The letters that lower case does not leave alone. -/
def all : List CapitalRun := (0x130, 0x130, 1, 0) :: shifted

/-- The letters of a run, once they are shifted, are not in the other: they lie before it, behind it
or between its letters. -/
def apart (run other : CapitalRun) : Bool :=
  let first := (run.1 + run.2.2.2).toNat
  Nat.blt (run.2.1 + run.2.2.2).toNat other.1 || Nat.blt other.2.1 first ||
    (Nat.beq other.2.2.1 2 && (Nat.beq run.2.2.1 2 || Nat.beq run.1 run.2.1) && Nat.blt 0 first &&
      Nat.beq ((first + other.1) % 2) 1)

theorem apart_shifted : (shifted.all fun run => all.all run.apart) = true := by
  decide +kernel

theorem not_holds_of_apart {run other : CapitalRun} (apart : run.apart other = true) {n : Nat}
    (holds : run.Holds n) : ¬other.Holds (n + run.2.2.2).toNat := by
  obtain ⟨first, last, stride, distance⟩ := run
  obtain ⟨first', last', stride', distance'⟩ := other
  simp only [CapitalRun.apart, Bool.or_eq_true, Bool.and_eq_true, Nat.blt_eq, Nat.beq_eq] at apart
  rintro ⟨low, high, step⟩
  obtain ⟨low', high', step'⟩ := holds
  simp only at *
  rcases apart with (before | behind) | ⟨⟨⟨rfl, rfl | rfl⟩, positive⟩, odd⟩ <;> omega

end CapitalRun

/-- A code point that no run of capitals holds. -/
def Small (n : Nat) : Prop := ∀ run ∈ CapitalRun.all, ¬run.Holds n

theorem small_shifted {run : CapitalRun} (member : run ∈ CapitalRun.shifted) {n : Nat}
    (holds : run.Holds n) : Small (n + run.2.2.2).toNat := by
  intro other listed
  have apart := List.all_eq_true.mp CapitalRun.apart_shifted run member
  exact CapitalRun.not_holds_of_apart (List.all_eq_true.mp apart other listed) holds

theorem small_of_ascii {n : Nat} (ascii : n < 0x80) (other : ¬(0x41 ≤ n ∧ n ≤ 0x5A)) : Small n := by
  have beyond : ∀ run ∈ (0x130, 0x130, 1, 0) :: capitalRuns, 0x80 ≤ run.1 := by decide +kernel
  rintro run member ⟨low, high, -⟩
  rcases List.mem_cons.mp member with rfl | member
  · have := beyond _ List.mem_cons_self
    omega
  · rcases List.mem_cons.mp member with rfl | member
    · exact other ⟨low, high⟩
    · have := beyond run (List.mem_cons_of_mem _ member)
      omega

/-- What is no character stands for the first one. -/
theorem toNat_ofNat (n : Nat) : (Char.ofNat n).toNat = n ∨ (Char.ofNat n).toNat = 0 := by
  by_cases valid : n.isValidChar
  · have same : Char.ofNat n = Char.ofNatAux n valid := dif_pos valid
    rw [same]
    exact Or.inl (BitVec.toNat_ofNatLT ..)
  · have first : Char.ofNat n = ⟨⟨0, by decide⟩, Or.inl (by decide)⟩ := dif_neg valid
    rw [first]
    exact Or.inr rfl

theorem small_ofNat {n : Nat} (small : Small n) : Small (Char.ofNat n).toNat := by
  rcases toNat_ofNat n with same | zero
  · rwa [same]
  · rw [zero]
    exact small_of_ascii (by decide) (by decide)

theorem upper_iff {c : Char} :
    (c.val ≥ 'A'.val ∧ c.val ≤ 'Z'.val) ↔ 0x41 ≤ c.toNat ∧ c.toNat ≤ 0x5A := by
  rw [ge_iff_le, UInt32.le_iff_toNat_le, UInt32.le_iff_toNat_le]
  rfl

theorem toLower_of_upper {c : Char} (upper : 0x41 ≤ c.toNat ∧ c.toNat ≤ 0x5A) :
    c.toLower = Char.ofNat (c.toNat + 32) := by
  have shifted : c.toLower.toNat = c.toNat + 32 := by
    unfold Char.toLower
    rw [dif_pos (upper_iff.mpr upper)]
    change (c.val + 32).toNat = c.val.toNat + 32
    have bound : c.val.toNat ≤ 0x5A := upper.2
    rw [UInt32.toNat_add]
    simp only [UInt32.reduceToNat]
    omega
  rw [← shifted, Char.ofNat_toNat]

theorem toLower_of_other {c : Char} (other : ¬(0x41 ≤ c.toNat ∧ c.toNat ≤ 0x5A)) :
    c.toLower = c := by
  unfold Char.toLower
  rw [dif_neg (mt upper_iff.mp other)]

/-- The dotted capital aside, a letter is small or shifted by the distance of its run. -/
theorem lowerChar_cases {c : Char} (undotted : c.toNat ≠ 0x130) :
    lowerChar c = [c] ∧ Small c.toNat ∨
      ∃ run ∈ CapitalRun.shifted, run.Holds c.toNat ∧
        lowerChar c = [Char.ofNat (c.toNat + run.2.2.2).toNat] := by
  unfold lowerChar
  by_cases ascii : c.toNat < 0x80
  · rw [if_pos ascii]
    by_cases upper : 0x41 ≤ c.toNat ∧ c.toNat ≤ 0x5A
    · exact Or.inr ⟨_, List.mem_cons_self, ⟨upper.1, upper.2, Nat.mod_one _⟩,
        congrArg List.singleton (toLower_of_upper upper)⟩
    · exact Or.inl ⟨congrArg List.singleton (toLower_of_other upper), small_of_ascii ascii upper⟩
  · rw [if_neg ascii, if_neg (by simpa using undotted)]
    cases found : capitalRuns.find? _ with
    | some run =>
      obtain ⟨first, last, stride, distance⟩ := run
      have holds := List.find?_some found
      simp only [Bool.and_eq_true, decide_eq_true_eq, beq_iff_eq] at holds
      exact Or.inr ⟨_, List.mem_cons_of_mem _ (List.mem_of_find?_eq_some found),
        ⟨holds.1.1, holds.1.2, holds.2⟩, rfl⟩
    | none =>
      refine Or.inl ⟨rfl, ?_⟩
      rintro run member ⟨low, high, step⟩
      rcases List.mem_cons.mp member with rfl | member
      · simp only at low high
        omega
      · rcases List.mem_cons.mp member with rfl | member
        · simp only at low high
          omega
        · have missed := List.find?_eq_none.mp found run member
          simp [low, high, step] at missed

/-- A small letter stays as it is, and is no capital sigma. -/
theorem lowerChar_of_small {c : Char} (small : Small c.toNat) :
    lowerChar c = [c] ∧ c.toNat ≠ 0x3A3 := by
  have undotted : c.toNat ≠ 0x130 := by
    intro dotted
    exact small _ List.mem_cons_self (by simp [CapitalRun.Holds, dotted])
  refine ⟨?_, ?_⟩
  · rcases lowerChar_cases undotted with ⟨same, _⟩ | ⟨run, member, holds, _⟩
    · exact same
    · exact absurd holds (small run (List.mem_cons_of_mem _ member))
  · intro sigma
    have listed : ((0x3a3, 0x3ab, 1, 32) : CapitalRun) ∈ CapitalRun.all := by decide +kernel
    exact small _ listed (by simp [CapitalRun.Holds, sigma])

theorem small_of_check {n : Nat}
    (check : (CapitalRun.all.all fun run =>
      !(run.1 ≤ n && n ≤ run.2.1 && (n - run.1) % run.2.2.1 == 0)) = true) : Small n := by
  rintro run member ⟨low, high, step⟩
  have := List.all_eq_true.mp check run member
  simp [low, high, step] at this

theorem small_lowerChar {c d : Char} (member : d ∈ lowerChar c) : Small d.toNat := by
  by_cases dotted : c.toNat = 0x130
  · have letters : lowerChar c = ['i', Char.ofNat 0x307] := by simp [lowerChar, dotted]
    rw [letters] at member
    rcases List.mem_cons.mp member with rfl | member
    · exact small_of_check (by decide +kernel)
    · rw [List.mem_singleton.mp member]
      exact small_of_check (by decide +kernel)
  · rcases lowerChar_cases dotted with ⟨same, small⟩ | ⟨run, listed, holds, shifted⟩
    · rw [same] at member
      rwa [List.mem_singleton.mp member]
    · rw [shifted] at member
      rw [List.mem_singleton.mp member]
      exact small_ofNat (small_shifted listed holds)

theorem small_lowerAfter {before s : List Char} {d : Char} (member : d ∈ lowerAfter before s) :
    Small d.toNat := by
  induction s generalizing before with
  | nil => cases member
  | cons c r ih =>
    rcases List.mem_append.mp member with here | later
    · split at here
      · rw [List.mem_singleton.mp here]
        apply small_ofNat
        split <;> exact small_of_check (by decide +kernel)
      · exact small_lowerChar here
    · exact ih later

theorem lowerAfter_of_small {before s : List Char} (small : ∀ c ∈ s, Small c.toNat) :
    lowerAfter before s = s := by
  induction s generalizing before with
  | nil => rfl
  | cons c r ih =>
    obtain ⟨here, later⟩ := List.forall_mem_cons.mp small
    obtain ⟨same, other⟩ := lowerChar_of_small here
    have apart : (c.toNat == 0x3A3) = false := beq_eq_false_iff_ne.mpr other
    simp only [lowerAfter, apart, Bool.false_eq_true, if_false, same, ih later,
      List.singleton_append]

/-- Lower case taken again changes nothing: the small letters of one run of capitals are in no run
themselves. -/
theorem lower_lower (s : List Char) : lower (lower s) = lower s :=
  lowerAfter_of_small fun _ => small_lowerAfter

theorem lowered_lowered (s : String) : lowered (lowered s) = lowered s := by
  rw [lowered, lowered, String.toList_ofList, lower_lower]

end SheetDoc.Text
