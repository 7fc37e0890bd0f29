import SheetDoc.Store.Basic

namespace SheetDoc.Store

/-- The record that the first name of an alias leads to. -/
def aliasTarget? (s : Store) (r : Record) : Option Record :=
  r.aliases.head?.bind fun name => s.find? name (some r.kind)

/-- The records that a walk has not visited. -/
def unvisited (s : Store) (visited : List Int) : List Record :=
  s.records.filter fun r => !visited.contains r.uid

theorem length_filter_lt {α : Type} {p q : α → Bool} {l : List α} (stronger : ∀ a, p a → q a)
    {a : α} (member : a ∈ l) (kept : q a) (dropped : p a = false) :
    (l.filter p).length < (l.filter q).length := by
  induction l with
  | nil => cases member
  | cons b r ih =>
    have weaker : ∀ l : List α, (l.filter p).length ≤ (l.filter q).length := by
      intro l
      induction l with
      | nil => simp
      | cons c t it =>
        by_cases hp : p c
        · simp [hp, stronger c hp, it]
        · by_cases hq : q c <;> simp [hp, hq] <;> omega
    rcases List.mem_cons.mp member with rfl | inside
    · simp only [List.filter_cons, dropped, kept]
      simpa using Nat.lt_succ_of_le (weaker r)
    · have shorter := ih inside
      by_cases hp : p b
      · simp [hp, stronger b hp, shorter]
      · by_cases hq : q b <;> simp [hp, hq] <;> omega

theorem unvisited_append_lt {s : Store} {r : Record} {visited : List Int} (member : r ∈ s.records)
    (fresh : ¬visited.contains r.uid) :
    (s.unvisited (visited ++ [r.uid])).length < (s.unvisited visited).length := by
  apply length_filter_lt (a := r) _ member
  · simpa using fresh
  · simp
  · intro a h
    simp only [List.contains_eq_mem, List.mem_append, List.mem_singleton, Bool.not_eq_true',
      decide_eq_false_iff_not] at h ⊢
    exact fun inside => h (Or.inl inside)

/-- Walks on from `current`, the last of the visited records, whose names are the chain. -/
def followAlias (s : Store) (current : Record) (visited : List Int) (chain : List String) :
    Except Failure Record :=
  match _found : s.aliasTarget? current with
  | none => .ok current
  | some target =>
    if _seen : visited.contains target.uid then
      .error (.aliasCycle (chain ++ [target.name]) (visited.dropWhile (· != target.uid)))
    else s.followAlias target (visited ++ [target.uid]) (chain ++ [target.name])
termination_by (s.unvisited visited).length
decreasing_by
  obtain ⟨_, _, at_name⟩ := Option.bind_eq_some_iff.mp _found
  exact unvisited_append_lt (find?_mem at_name) _seen

/-- The record that a chain of aliases finally stands for. A chain that loops fails with the names
it went through and the indexes of the records on the loop. -/
def resolveAlias (s : Store) (r : Record) : Except Failure Record :=
  s.followAlias r [r.uid] [r.name]

end SheetDoc.Store
