import Mathlib.Algebra.Ring.Periodic
import Mathlib.Data.Nat.Periodic
import SheetDoc.Proofs.Store.Aliases

namespace SheetDoc

section Walk

variable {α : Type} {next : α → Option α} {a b c : α} {j k n m : Nat}

/-- Where a walk is after a number of steps, nowhere once it has ended. -/
def walk (next : α → Option α) (a : α) : Nat → Option α
  | 0 => some a
  | n + 1 => (walk next a n).bind next

/-- The walk comes to `b` again and again. -/
def Recurs (next : α → Option α) (a b : α) : Prop := ∀ n, ∃ m, n ≤ m ∧ walk next a m = some b

/-- The walk is at step `k` for the first time where it has been before. -/
def FirstReturn (next : α → Option α) (a : α) (k : Nat) : Prop :=
  (∃ j, j < k ∧ walk next a j = walk next a k) ∧
    ∀ i j, i < j → j < k → walk next a i ≠ walk next a j

/-- Past its end a walk is nowhere. -/
theorem walk_past_end (atN : walk next a n = some b) (ends : next b = none) (later : n < m) :
    walk next a m = none := by
  induction m, later using Nat.le_induction with
  | base => rw [walk, atN, Option.bind_some, ends]
  | succ m _ ih => rw [walk, ih, Option.bind_none]

theorem walk_end_unique (atN : walk next a n = some b) (ends : next b = none)
    (atM : walk next a m = some c) (ends' : next c = none) : b = c := by
  rcases Nat.lt_trichotomy n m with before | rfl | after
  · cases (walk_past_end atN ends before).symm.trans atM
  · exact Option.some.inj (atN.symm.trans atM)
  · cases (walk_past_end atM ends' after).symm.trans atN

/-- A walk that comes to a place again and again does not end. -/
theorem Recurs.not_ends (recurs : Recurs next a b) (atN : walk next a n = some c) :
    next c ≠ none := by
  intro ends
  obtain ⟨m, later, atM⟩ := recurs (n + 1)
  cases (walk_past_end atN ends later).symm.trans atM

theorem walk_congr (same : walk next a j = walk next a k) (n : Nat) :
    walk next a (j + n) = walk next a (k + n) := by
  induction n with
  | zero => exact same
  | succ n ih => exact congrArg (·.bind next) ih

/-- From a place on, the walk repeats itself once it is back at that place. -/
theorem walk_periodic (before : j < k) (same : walk next a j = walk next a k) :
    Function.Periodic (fun n => walk next a (j + n)) (k - j) := by
  intro n
  have forth : j + (n + (k - j)) = k + n := by omega
  exact (congrArg (walk next a) forth).trans (walk_congr same n).symm

/-- What a walk that is back comes to again and again is what it has met since. -/
theorem recurs_iff_of_return (before : j < k) (same : walk next a j = walk next a k) :
    Recurs next a b ↔ ∃ i, j ≤ i ∧ i < k ∧ walk next a i = some b := by
  have periodic := walk_periodic before same
  constructor
  · intro recurs
    obtain ⟨m, late, atM⟩ := recurs j
    have short : (m - j) % (k - j) < k - j := Nat.mod_lt _ (by omega)
    refine ⟨j + (m - j) % (k - j), by omega, by omega, ?_⟩
    have back : walk next a (j + (m - j) % (k - j)) = walk next a (j + (m - j)) :=
      periodic.map_mod_nat (m - j)
    rw [back, Nat.add_sub_cancel' late, atM]
  · rintro ⟨i, late, early, atI⟩ n
    have round : walk next a (j + (i - j + n * (k - j))) = walk next a (j + (i - j)) :=
      periodic.nat_mul n (i - j)
    have far : n ≤ n * (k - j) := Nat.le_mul_of_pos_right n (by omega)
    refine ⟨j + (i - j + n * (k - j)), by omega, ?_⟩
    rw [round, Nat.add_sub_cancel' late, atI]

end Walk

namespace Store

variable {s : Store} {r origin current : Record}

/-- No two records share an index. -/
def Identified (s : Store) : Prop :=
  ∀ r ∈ s.records, ∀ t ∈ s.records, r.uid = t.uid → r = t

theorem Placed.identified (placed : s.Placed) : s.Identified :=
  fun _ inside _ other same => placed.eq_of_uid_eq inside other same

/-- The record that a number of steps along first names leads to. -/
def aliasWalk (s : Store) (r : Record) : Nat → Option Record := walk s.aliasTarget? r

/-- The records that a walk along first names goes through, as long as it meets none of them
twice. -/
structure Walked (s : Store) (origin : Record) (steps : List Record) : Prop where
  inside : ∀ t ∈ steps, t ∈ s.records
  visits : ∀ i, i < steps.length → s.aliasWalk origin i = steps[i]?
  apart : (steps.map (·.uid)).Nodup

namespace Walked

variable {steps : List Record} {t : Record}

theorem start (member : origin ∈ s.records) : s.Walked origin [origin] where
  inside := by simpa using member
  visits := by
    intro i short
    obtain rfl : i = 0 := by simpa using short
    rfl
  apart := List.nodup_singleton _

theorem last (walked : s.Walked origin (steps ++ [current])) :
    s.aliasWalk origin steps.length = some current := by
  rw [walked.visits _ (by simp), List.getElem?_concat_length]

theorem next (walked : s.Walked origin (steps ++ [current])) :
    s.aliasWalk origin (steps ++ [current]).length = s.aliasTarget? current := by
  rw [List.length_append, List.length_singleton, aliasWalk, walk]
  exact congrArg (·.bind s.aliasTarget?) walked.last

theorem concat (walked : s.Walked origin (steps ++ [current]))
    (found : s.aliasTarget? current = some t)
    (fresh : t.uid ∉ (steps ++ [current]).map (·.uid)) :
    s.Walked origin (steps ++ [current] ++ [t]) where
  inside := by
    intro u member
    rcases List.mem_append.mp member with old | new
    · exact walked.inside u old
    · exact List.mem_singleton.mp new ▸ aliasTarget?_mem found
  visits := by
    intro i short
    by_cases old : i < (steps ++ [current]).length
    · rw [walked.visits i old, List.getElem?_append_left old]
    · obtain rfl : i = (steps ++ [current]).length := by
        rw [List.length_append, List.length_singleton] at short
        omega
      rw [walked.next, found, List.getElem?_concat_length]
  apart := by
    rw [List.map_append, List.map_singleton, ← List.concat_eq_append]
    exact (List.nodup_concat _ _).mpr ⟨fresh, walked.apart⟩

/-- What is cut off before a visited index is what came before its record. -/
theorem dropWhile_uid (walked : s.Walked origin steps) {front rest : List Record}
    (split : steps = front ++ t :: rest) :
    (steps.map (·.uid)).dropWhile (· != t.uid) = (steps.drop front.length).map (·.uid) := by
  have apart := walked.apart
  rw [split, List.map_append, List.map_cons, List.nodup_append] at apart
  have before : ∀ uid ∈ front.map (·.uid), (uid != t.uid) = true := by
    intro uid early
    simpa using apart.2.2 uid early t.uid List.mem_cons_self
  rw [split, List.drop_left, List.map_append, List.dropWhile_append_of_pos before, List.map_cons,
    List.dropWhile_cons_of_neg (by simp)]

/-- A walk that is back for the first time has met everything else once. -/
theorem firstReturn (walked : s.Walked origin steps) {j : Nat} (met : steps[j]? = some t)
    (back : s.aliasWalk origin steps.length = some t) :
    FirstReturn s.aliasTarget? origin steps.length := by
  obtain ⟨short, _⟩ := List.getElem?_eq_some_iff.mp met
  refine ⟨⟨j, short, ((walked.visits j short).trans met).trans back.symm⟩, ?_⟩
  intro i j before short same
  change s.aliasWalk origin i = s.aliasWalk origin j at same
  rw [walked.visits i (before.trans short), walked.visits j short] at same
  have uids : (steps.map (·.uid))[i]? = (steps.map (·.uid))[j]? := by
    rw [List.getElem?_map, List.getElem?_map, same]
  have long : i < (steps.map (·.uid)).length := by
    rw [List.length_map]
    exact before.trans short
  exact absurd ((List.getElem?_inj long walked.apart).mp uids) before.ne

theorem filterMap_range (walked : s.Walked origin steps)
    (back : s.aliasWalk origin steps.length = some t) :
    (List.range (steps.length + 1)).filterMap (s.aliasWalk origin) = steps ++ [t] := by
  have met : (List.range steps.length).map (s.aliasWalk origin) = steps.map some := by
    refine List.ext_getElem (by simp) fun i short _ => ?_
    have short : i < steps.length := by simpa using short
    simp [walked.visits i short]
  have passed : (List.range steps.length).filterMap (s.aliasWalk origin) = steps := by
    simpa [List.filterMap_map] using congrArg (List.filterMap id) met
  rw [List.range_succ, List.filterMap_append, passed]
  simp [back]

/-- The walk meets again and again what it has met since it was first where it is back. -/
theorem mem_drop_iff (walked : s.Walked origin steps) {j : Nat} (met : steps[j]? = some t)
    (back : s.aliasWalk origin steps.length = some t) (b : Record) :
    b ∈ steps.drop j ↔ Recurs s.aliasTarget? origin b := by
  obtain ⟨short, _⟩ := List.getElem?_eq_some_iff.mp met
  have same : s.aliasWalk origin j = s.aliasWalk origin steps.length :=
    ((walked.visits j short).trans met).trans back.symm
  rw [recurs_iff_of_return short same]
  constructor
  · intro member
    obtain ⟨i, inside, rfl⟩ := List.mem_iff_getElem.mp member
    have early : j + i < steps.length := by
      rw [List.length_drop] at inside
      omega
    refine ⟨j + i, by omega, early, ?_⟩
    rw [← aliasWalk, walked.visits _ early, List.getElem_drop, List.getElem?_eq_getElem early]
  · rintro ⟨i, late, early, atI⟩
    rw [← aliasWalk, walked.visits i early] at atI
    refine List.mem_of_getElem? (i := i - j) ?_
    rw [List.getElem?_drop, Nat.add_sub_cancel' late, atI]

end Walked

/-- From where a walk stands it goes on to its end, or to the step at which it is back. -/
theorem Identified.followAlias (identified : s.Identified) {steps : List Record}
    {visited : List Int} {chain : List String} (walked : s.Walked origin (steps ++ [current]))
    (uids : visited = (steps ++ [current]).map (·.uid))
    (names : chain = (steps ++ [current]).map (·.name)) :
    (∃ n t, s.followAlias current visited chain = .ok t ∧ s.aliasWalk origin n = some t ∧
        s.aliasTarget? t = none) ∨
      ∃ steps t j, s.Walked origin steps ∧ steps[j]? = some t ∧
        s.aliasWalk origin steps.length = some t ∧
        s.followAlias current visited chain = .error (.aliasCycle ((steps ++ [t]).map (·.name))
          ((steps.drop j).map (·.uid))) := by
  fun_induction Store.followAlias s current visited chain generalizing steps with
  | case1 current visited chain ends => exact Or.inl ⟨_, current, rfl, walked.last, ends⟩
  | case2 current visited chain t found seen =>
    have met : t.uid ∈ (steps ++ [current]).map (·.uid) := by simpa [uids] using seen
    obtain ⟨u, inside, same⟩ := List.mem_map.mp met
    cases identified u (walked.inside u inside) t (aliasTarget?_mem found) same
    obtain ⟨front, rest, split⟩ := List.append_of_mem inside
    refine Or.inr ⟨_, t, front.length, walked, by simp [split], walked.next.trans found, ?_⟩
    rw [uids, walked.dropWhile_uid split, names]
    simp only [List.map_append, List.map_singleton]
  | case3 current visited chain t found fresh ih =>
    have fresh : t.uid ∉ (steps ++ [current]).map (·.uid) := by simpa [uids] using fresh
    exact ih (walked.concat found fresh) (by simp [uids]) (by simp [names])

/-- Where the walk along first names ends, that record is the answer. Where it does not, following
fails at the first record met before: with the names up to there, and with the indexes of the records
that the walk comes to again and again. -/
theorem resolveAlias_follows (identified : s.Identified) (member : r ∈ s.records) :
    (∀ n t, s.aliasWalk r n = some t → s.aliasTarget? t = none → s.resolveAlias r = .ok t) ∧
      ((¬∃ n t, s.aliasWalk r n = some t ∧ s.aliasTarget? t = none) →
        ∃ k cycle, FirstReturn s.aliasTarget? r k ∧
          s.resolveAlias r = .error (.aliasCycle
            (((List.range (k + 1)).filterMap (s.aliasWalk r)).map (·.name)) cycle) ∧
          cycle.Nodup ∧ ∀ uid, uid ∈ cycle ↔ ∃ t, Recurs s.aliasTarget? r t ∧ t.uid = uid) := by
  have begun : s.Walked r ([] ++ [r]) := .start member
  rcases identified.followAlias begun rfl rfl with
    ⟨n, t, answer, atN, stops⟩ | ⟨steps, t, j, walked, met, back, fails⟩
  · refine ⟨fun n' t' atN' stops' => ?_, fun goesOn => absurd ⟨n, t, atN, stops⟩ goesOn⟩
    rw [← walk_end_unique atN stops atN' stops']
    exact answer
  · have recurs : Recurs s.aliasTarget? r t :=
      (walked.mem_drop_iff met back t).mp (List.mem_of_getElem? (i := 0) (by simpa using met))
    constructor
    · exact fun n' t' atN' stops' => absurd stops' (recurs.not_ends atN')
    · intro _
      refine ⟨steps.length, (steps.drop j).map (·.uid), walked.firstReturn met back, ?_, ?_, ?_⟩
      · rw [walked.filterMap_range back]
        exact fails
      · exact walked.apart.sublist ((List.drop_sublist j steps).map _)
      · intro uid
        simp only [List.mem_map, walked.mem_drop_iff met back]

/-- A function that stands for one of two functions which stand for each other, and one that stands
for nothing known. -/
def tailed : List Record :=
  [{ context := { kind := .function, name := "ease" }, file := ⟨"a.scss", "a.scss"⟩,
     aliases := ["smooth"] },
   { context := { kind := .function, name := "smooth" }, file := ⟨"a.scss", "a.scss"⟩,
     aliases := ["glide"] },
   { context := { kind := .function, name := "glide" }, file := ⟨"a.scss", "a.scss"⟩,
     aliases := ["smooth", "ease"] },
   { context := { kind := .function, name := "halt" }, file := ⟨"a.scss", "a.scss"⟩,
     aliases := ["stop"] }]

theorem resolveAlias_follows_tailed :
    let s := ofRecords .exactType tailed
    (∀ r, s.records[3]? = some r → s.resolveAlias r = .ok r) ∧
      ∀ r, s.records[0]? = some r → ∃ k names cycle,
        (¬∃ n t, s.aliasWalk r n = some t ∧ s.aliasTarget? t = none) ∧
          FirstReturn s.aliasTarget? r k ∧ s.resolveAlias r = .error (.aliasCycle names cycle) ∧
          ∀ uid, uid ∈ cycle ↔ ∃ t, Recurs s.aliasTarget? r t ∧ t.uid = uid := by
  intro s
  have identified : s.Identified := (placed_ofRecords .exactType tailed).identified
  refine ⟨fun r atR => ?_, fun r atR => ?_⟩
  · have stops : s.aliasTarget? r = none := by
      cases atR
      rfl
    exact (resolveAlias_follows identified (List.mem_of_getElem? atR)).1 0 r rfl stops
  · have back : s.aliasWalk r 1 = s.aliasWalk r 3 := by
      cases atR
      rfl
    obtain ⟨smooth, met⟩ : ∃ t, s.aliasWalk r 1 = some t := by
      cases atR
      exact ⟨_, rfl⟩
    have recurs : Recurs s.aliasTarget? r smooth :=
      (recurs_iff_of_return (by decide) back).mpr ⟨1, le_rfl, by decide, met⟩
    have goesOn : ¬∃ n t, s.aliasWalk r n = some t ∧ s.aliasTarget? t = none :=
      fun ⟨_, _, atN, stops⟩ => recurs.not_ends atN stops
    obtain ⟨k, cycle, first, fails, _, ring⟩ :=
      (resolveAlias_follows identified (List.mem_of_getElem? atR)).2 goesOn
    exact ⟨k, _, cycle, goesOn, first, fails, ring⟩

end Store

end SheetDoc
