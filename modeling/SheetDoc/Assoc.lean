namespace SheetDoc

/-- Association lists that keep the order in which their keys were first stored. Keys may be equal
without being the same, as whole numbers of different kinds are; the first key stored then stays. -/
abbrev Assoc (κ : Type) (α : Type) := List (κ × α)

namespace Assoc

variable {κ α : Type} [BEq κ]

def keys (m : Assoc κ α) : List κ := m.map (·.1)

def get? : Assoc κ α → κ → Option α
  | [], _ => none
  | (k, v) :: r, key => if k == key then some v else get? r key

def has (m : Assoc κ α) (key : κ) : Bool := (get? m key).isSome

/-- Replaces the value in place, or adds the key at the end. -/
def set : Assoc κ α → κ → α → Assoc κ α
  | [], key, value => [(key, value)]
  | (k, v) :: r, key, value => if k == key then (k, value) :: r else (k, v) :: set r key value

def erase (m : Assoc κ α) (key : κ) : Assoc κ α := m.filter (fun e => !(e.1 == key))

/-- Stores the entries of `n` one after another. -/
def update (m n : Assoc κ α) : Assoc κ α := n.foldl (fun m e => set m e.1 e.2) m

/-- A repeated key keeps its first place and its last value. -/
def ofList (entries : List (κ × α)) : Assoc κ α := update [] entries

theorem get?_set [PartialEquivBEq κ] (m : Assoc κ α) (key other : κ) (value : α) :
    get? (set m key value) other = if key == other then some value else get? m other := by
  induction m with
  | nil => simp [set, get?]
  | cons e r ih =>
    obtain ⟨k, v⟩ := e
    by_cases hk : (k == key) = true
    · have same : (k == other) = (key == other) := BEq.congr_left hk
      by_cases ho : (key == other) = true <;> simp [set, get?, hk, ho, same]
    · by_cases ho : (k == other) = true
      · have apart : ¬(key == other) = true := fun h => hk (PartialEquivBEq.trans ho (BEq.symm h))
        simp [set, get?, hk, ho, apart]
      · simp [set, get?, hk, ho, ih]

theorem keys_set (m : Assoc κ α) (key : κ) (value : α) :
    keys (set m key value) =
      if (keys m).any (· == key) then keys m else keys m ++ [key] := by
  induction m with
  | nil => simp [set, keys]
  | cons e r ih =>
    obtain ⟨k, v⟩ := e
    by_cases hk : (k == key) = true
    · simp [set, keys, hk]
    · have apart : (k == key) = false := by simpa using hk
      have found : (keys ((k, v) :: r)).any (· == key) = (keys r).any (· == key) := by
        simp [keys, apart]
      have step : keys (set ((k, v) :: r) key value) = k :: keys (set r key value) := by
        simp [set, keys, apart]
      rw [found, step, ih]
      split <;> rfl

end Assoc

end SheetDoc
