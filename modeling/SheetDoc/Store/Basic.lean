import SheetDoc.Record.Access

namespace SheetDoc

/-- Whether a look-up that names a kind may fall back to a record of another kind. -/
inductive ReferenceMatch
  | preferType
  | exactType
  deriving DecidableEq, Repr, Inhabited

def ReferenceMatch.word : ReferenceMatch → String
  | preferType => "prefer_type"
  | exactType => "exact_type"

def ReferenceMatch.ofWord? : String → Option ReferenceMatch
  | "prefer_type" => some preferType
  | "exact_type" => some exactType
  | _ => none

/-- The records of a run in the order in which they were added, with look-ups by name and by kind and
name. The last declaration of a name wins. -/
structure Store where
  referenceMatch : ReferenceMatch := .preferType
  records : List Record := []
  groupDescriptions : Assoc String String := []
  byKey : Assoc (Kind × String) Nat := []
  byName : Assoc String Nat := []
  deriving Inhabited

namespace Store

def size (s : Store) : Nat := s.records.length

/-- Appends a record and gives it its index. Unknown constructs cannot be looked up. A declaration
that repeats an earlier one is looked at by its path, and without one it stays out of look-ups. -/
def add (r : Record) (s : Store) : Store × Option Failure :=
  let uid := s.size
  let stored :=
    { s with records := s.records ++ [({ r with uid := uid } : Record).settle .uid] }
  if r.kind = .unknown then (stored, none)
  else
    match s.byKey.has (r.kind, r.name), r.readPath with
    | true, .error fault => (stored, some (.misuse fault))
    | _, _ =>
      ({ stored with
          byKey := s.byKey.set (r.kind, r.name) uid
          byName := s.byName.set r.name uid },
        none)

def extend (rs : List Record) (s : Store) : Store × Option Failure := eachUntil add rs s

/-- The record at an index; negative indexes count from the end. -/
def at? (s : Store) (uid : Int) : Option Record :=
  if 0 ≤ uid then s.records[uid.toNat]?
  else if 0 ≤ s.size + uid then s.records[(s.size + uid).toNat]?
  else none

def get (s : Store) (uid : Int) : Except Failure Record :=
  match s.at? uid with
  | some r => .ok r
  | none => .error (.misuse .outOfRange)

/-- The index under which a name, preferably of the given kind, is found. -/
def findUid? (s : Store) (name : String) (kind : Option Kind) : Option Nat :=
  match kind with
  | none => s.byName.get? name
  | some k =>
    match s.byKey.get? (k, name) with
    | some uid => some uid
    | none => if s.referenceMatch = .exactType then none else s.byName.get? name

def find? (s : Store) (name : String) (kind : Option Kind) : Option Record :=
  (s.findUid? name kind).bind fun uid => s.records[uid]?

/-- A look-up by the word for a kind. A word for no kind matches no record by kind. -/
def findByWord? (s : Store) (name : String) (word : Option String) : Option Record :=
  match word with
  | none => s.find? name none
  | some w =>
    match Kind.ofWord? w with
    | some k => s.find? name (some k)
    | none => if s.referenceMatch = .exactType then none else s.find? name none

/-- Changes the record at an index. -/
def modify (s : Store) (uid : Int) (f : Record → Record) : Store :=
  { s with records := s.records.modify uid.toNat f }

theorem at?_mem {s : Store} {uid : Int} {r : Record} (found : s.at? uid = some r) :
    r ∈ s.records := by
  unfold at? at found
  split at found
  · exact List.mem_of_getElem? found
  · split at found
    · exact List.mem_of_getElem? found
    · cases found

theorem find?_mem {s : Store} {name : String} {kind : Option Kind} {r : Record}
    (found : s.find? name kind = some r) : r ∈ s.records := by
  obtain ⟨_, _, at_uid⟩ := Option.bind_eq_some_iff.mp found
  exact List.mem_of_getElem? at_uid

theorem size_add (s : Store) (r : Record) : (s.add r).1.size = s.size + 1 := by
  unfold add
  simp only
  split
  · simp [size]
  · split <;> simp [size]

end Store

end SheetDoc
