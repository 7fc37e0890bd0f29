import SheetDoc.Config.Basic
import SheetDoc.Record.Access

namespace SheetDoc

/-- The group that a record is ordered by, in small letters. -/
def Record.primaryGroup (r : Record) (defaultGroup : String) : String :=
  Text.lowered (r.group.headD defaultGroup)

/-- Adds a key unless it is there. -/
def addDistinct (keys : List String) (key : String) : List String :=
  if keys.contains key then keys else keys ++ [key]

/-- The groups by rank: the configured ones first, then the others as the records come. -/
def groupRanks (groups : List String) (defaultGroup : String) (rs : List Record) : List String :=
  (groups.map Text.lowered ++ rs.map (·.primaryGroup defaultGroup)).foldl addDistinct []

/-- What a record is ordered by, the weightier parts first. -/
structure SortKey where
  rank : Nat
  path : String
  line : Int
  /-- The text that a tag has put in the place of the line. -/
  words : Option String
  name : String
  deriving DecidableEq, Repr

def SortKey.compare (a b : SortKey) : Ordering :=
  (Ord.compare a.rank b.rank).then
    ((Ord.compare a.path b.path).then
      ((Ord.compare a.line b.line).then
        ((Ord.compare (a.words.getD "") (b.words.getD "")).then (Ord.compare a.name b.name))))

/-- Between a text and a line there is no order, so the records of one group and file have to have
the one or the other. -/
def SortKey.clashes (a b : SortKey) : Bool :=
  a.rank = b.rank && a.path = b.path && a.words.isSome != b.words.isSome

def Record.sortKey (r : Record) (ranks : List String) (defaultGroup : String) :
    Except Misuse SortKey := do
  let path ← r.readPath
  let rank := ranks.idxOf (r.primaryGroup defaultGroup)
  match r.lineValue with
  | .data (.scalar (.text s)) => return ⟨rank, path, 0, some s, r.name⟩
  | _ => return ⟨rank, path, r.line, none, r.name⟩

/-- Puts records in order; records of one key stay as they come. -/
def sortRecords (groups : List String) (defaultGroup : String) (rs : List Record) :
    Except Misuse (List Record) := do
  let ranks := groupRanks groups defaultGroup rs
  let keyed ← rs.mapM fun r => do return (← r.sortKey ranks defaultGroup, r)
  let keys := keyed.map (·.1)
  if (keys.filter (·.words.isSome)).any fun a => keys.any a.clashes then
    .error (.unordered .text .int)
  else
    return (keyed.mergeSort fun a b => (a.1.compare b.1).isLE).map (·.2)

/-- The access level that decides; without one a record is public. -/
def Record.accessLevel (r : Record) : String :=
  match r.access with
  | some level => if level = "" then "public" else level
  | none => "public"

/-- Whether the access level of a record is among the given ones. A list can be among nothing. -/
def Record.isAccessible (r : Record) (levels : List String) : Except Misuse Bool :=
  match r.strayValue? .access with
  | none => .ok (levels.contains r.accessLevel)
  | some (.list (_ :: _)) => .error (.unhashable .list)
  | some v => .ok (!v.truthy && levels.contains r.accessLevel)

/-- The records of the given access levels. -/
def keepAccess (levels : List String) (rs : List Record) : Except Misuse (List Record) :=
  rs.filterM (·.isAccessible levels)

/-- The access levels that a setting lists. -/
def accessLevels (setting : Data) : Except Misuse (List String) :=
  match setting.elements? with
  | none => .error (.notIterable setting.shape)
  | some items =>
    items.foldlM
      (fun levels item =>
        match item with
        | .scalar (.text level) => .ok (levels ++ [level])
        | .scalar _ => .ok levels
        | other => .error (.unhashable other.shape))
      []

end SheetDoc
