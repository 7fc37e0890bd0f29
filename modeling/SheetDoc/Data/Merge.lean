import SheetDoc.Assoc
import SheetDoc.Data.Basic

namespace SheetDoc.Data

mutual

/-- Two mappings are merged; otherwise the update stands. -/
def merge (base : Data) : Data → Data
  | .map update =>
    match base with
    | .map entries => .map (mergeEntries entries update)
    | _ => .map update
  | .list items => .list items
  | .scalar value => .scalar value

/-- Keys of the base keep their places, new keys follow in the order of the update. -/
def mergeEntries (base : Assoc Scalar Data) : Assoc Scalar Data → Assoc Scalar Data
  | [] => base
  | entry :: rest =>
    mergeEntries (base.set entry.1 (mergeEntry (base.get? entry.1) entry)) rest

/-- The value to store for an entry of the update whose key may already have one. -/
def mergeEntry (current : Option Data) : Scalar × Data → Data
  | (_, value) =>
    match current with
    | some old => merge old value
    | none => value

end

end SheetDoc.Data
