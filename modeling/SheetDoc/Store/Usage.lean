import SheetDoc.Store.Alias

namespace SheetDoc

/-- What is not a reference counts as the mark of a cut. -/
def Usage.ofItem : Item → Usage
  | .reference entry => .user entry
  | _ => .circular

/-- The users of a record, whatever is in their place. -/
def Record.usages (r : Record) : Except Misuse (List Usage) :=
  match r.strayValue? .usedBy with
  | none => .ok (r.usedBy ++ (r.tail .usedBy).map .ofItem)
  | some v =>
    match v.items? with
    | some items => .ok (items.map .ofItem)
    | none => .error (.notIterable v.shape)

/-- The users that a record refers to, without the marks of cut cycles. -/
def Record.users (r : Record) : Except Misuse (List Int) :=
  r.usages.map fun usages => usages.filterMap fun
    | .user reference => some reference.uid
    | .circular => none

/-- A user of a record with its own users below it. -/
inductive UsageTree
  | circular
  | user (kind : Kind) (name : String) (users : List UsageTree)

namespace Store

/-- Every index that leads to a record, the negative ones included. -/
def indexes (s : Store) : List Int :=
  (List.range (2 * s.size)).map fun (n : Nat) => (n : Int) - s.size

theorem inside_of_at? {s : Store} {uid : Int} {r : Record} (found : s.at? uid = some r) :
    -(s.size : Int) ≤ uid ∧ uid < s.size := by
  unfold at? at found
  split at found
  · obtain ⟨bound, _⟩ := List.getElem?_eq_some_iff.mp found
    simp only [size]
    omega
  · split at found
    · omega
    · cases found

theorem mem_indexes_of_at? {s : Store} {uid : Int} {r : Record} (found : s.at? uid = some r) :
    uid ∈ s.indexes := by
  simp only [indexes, List.mem_map, List.mem_range]
  have inside := inside_of_at? found
  exact ⟨(uid + s.size).toNat, by omega, by omega⟩

/-- How many indexes a search has not seen. -/
def unseen (s : Store) (seen : List Int) : Nat :=
  (s.indexes.filter fun uid => !seen.contains uid).length

theorem unseen_cons_lt {s : Store} {uid : Int} {seen : List Int} (member : uid ∈ s.indexes)
    (fresh : ¬seen.contains uid) : s.unseen (uid :: seen) < s.unseen seen := by
  apply length_filter_lt (a := uid) _ member
  · simpa using fresh
  · simp
  · intro a h
    simp only [List.contains_eq_mem, List.mem_cons, Bool.not_eq_true', decide_eq_false_iff_not]
      at h ⊢
    exact fun inside => h (Or.inr inside)

/-- Searches for `target` from the indexes on the stack, the last pushed first. -/
def search (s : Store) (target : Int) (seen : List Int) : List Int → Except Failure Bool
  | [] => .ok false
  | uid :: stack =>
    if uid = target then .ok true
    else if _seen : seen.contains uid then s.search target seen stack
    else
      match _found : s.at? uid with
      | none => .error (.misuse .outOfRange)
      | some r =>
        match r.users with
        | .error fault => .error (.misuse fault)
        | .ok users => s.search target (uid :: seen) (users.reverse ++ stack)
termination_by stack => (s.unseen seen, stack.length)
decreasing_by
  · exact Prod.Lex.right _ (Nat.lt_succ_self _)
  · exact Prod.Lex.left _ _ (unseen_cons_lt (mem_indexes_of_at? _found) _seen)

/-- Whether the users of `start`, their users and so on lead to `target`. -/
def reaches (s : Store) (start target : Record) : Except Failure Bool :=
  s.search target.uid [] [start.uid]

/-- The given users as trees. `path` holds the indexes from the root down to the record whose users
they are; a user among them is cut off. Indexes from the end are never among them and may lead back
to a record of the path: `recent` holds the records met since the path last grew, and to meet one
of these again is to go round for ever. -/
def expand (s : Store) (path recent : List Int) (users : List Usage) :
    Except Failure (List UsageTree) :=
  users.mapM fun usage =>
    match usage with
    | .circular => .ok .circular
    | .user reference =>
      if path.contains reference.uid then .ok .circular
      else
        match _found : s.at? reference.uid with
        | none => .error (.misuse .outOfRange)
        | some node =>
          if _onPath : path.contains node.uid then
            if _again : recent.contains node.uid then .error .endless
            else
              match node.usages with
              | .error fault => .error (.misuse fault)
              | .ok below =>
                (s.expand path (recent ++ [node.uid]) below).map (.user node.kind node.name)
          else
            match node.usages with
            | .error fault => .error (.misuse fault)
            | .ok below =>
              (s.expand (path ++ [node.uid]) [node.uid] below).map (.user node.kind node.name)
termination_by ((s.unvisited path).length, (s.unvisited recent).length)
decreasing_by
  · exact Prod.Lex.right _ (unvisited_append_lt (at?_mem _found) _again)
  · exact Prod.Lex.left _ _ (unvisited_append_lt (at?_mem _found) _onPath)

/-- The users of a record with their users below them. -/
def usageTree (s : Store) (r : Record) : Except Failure (List UsageTree) := do
  s.expand [r.uid] [r.uid] (← r.usages)

end Store

end SheetDoc
