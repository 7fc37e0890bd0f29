import SheetDoc.Tag.Registry
import SheetDoc.Event
import SheetDoc.Record.ToData
import SheetDoc.Store.Usage

namespace SheetDoc

/-- A store in the course of being linked. Problems are events that a strict run does not pass. -/
structure Linking where
  store : Store
  events : List Event := []
  problems : List Event := []

namespace Linking

/-- Reports a problem with a record. -/
def problem (r : Record) (message : String) (l : Linking) : Linking × Option Failure :=
  match r.readPath with
  | .error fault => (l, some (.misuse fault))
  | .ok path =>
    let event : Event := .warning "resolution" message (some path) (some r.line)
    ({ l with events := l.events ++ [event], problems := l.problems ++ [event] }, none)

def notice (r : Record) (message : String) (l : Linking) : Linking × Option Failure :=
  match r.readPath with
  | .error fault => (l, some (.misuse fault))
  | .ok path =>
    ({ l with events := l.events ++ [.notice "cycle" message (some path) (some r.line)] }, none)

def modify (l : Linking) (uid : Int) (f : Record → Record) : Linking :=
  { l with store := l.store.modify uid f }

/-- Changes the record at an index, if it can be changed in this way. -/
def change (uid : Int) (f : Record → Except Misuse Record) (l : Linking) :
    Linking × Option Failure :=
  match (l.store.at? uid).map f with
  | none => (l, none)
  | some (.error fault) => (l, some (.misuse fault))
  | some (.ok changed) => (l.modify uid fun _ => changed, none)

/-- Goes on when the step before has not failed. -/
def andThen (done : Linking × Option Failure) (next : Linking → Linking × Option Failure) :
    Linking × Option Failure :=
  match done with
  | (l, none) => next l
  | failed => failed

/-- The chain of names in a cycle of aliases that goes through the record itself, when its alias
for the target closes one. A cycle elsewhere does not count. -/
def aliasCycle? (s : Store) (r target : Record) : Option (List String) :=
  if target.uid = r.uid then some [r.name, target.name]
  else
    match s.resolveAlias target with
    | .error (.aliasCycle chain cycle) => if cycle.contains r.uid then some chain else none
    | _ => none

/-- Whether a field holds a reference. -/
def holds (reference : Reference) (f : Field) (own : List Item) (r : Record) :
    Except Misuse Bool :=
  match r.strayValue? f with
  | some (.data (.scalar (.text _))) => .error .notInText
  | some v => .error (.notContainer v.shape)
  | none => .ok ((own ++ r.tail f).any (Item.same (.reference reference)))

/-- Notes that a record is an alias of the target. -/
def addAliased (r target : Record) : Except Misuse Record := do
  let reference ← r.refer
  if ← holds reference .aliased (target.aliased.map .reference) target then return target
  else
    target.adding .aliased (.reference reference) fun target =>
      { target with aliased := target.aliased ++ [reference] }

/-- Links one name that a record is an alias of. -/
def linkAlias (r : Record) (name : String) (l : Linking) : Linking × Option Failure :=
  match l.store.find? name (some r.kind) with
  | none =>
    problem r
      ("Item `" ++ r.name ++ "` is an alias of `" ++ name ++ "` but this item doesn't exist.")
      l
  | some target =>
    match aliasCycle? l.store r target with
    | some chain =>
      notice r
        ("Item `" ++ r.name ++ "` is part of an alias cycle: " ++ (Data.texts chain).literal)
        l
    | none => change target.uid (addAliased r) l

/-- What stands in place of the names has to be something to go through. -/
def linkRecordAliases (r : Record) (l : Linking) : Linking × Option Failure :=
  match r.strayValue? .aliasOf with
  | some v =>
    if v.items?.isNone then (l, some (.misuse (.notIterable v.shape)))
    else eachUntil (linkAlias r) r.aliases l
  | none => eachUntil (linkAlias r) r.aliases l

def linkAliases (rs : List Record) (l : Linking) : Linking × Option Failure :=
  eachUntil linkRecordAliases rs l

def setItem (index : Nat) (item : Reference) (r : Record) : Record :=
  { r with requires := r.requires.modify index fun e => { e with item := some item } }

def addCircular (target : Record) : Except Misuse Record :=
  target.adding .usedBy (.text circularWord) fun target =>
    { target with usedBy := target.usedBy ++ [.circular] }

def addUser (r target : Record) : Except Misuse Record := do
  let user ← r.refer
  if ← holds user .usedBy (target.usedBy.map .ofUsage) target then return target
  else
    target.adding .usedBy (.reference user) fun target =>
      { target with usedBy := target.usedBy ++ [.user user] }

/-- Links a requirement of a record to what it requires. Where the record leads to that along its
users, a new user would close a cycle, and the mark of a cut stands in its place. -/
def linkTarget (r target : Record) (l : Linking) : Linking × Option Failure :=
  match l.store.reaches r target with
  | .error failure => (l, some failure)
  | .ok true =>
    andThen (change target.uid addCircular l)
      (notice r ("Usage cycle between `" ++ r.name ++ "` and `" ++ target.name ++ "`"))
  | .ok false => change target.uid (addUser r) l

/-- Links one requirement of a record. -/
def linkRequire (r : Record) (entry : Require × Nat) (l : Linking) : Linking × Option Failure :=
  let (e, index) := entry
  match l.store.find? e.name (some e.kind) with
  | none =>
    if e.autofill then (l, none)
    else
      problem r
        ("Item `" ++ r.name ++ "` requires `" ++ e.name ++ "` from type `" ++ e.kind.word ++
          "` but this item doesn't exist.")
        l
  | some target =>
    match target.refer with
    | .error fault => (l, some (.misuse fault))
    | .ok reference => linkTarget r target (l.modify r.uid (setItem index reference))

/-- What the code suggests is dropped where no record answers to it. -/
def dropUnfound (s : Store) (r : Record) : Record :=
  { r with
    requires := r.requires.filter fun e =>
      !e.autofill || (s.find? e.name (some e.kind)).isSome }

def linkRecord (r : Record) (l : Linking) : Linking × Option Failure :=
  andThen (eachUntil (linkRequire r) r.requires.zipIdx l) fun l =>
    match r.flaw .require "name" with
    | .error fault => (l, some (.misuse fault))
    | .ok _ => (l.modify r.uid fun r => (dropUnfound l.store r).settle .require, none)

def linkRequires (rs : List Record) (l : Linking) : Linking × Option Failure :=
  eachUntil linkRecord rs l

/-- Runs the resolve step of one tag on the record at an index. A problem is reported with the record
as the step has left it. -/
def resolveRecord (a : Tag) (step : Store → Record → Record × Except Failure (List String))
    (uid : Int) (l : Linking) : Linking × Option Failure :=
  match l.store.at? uid with
  | none => (l, none)
  | some r =>
    let (linked, found) := step l.store r
    let l := l.modify uid fun _ => linked
    match found with
    | .error failure =>
      problem linked
        ("Annotation `" ++ a.name ++ "` failed to resolve `" ++ linked.name ++ "`: " ++
          failure.message)
        l
    | .ok messages => eachUntil (problem linked) messages l

/-- Runs the resolve step of one tag on every record. -/
def resolveTag (uids : List Int) (a : Tag) (l : Linking) : Linking × Option Failure :=
  match a.resolve with
  | none => (l, none)
  | some step => eachUntil (resolveRecord a step) uids l

def resolveAll (g : Registry) (uids : List Int) (l : Linking) : Linking × Option Failure :=
  eachUntil (resolveTag uids) g.toList l

end Linking

/-- The records that take part in linking. -/
def Store.known (s : Store) : List Record := s.records.filter (·.kind ≠ .unknown)

/-- Links the known records of a store in all respects. Aliases come first, then requirements, and at
last the resolve steps of the tags, which can rely on both. -/
def Store.phases (g : Registry) (s : Store) : Linking × Option Failure :=
  let known := s.known
  let aliased := Linking.linkAliases known { store := s }
  let required := Linking.andThen aliased (Linking.linkRequires known)
  Linking.andThen required (Linking.resolveAll g (known.map (·.uid)))

/-- In a strict run the first problem is fatal. -/
def Linking.escalate (strict : Bool) (l : Linking) : Linking × Option Failure :=
  match strict, l.problems with
  | true, first :: _ =>
    ({ l with events := l.events ++ [.fatal first.message first.file first.line] },
      some (.strict first.text))
  | _, _ => (l, none)

/-- Links the known records of a store and passes on what a strict run does not bear. -/
def Store.link (g : Registry) (strict : Bool) (s : Store) : Linking × Option Failure :=
  Linking.andThen (s.phases g) (Linking.escalate strict)

end SheetDoc
