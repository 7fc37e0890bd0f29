import SheetDoc.Extraction
import SheetDoc.Linking
import SheetDoc.Order

namespace SheetDoc

/-- A run over the files of a project. Files are parsed one at a time, and one that fails does not touch
the others; once the last one is in, the run is finished. -/
structure Run where
  config : Config
  extractor : Extractor
  store : Store
  events : List Event := []
  /-- The files that could not be processed. -/
  failures : List Event := []
  finished : Bool := false

namespace Run

/-- What the run will parse with: the tags of every run or the given ones, and further
ones. They cannot change any more. -/
def prepare (c : Config) (more : List Tag) (given : Option Registry) :
    Except Failure Extractor := do
  let g ←
    match given with
    | none => (Registry.standard c more).mapError Failure.registry
    | some g =>
      match Registry.registerAll more g with
      | (g, none) => pure g
      | (_, some fault) => .error (.registry fault)
  Extractor.make g.freeze c

/-- A run before its first file. -/
def opened (c : Config) (x : Extractor) : Run :=
  { config := c, extractor := x, store := { referenceMatch := c.referenceMatch } }

/-- Starts a run. What is wrong with its tags is reported as fatal. -/
def start (settings : Assoc Scalar Data) (more : List Tag) (given : Option Registry) :
    Report Run :=
  match Config.build settings with
  | .error failure => .fail failure
  | .ok c =>
    match prepare c more given with
    | .ok x => .done (opened c x)
    | .error (.registry fault) =>
      ⟨[.fatal fault.message none none], .error (.registry fault)⟩
    | .error failure => .fail failure

/-- Notes that a file could not be processed. -/
def fail (run : Run) (path words : String) : Run :=
  let event : Event := .warning "file" ("Failed to process file: " ++ words) (some path) none
  { run with events := run.events ++ [event], failures := run.failures ++ [event] }

/-- Parses the text of a file and adds its records, all of them or none. -/
def addSource (run : Run) (path text : String) : Run × Except Failure (List Record) :=
  if run.finished then (run, .error .finished)
  else
    let file := FileRef.ofPath path
    let report := run.extractor.parseSource text file
    let run := { run with events := run.events ++ report.events }
    match report.result with
    | .error failure => (run.fail file.path failure.message, .ok [])
    | .ok found =>
      match run.store.extend found.records with
      | (store, some failure) => ({ run with store := store }, .error failure)
      | (store, none) =>
        ({ run with
            store := { store with
              groupDescriptions := store.groupDescriptions.update found.groupDescriptions } },
          .ok (store.records.drop run.store.size))

/-- Decodes a file and parses it. -/
def addFile (run : Run) (path : String) (bytes : List UInt8) : Run × Except Failure (List Record) :=
  match Text.utf8Decode bytes with
  | .error fault =>
    (run.fail (Path.ofString path).text (Failure.encoding fault).message, .ok [])
  | .ok text => run.addSource path text

/-- Gives each record without one the description of its group. -/
def attachDescriptions (s : Store) (defaultGroup : String) : Store :=
  { s with
    records := s.records.map fun r =>
      match r.groupDescription, r.strayValue? .groupDescription with
      | none, none =>
        { r with groupDescription := s.groupDescriptions.get? (r.primaryGroup defaultGroup) }
      | _, _ => r }

/-- The records of a linked store in order, those of the wanted access levels. -/
def collect (c : Config) (s : Store) : Except Failure (List Record) := do
  let ordered ← sortRecords c.groups.keys c.defaultGroup s.records
  let levels ← accessLevels c.access
  keepAccess levels ordered

/-- Goes on from the linked store to the records, unless linking has failed. -/
def conclude (run : Run) (linked : Linking × Option Failure) : Run × Except Failure (List Record) :=
  let (linking, failure) := linked
  let run := { run with store := linking.store, events := run.events ++ linking.events }
  match failure with
  | some failure => (run, .error failure)
  | none =>
    let store := attachDescriptions run.store run.config.defaultGroup
    ({ run with store := store }, collect run.config store)

/-- Links, orders and filters everything added so far. The run is closed from here on, also when
this fails. -/
def finish (run : Run) : Run × Except Failure (List Record) :=
  if run.finished then (run, .error .finished)
  else
    let run := { run with finished := true }
    match run.config.isStrict, run.failures with
    | true, first :: _ =>
      ({ run with events := run.events ++ [.fatal first.message first.file none] },
        .error (.strict first.text))
    | _, _ => run.conclude (run.store.link run.extractor.registry run.config.isStrict)

end Run

end SheetDoc
