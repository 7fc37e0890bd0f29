import SheetDoc.Run.Basic
import SheetDoc.Proofs.Extraction.Typed
import SheetDoc.Proofs.Store.Additions

namespace SheetDoc

namespace Store

/-- A store with what a file gave. -/
def absorb (s : Store) (found : Extractor.FileRecords) : Store :=
  let extended := (s.extend found.records).1
  { extended with
    groupDescriptions := extended.groupDescriptions.update found.groupDescriptions }

theorem records_absorb {found : Extractor.FileRecords} (typed : ∀ r ∈ found.records, r.Typed) (s : Store) :
    (s.absorb found).records = s.records ++ numbered s.size found.records :=
  (extend_of_typed typed s).2

end Store

/-- A call that gives a run one file, as text or as bytes. -/
inductive Call
  | source (path text : String)
  | file (path : String) (bytes : List UInt8)

namespace Call

def apply (run : Run) : Call → Run × Except Failure (List Record)
  | source path text => run.addSource path text
  | file path bytes => run.addFile path bytes

def path : Call → String
  | source path _ | file path _ => path

/-- The text of the file, where its bytes are a text. -/
def text : Call → Except Failure String
  | source _ text => .ok text
  | file _ bytes => (Text.utf8Decode bytes).mapError .encoding

/-- What the file gives by itself. -/
def parsed (x : Extractor) (c : Call) : Except Failure Extractor.FileRecords := do
  (x.parseSource (← c.text) (.ofPath c.path)).result

def succeeds (x : Extractor) (c : Call) : Bool := (c.parsed x).isOk

def found? (x : Extractor) (c : Call) : Option Extractor.FileRecords := (c.parsed x).toOption

/-- The entry among the failures that a call leaves when it fails. -/
def entry (c : Call) (failure : Failure) : Event :=
  .warning "file" ("Failed to process file: " ++ failure.message) (some (FileRef.ofPath c.path).path)
    none

def failure? (x : Extractor) (c : Call) : Option Event :=
  match c.parsed x with
  | .ok _ => none
  | .error failure => some (c.entry failure)

theorem filterMap_found? (x : Extractor) (calls : List Call) :
    (calls.filter (·.succeeds x)).filterMap (·.found? x) = calls.filterMap (·.found? x) := by
  rw [List.filterMap_filter]
  congr 1
  funext c
  unfold succeeds found?
  cases c.parsed x <;> rfl

end Call

namespace Run

variable {run : Run}

/-- What a call does, by what its file gives: it adds that to the store, or it leaves one entry among
the failures. All else but the events is as it was. -/
def outcome (run : Run) (c : Call) (events : List Event) : Run × Except Failure (List Record) :=
  match c.parsed run.extractor with
  | .error failure =>
    ({ run with events := events, failures := run.failures ++ [c.entry failure] }, .ok [])
  | .ok found =>
    ({ run with events := events, store := run.store.absorb found },
      .ok (Store.numbered run.store.size found.records))

theorem addSource_eq (isOpen : run.finished = false) (keeps : run.extractor.KeepsTypes)
    (path text : String) :
    ∃ events, run.addSource path text = run.outcome (.source path text) events := by
  have given : (Call.source path text).parsed run.extractor =
      (run.extractor.parseSource text (.ofPath path)).result := rfl
  unfold addSource outcome
  rw [given, isOpen]
  cases parsed : (run.extractor.parseSource text (.ofPath path)).result with
  | error failure => exact ⟨_, by simp only [Bool.false_eq_true, if_false, parsed]; rfl⟩
  | ok found =>
    obtain ⟨done, records⟩ := Store.extend_of_typed
      (Extractor.typed_parseSource keeps parsed) run.store
    have extended : run.store.extend found.records =
        ((run.store.extend found.records).1, none) := Prod.ext rfl done
    have added : (run.store.extend found.records).1.records.drop run.store.size =
        Store.numbered run.store.size found.records := by
      rw [records]
      exact List.drop_left
    refine ⟨run.events ++ (run.extractor.parseSource text (.ofPath path)).events, ?_⟩
    simp only [Bool.false_eq_true, if_false, parsed]
    rw [extended]
    simp only [added]
    rfl

theorem apply_eq (isOpen : run.finished = false) (keeps : run.extractor.KeepsTypes) (c : Call) :
    ∃ events, c.apply run = run.outcome c events := by
  cases c with
  | source path text => exact addSource_eq isOpen keeps path text
  | file path bytes =>
    rw [Call.apply, addFile]
    cases decoded : Text.utf8Decode bytes with
    | error fault =>
      have failed : (Call.file path bytes).parsed run.extractor = .error (.encoding fault) := by
        rw [Call.parsed, Call.text, decoded]
        rfl
      exact ⟨_, by rw [outcome, failed]; rfl⟩
    | ok text =>
      obtain ⟨events, added⟩ := addSource_eq isOpen keeps path text
      have same : (Call.file path bytes).parsed run.extractor =
          (Call.source path text).parsed run.extractor := by
        rw [Call.parsed, Call.text, decoded]
        rfl
      exact ⟨events, by rw [outcome, same]; exact added⟩

/-- A run after some calls. -/
def callAll (run : Run) (calls : List Call) : Run :=
  calls.foldl (fun run c => (c.apply run).1) run

/-- A run after some calls is what the files that could be parsed add to its store, and the entries
of the other ones. -/
theorem callAll_eq (run : Run) (isOpen : run.finished = false) (keeps : run.extractor.KeepsTypes)
    (calls : List Call) :
    ∃ events, run.callAll calls = { run with
      events := events
      store := (calls.filterMap (·.found? run.extractor)).foldl Store.absorb run.store
      failures := run.failures ++ calls.filterMap (·.failure? run.extractor) } := by
  induction calls generalizing run with
  | nil => exact ⟨run.events, by simp [callAll]⟩
  | cons c rest ih =>
    obtain ⟨events, applied⟩ := apply_eq isOpen keeps c
    rw [callAll, List.foldl_cons, applied, outcome]
    cases parsed : c.parsed run.extractor with
    | error failure =>
      obtain ⟨later, same⟩ := ih { run with
        events := events, failures := run.failures ++ [c.entry failure] } isOpen keeps
      refine ⟨later, same.trans ?_⟩
      simp [Call.found?, Call.failure?, parsed, Except.toOption]
    | ok found =>
      obtain ⟨later, same⟩ := ih { run with
        events := events, store := run.store.absorb found } isOpen keeps
      refine ⟨later, same.trans ?_⟩
      simp [Call.found?, Call.failure?, parsed, Except.toOption]

/-- What a run that is not strict finishes with does not depend on what was reported so far. -/
theorem finish_eq (run : Run) (isOpen : run.finished = false)
    (lenient : run.config.isStrict = false) (events failures : List Event) :
    ({ run with events := events, failures := failures } : Run).finish.2 = run.finish.2 ∧
      ({ run with events := events, failures := failures } : Run).finish.1.store =
        run.finish.1.store := by
  unfold finish conclude
  simp only [isOpen, lenient, Bool.false_eq_true, if_false]
  cases (run.store.link run.extractor.registry false).2 <;> exact ⟨rfl, rfl⟩

/-- Calls that fail do not matter to what a run that is not strict finishes with. -/
theorem finish_callAll (isOpen : run.finished = false) (keeps : run.extractor.KeepsTypes)
    (lenient : run.config.isStrict = false) (calls : List Call) :
    let all := (run.callAll calls).finish
    let good := (run.callAll (calls.filter (·.succeeds run.extractor))).finish
    all.2 = good.2 ∧ all.1.store = good.1.store := by
  obtain ⟨events, all⟩ := run.callAll_eq isOpen keeps calls
  obtain ⟨events', good⟩ :=
    run.callAll_eq isOpen keeps (calls.filter (·.succeeds run.extractor))
  rw [Call.filterMap_found?] at good
  let reached : Run := { run with
    store := (calls.filterMap (·.found? run.extractor)).foldl Store.absorb run.store }
  obtain ⟨result, store⟩ := reached.finish_eq isOpen lenient events
    (run.failures ++ calls.filterMap (·.failure? run.extractor))
  obtain ⟨result', store'⟩ := reached.finish_eq isOpen lenient events' (run.failures ++
    (calls.filter (·.succeeds run.extractor)).filterMap (·.failure? run.extractor))
  rw [all, good]
  exact ⟨result.trans result'.symm, store.trans store'.symm⟩

/-- What a call does to an open run by itself. -/
structure Isolates (run : Run) (c : Call) : Prop where
  failing : ∀ failure, c.parsed run.extractor = .error failure →
    (c.apply run).2 = .ok [] ∧ (c.apply run).1.store = run.store ∧
      (c.apply run).1.failures = run.failures ++ [c.entry failure]
  succeeding : ∀ found, c.parsed run.extractor = .ok found →
    (c.apply run).2 = .ok (Store.numbered run.store.size found.records) ∧
      (c.apply run).1.store.records =
        run.store.records ++ Store.numbered run.store.size found.records ∧
      (c.apply run).1.failures = run.failures ∧
      ∃ text, c.text = .ok text ∧
        run.extractor.FollowsSource text (.ofPath c.path) found.records

theorem isolates (isOpen : run.finished = false) (keeps : run.extractor.KeepsTypes) (c : Call) :
    run.Isolates c := by
  obtain ⟨events, applied⟩ := apply_eq isOpen keeps c
  constructor
  · intro failure failed
    rw [applied, outcome, failed]
    exact ⟨rfl, rfl, rfl⟩
  · intro found parsed
    obtain ⟨text, read, given⟩ := bind_eq_ok.mp parsed
    have typed := Extractor.typed_parseSource keeps given
    rw [applied, outcome, parsed]
    exact ⟨rfl, Store.records_absorb typed run.store, rfl, text, read,
      Extractor.parseSource_follows given⟩

/-- Files do not affect each other. Along any calls, each call does what it does by itself, the
entries of the failures are in the order of the calls, and a run that is not strict finishes as if
only the calls that succeed had been made. -/
theorem calls_isolated (run : Run) (isOpen : run.finished = false) (keeps : run.extractor.KeepsTypes)
    (calls : List Call) :
    (∀ before c after, calls = before ++ c :: after → (run.callAll before).Isolates c) ∧
      (run.callAll calls).failures =
        run.failures ++ calls.filterMap (·.failure? run.extractor) ∧
      (run.config.isStrict = false →
        let all := (run.callAll calls).finish
        let good := (run.callAll (calls.filter (·.succeeds run.extractor))).finish
        all.2 = good.2 ∧ all.1.store.groupDescriptions = good.1.store.groupDescriptions) := by
  refine ⟨?_, ?_, ?_⟩
  · intro before c after _
    obtain ⟨events, reached⟩ := run.callAll_eq isOpen keeps before
    rw [reached]
    refine isolates ?_ ?_ c
    · exact isOpen
    · exact keeps
  · obtain ⟨events, reached⟩ := run.callAll_eq isOpen keeps calls
    rw [reached]
  · intro lenient
    obtain ⟨result, store⟩ := finish_callAll isOpen keeps lenient calls
    exact ⟨result, congrArg Store.groupDescriptions store⟩

/-- A byte that begins no character makes no text. -/
theorem text_undecodable :
    (Call.file "a.scss" [0xff]).text = .error (.encoding ⟨0, 1, 0xff, .invalidStart⟩) := by
  have undecodable : Text.utf8Decode [0xff] = .error ⟨0, 1, 0xff, .invalidStart⟩ := by
    simp [Text.utf8Decode, Text.utf8DecodeFrom, Text.Utf8Lead.ofByte?, Except.map]
  rw [Call.text, undecodable]
  rfl

/-- A tag that gives up on every value. -/
def stubborn : Tag where
  name := "stubborn"
  parse := some fun _ _ => .error (.gaveUp "no")

/-- A run whose only tag gives up. -/
def stubbornRun : Run where
  config := .default
  extractor := ⟨{ tags := [("stubborn", stubborn)] }, false, "undefined", []⟩
  store := {}

/-- The last of the files is the only one that can be parsed. -/
def stubbornCalls : List Call :=
  [.file "a.scss" [0xff], .source "b.scss" "/// @stubborn yes\n$b: 1;",
    .source "c.scss" "/// Text\n$c: 1;"]

theorem calls_isolated_stubborn :
    stubbornRun.extractor.KeepsTypes ∧
      stubbornCalls.map (·.succeeds stubbornRun.extractor) = [false, false, true] ∧
      (stubbornRun.callAll stubbornCalls).failures.map (·.file) = [some "a.scss", some "b.scss"] ∧
      (stubbornRun.callAll stubbornCalls).finish.2 =
        (stubbornRun.callAll [.source "c.scss" "/// Text\n$c: 1;"]).finish.2 ∧
      (stubbornRun.callAll stubbornCalls).finish.2.toOption.map (·.map fun r => (r.name, r.description)) =
        some [("c", "Text")] := by
  have keeps : stubbornRun.extractor.KeepsTypes :=
    Extractor.keepsTypes_of_single rfl rfl
      (Tag.keepsTypes_of_parse (by rintro _ ⟨⟩ _ _ _ _ ⟨⟩) rfl rfl)
  obtain ⟨_, failures, finished⟩ := calls_isolated stubbornRun rfl keeps stubbornCalls
  have fails : (Call.file "a.scss" [0xff]).parsed stubbornRun.extractor =
      .error (.encoding ⟨0, 1, 0xff, .invalidStart⟩) := by
    rw [Call.parsed, text_undecodable]
    rfl
  have first : (Call.file "a.scss" [0xff]).succeeds stubbornRun.extractor = false := by
    rw [Call.succeeds, fails]
    rfl
  have others : [Call.source "b.scss" "/// @stubborn yes\n$b: 1;",
      .source "c.scss" "/// Text\n$c: 1;"].map (·.succeeds stubbornRun.extractor) = [false, true] := by
    decide +kernel
  have succeeds : stubbornCalls.map (·.succeeds stubbornRun.extractor) = [false, false, true] := by
    rw [stubbornCalls, List.map_cons, first, others]
  have good : stubbornCalls.filter (·.succeeds stubbornRun.extractor) =
      [.source "c.scss" "/// Text\n$c: 1;"] := by
    obtain ⟨second, third⟩ : _ ∧ _ := by simpa using others
    simp [stubbornCalls, first, second, third]
  have noted : (stubbornCalls.filterMap (·.failure? stubbornRun.extractor)).map (·.file) =
      [some "a.scss", some "b.scss"] := by
    have entry : (Call.file "a.scss" [0xff]).failure? stubbornRun.extractor =
        some (Call.entry (.file "a.scss" [0xff]) (.encoding ⟨0, 1, 0xff, .invalidStart⟩)) := by
      rw [Call.failure?, fails]
    rw [stubbornCalls, List.filterMap_cons_some entry]
    decide +kernel
  have finished := (finished rfl).1
  rw [good] at finished
  refine ⟨keeps, succeeds, ?_, finished, ?_⟩
  · rw [failures]
    exact noted
  · rw [finished]
    decide +kernel

end Run

end SheetDoc
