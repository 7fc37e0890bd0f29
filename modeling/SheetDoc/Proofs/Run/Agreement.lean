import SheetDoc.Run.Batch
import SheetDoc.Run.Stream
import SheetDoc.Proofs.Run.Prepared

namespace SheetDoc

namespace Promise

/-- The promise of a run that has ended. -/
def ofResult : Except Failure (List Record) → Promise
  | .ok records => fulfilled records
  | .error failure => failed failure

end Promise

/-- The failure of a step that has failed. -/
def failure? {α : Type} : Except Failure α → Option Failure
  | .ok _ => none
  | .error failure => some failure

namespace Run

/-- Each of the files is what its path leads to. -/
def Readable (t : FileTree) (files : List SourceFile) : Prop :=
  ∀ file ∈ files, t.read file.path = .ok file.bytes

theorem addPath_of_read {t : FileTree} {file : SourceFile} (read : t.read file.path = .ok file.bytes)
    (run : Run) :
    addPath t run file.path =
      ((run.addFile file.path file.bytes).1, failure? (run.addFile file.path file.bytes).2) := by
  unfold addPath
  rcases added : run.addFile file.path file.bytes with ⟨next, failure | found⟩ <;>
    simp only [read, added, failure?]

theorem addPaths_cons {t : FileTree} {file : SourceFile} (read : t.read file.path = .ok file.bytes)
    (run : Run) (paths : List String) :
    run.addPaths t (file.path :: paths) =
      match run.addFile file.path file.bytes with
      | (run, .error failure) => (run, .error failure)
      | (run, .ok _) => run.addPaths t paths := by
  unfold addPaths
  rw [eachUntil, addPath_of_read read]
  rcases run.addFile file.path file.bytes with ⟨next, failure | found⟩ <;> rfl

/-- A run that has been started has nothing to report yet. -/
theorem events_start {settings : Assoc Scalar Data} {more : List Tag} {given : Option Registry}
    {run : Run} (started : (start settings more given).result = .ok run) :
    (start settings more given).events = [] := by
  unfold start at started ⊢
  cases built : Config.build settings with
  | error failure => simp [built, Report.fail] at started
  | ok c =>
    simp only [built] at started ⊢
    split at started <;> cases started
    rfl

end Run

namespace Stream

/-- Files that are handed out to the end of the input come to what their paths come to. -/
theorem pull_eq_addPaths {t : FileTree} {files : List SourceFile} (readable : Run.Readable t files)
    (run : Run) (index : Nat) :
    (pull {} { run := run } index files).1 =
        { run := (run.addPaths t (files.map (·.path))).1
          promise := .ofResult (run.addPaths t (files.map (·.path))).2 } ∧
      (pull {} { run := run } index files).2.raised =
        failure? (run.addPaths t (files.map (·.path))).2 := by
  induction files generalizing run index with
  | nil =>
    have ended : run.addPaths t [] = run.finish := rfl
    rw [pull, complete, List.map_nil, ended]
    rcases run.finish with ⟨last, failure | records⟩ <;> exact ⟨rfl, rfl⟩
  | cons file rest ih =>
    obtain ⟨first, later⟩ := List.forall_mem_cons.mp readable
    rw [List.map_cons, Run.addPaths_cons first, pull, if_neg (by simp)]
    rcases run.addFile file.path file.bytes with ⟨next, failure | found⟩
    · exact ⟨rfl, rfl⟩
    · exact ih later next (index + 1)

/-- A sheet that is given twice, and a file in between that is no text. -/
def mixedFiles : List SourceFile :=
  [⟨"a.scss", "$a: 1;".toUTF8.toList⟩, ⟨"b.scss", [0xff]⟩, ⟨"./a.scss", "$a: 1;".toUTF8.toList⟩]

end Stream

end SheetDoc
