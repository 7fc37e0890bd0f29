import SheetDoc.Proofs.Run.Passes
import SheetDoc.Proofs.Run.Prepared

namespace SheetDoc.Stream

variable {s t : Stream} {d : Demand} {out : List SourceFile}

/-- A failure that a pass has from its input, or from the run that it drives, when it has handed out
some files. -/
inductive Stems (d : Demand) (s : Stream) (out : List SourceFile) : Failure → Prop
  | input : out.length < d.files.length → d.drive.failAfter = some out.length →
      Stems d s out d.drive.fault
  | adding {file : SourceFile} {left : List SourceFile} {failure : Failure} :
      d.files = out ++ file :: left →
      ((s.run.addFiles out).addFile file.path file.bytes).2 = .error failure → Stems d s out failure
  | ending {failure : Failure} :
      out = d.files → (s.run.addFiles out).finish.2 = .error failure → Stems d s out failure

/-- The pass hands out its whole input, and the run then ends with its records. -/
def Completes (s : Stream) (d : Demand) : Prop :=
  s.Opens d d.files { s with run := s.run.addFiles d.files } ∧ d.drive.take ≠ some d.files.length ∧
    ∃ records, (s.run.addFiles d.files).finish.2 = .ok records

theorem Opens.eq (opens : s.Opens d out t) : t = { s with run := s.run.addFiles out } := by
  rw [← opens.run, ← opens.promise]

theorem Completes.of_ends (opens : s.Opens d out t) (stays : d.drive.take ≠ some out.length)
    (all : out = d.files) {run : Run} {records : List Record} (finished : t.run.finish = (run, .ok records)) :
    s.Completes d := by
  subst all
  exact ⟨opens.eq ▸ opens, stays, records, by rw [← opens.run, finished]⟩

theorem pass_of_completes (completes : s.Completes d) :
    (s.serve d).2 = ⟨d.files, if s.promise.isPending then none else some .settled⟩ := by
  obtain ⟨opens, stays, records, finished⟩ := completes
  obtain ⟨left, files, served⟩ := opens.resumes
  have none : left = [] := by simpa using files
  rw [served, none, resume, if_neg stays, pull, complete]
  rcases ended : (s.run.addFiles d.files).finish with ⟨run, result⟩
  rw [ended] at finished
  cases finished
  cases pending : s.promise.isPending <;> simp

/-- A pass that completes has no failure from its input or from its run. -/
theorem Completes.not_stems (completes : s.Completes d) (failure : Failure) :
    ¬s.Stems d d.files failure := by
  obtain ⟨_, _, records, finished⟩ := completes
  rintro (shorter | files | ⟨_, failed⟩)
  · exact absurd shorter (Nat.lt_irrefl _)
  · exact absurd (congrArg List.length files) (by simp)
  · rw [finished] at failed
    cases failed

/-- Where a pass does not complete, its failure comes from its input or from its run. -/
theorem stems_of_not_completes (incomplete : ¬s.Completes d) {failure : Failure}
    (raised : (s.serve d).2.raised = some failure) : s.Stems d (s.serve d).2.yielded failure := by
  by_cases begins : d.Begins
  · obtain ⟨out, t, run, outcome, raised', opens, ends, served⟩ := serve_ends begins s
    rw [served] at raised ⊢
    cases ends with
    | closed => cases raised
    | gaveUp _ shorter gaveUp =>
      cases raised
      exact .input shorter gaveUp
    | refused _ files _ added =>
      cases raised
      exact .adding files (by rw [← opens.run, added])
    | unfinished _ all finished =>
      cases raised
      exact .ending all (by rw [← opens.run, finished])
    | finished stays all finished => exact absurd (.of_ends opens stays all finished) incomplete
  · rw [serve_of_idle begins] at raised
    cases raised

/-- All failures of a pass come from its input or from its run, unless it completes over a promise that
is settled. -/
theorem stems_iff (s : Stream) (d : Demand) :
    (∀ failure, (s.serve d).2.raised = some failure → s.Stems d (s.serve d).2.yielded failure) ↔
      ¬(s.Completes d ∧ s.promise.isPending = false) := by
  constructor
  · rintro stem ⟨completes, settled⟩
    rw [pass_of_completes completes, settled] at stem
    exact completes.not_stems .settled (stem .settled rfl)
  · intro timely failure raised
    by_cases completes : s.Completes d
    · have pending : s.promise.isPending = true := by
        by_contra settled
        exact timely ⟨completes, Bool.eq_false_iff.mpr settled⟩
      rw [pass_of_completes completes, pending] at raised
      cases raised
    · exact stems_of_not_completes completes raised

/-- A pass fails on the bookkeeping of the stream exactly when it completes after an earlier pass has
begun. It then fails over a promise that is settled; every other failure is one of its input or of the
run, and the first pass to begin ends well when it completes. -/
theorem passes_stem (run : Run) (before : List Demand) (d : Demand) :
    let s := (({ run := run } : Stream).passes before).1
    ((∀ failure, (s.serve d).2.raised = some failure → s.Stems d (s.serve d).2.yielded failure) ↔
        ¬(s.Completes d ∧ ∃ e ∈ before, e.Begins)) ∧
      (s.Completes d → (∃ e ∈ before, e.Begins) → (s.serve d).2 = ⟨d.files, some .settled⟩) ∧
      (s.Completes d → (∀ e ∈ before, ¬e.Begins) → (s.serve d).2 = ⟨d.files, none⟩) := by
  intro s
  have settled : s.promise.isPending = false ↔ ∃ e ∈ before, e.Begins := by
    have pending := isPending_passes run before
    rw [← Bool.not_eq_true, pending]
    simp only [not_forall, not_not, exists_prop]
  refine ⟨by rw [← settled, stems_iff], fun completes begun => ?_, fun completes first => ?_⟩
  · rw [pass_of_completes completes, settled.mpr begun]
    rfl
  · rw [pass_of_completes completes, (isPending_passes run before).mpr first]
    rfl

/-- An empty sheet. -/
def emptySheet : SourceFile := ⟨"a.scss", []⟩

theorem addFile_emptySheet :
    (Run.opened .default Run.filling).addFile emptySheet.path emptySheet.bytes =
      (Run.opened .default Run.filling, .ok []) := by
  with_unfolding_all rfl

/-- The stream after a pass that is closed after an empty sheet. -/
def interrupted : Stream where
  run := .opened .default Run.filling
  promise := .cancelled

theorem serve_interrupted :
    ({ run := .opened .default Run.filling } : Stream).serve ⟨{ take := some 1 }, [emptySheet]⟩ =
      (interrupted, ⟨[emptySheet], none⟩) := by
  rw [serve_eq_resume (by decide), resume_handed (by decide) (by decide) addFile_emptySheet]
  rfl

theorem completes_interrupted : interrupted.Completes ⟨{}, [emptySheet]⟩ := by
  have added : interrupted.run.addFiles [emptySheet] = interrupted.run :=
    congrArg Prod.fst addFile_emptySheet
  have opens : interrupted.Opens ⟨{}, [emptySheet]⟩ [emptySheet] interrupted :=
    .handed (.begun (by decide)) rfl (by decide) (by decide) addFile_emptySheet
  refine ⟨?_, by decide, [], ?_⟩
  · rw [added]
    exact opens
  · rw [added]
    with_unfolding_all rfl

/-- A pass is closed after its only file; the next one goes to the end of the same input and fails over
the promise that the first one has cancelled. -/
theorem passes_late :
    let s := (({ run := .opened .default Run.filling } : Stream).passes
      [⟨{ take := some 1 }, [emptySheet]⟩]).1
    let d : Demand := ⟨{}, [emptySheet]⟩
    Run.prepare .default [] none = .ok Run.filling ∧ s.Completes d ∧
      (s.serve d).2 = ⟨d.files, some .settled⟩ ∧ ¬s.Stems d d.files .settled := by
  intro s d
  have reached : s = interrupted := congrArg Prod.fst serve_interrupted
  have completes : s.Completes d := reached ▸ completes_interrupted
  refine ⟨Run.prepare_default, completes, ?_, completes.not_stems .settled⟩
  rw [pass_of_completes completes, reached]
  rfl

end SheetDoc.Stream
