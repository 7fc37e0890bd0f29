import SheetDoc.Proofs.Run.Isolation
import SheetDoc.Proofs.Run.Prepared

namespace SheetDoc

/-- What a run is asked to do: to take a file, or to end. -/
inductive Attempt
  | call (c : Call)
  | finish

namespace Attempt

def apply (run : Run) : Attempt → Run × Except Failure (List Record)
  | call c => c.apply run
  | finish => run.finish

/-- The entry of a file whose bytes are no text. -/
def unread? : Attempt → Option Event
  | call c =>
    match c.text with
    | .ok _ => none
    | .error failure => some (c.entry failure)
  | finish => none

end Attempt

namespace Run

variable {run : Run}

/-- A run after some attempts. -/
def attemptAll (run : Run) (attempts : List Attempt) : Run :=
  attempts.foldl (fun run a => (a.apply run).1) run

/-- A run that has noted some more files. -/
def noting (run : Run) (entries : List Event) : Run :=
  { run with events := run.events ++ entries, failures := run.failures ++ entries }

@[simp] theorem noting_nil (run : Run) : run.noting [] = run := by simp [noting]

theorem noting_noting (run : Run) (first later : List Event) :
    (run.noting first).noting later = run.noting (first ++ later) := by
  simp [noting, List.append_assoc]

/-- A run is finished once it was asked to end, whether or not that failed. -/
theorem finished_finish (run : Run) : run.finish.1.finished = true := by
  unfold finish conclude
  split
  · assumption
  · simp only
    split
    · rfl
    · split <;> rfl

theorem addSource_of_finished (closed : run.finished = true) (path text : String) :
    run.addSource path text = (run, .error .finished) := by
  rw [addSource, if_pos closed]

theorem finish_of_finished (closed : run.finished = true) : run.finish = (run, .error .finished) := by
  rw [finish, if_pos closed]

/-- A finished run refuses an attempt, but for a file that is no text: that is noted. -/
theorem apply_of_finished (closed : run.finished = true) (a : Attempt) :
    a.apply run =
      (run.noting a.unread?.toList, if a.unread?.isSome then .ok [] else .error .finished) := by
  cases a with
  | finish => simp [Attempt.apply, Attempt.unread?, finish_of_finished closed]
  | call c =>
    cases c with
    | source path text =>
      have refused := addSource_of_finished closed path text
      simp [Attempt.apply, Attempt.unread?, Call.apply, Call.text, refused]
    | file path bytes =>
      cases decoded : Text.utf8Decode bytes with
      | error fault =>
        simp [Attempt.apply, Attempt.unread?, Call.apply, Call.text, addFile, decoded, Except.mapError,
          noting, fail, Call.entry, Call.path, FileRef.ofPath]
      | ok text =>
        have refused := addSource_of_finished closed path text
        simp [Attempt.apply, Attempt.unread?, Call.apply, Call.text, addFile, decoded, Except.mapError,
          refused]

/-- Attempts on a finished run leave the files among them that are no text noted, and nothing else. -/
theorem attemptAll_of_finished (closed : run.finished = true) (attempts : List Attempt) :
    run.attemptAll attempts = run.noting (attempts.filterMap Attempt.unread?) := by
  induction attempts generalizing run with
  | nil => exact run.noting_nil.symm
  | cons a rest ih =>
    have later : (run.noting a.unread?.toList).finished = true := closed
    rw [attemptAll, List.foldl_cons, apply_of_finished closed]
    refine (ih later).trans ?_
    rw [noting_noting]
    cases unread : a.unread? <;> simp [unread]

/-- Each of the attempts is refused and leaves the run as it was. -/
def Refuses (run : Run) (attempts : List Attempt) : Prop :=
  ∀ before a after, attempts = before ++ a :: after →
    a.apply (run.attemptAll before) = (run, .error .finished)

theorem refuses_iff (closed : run.finished = true) (attempts : List Attempt) :
    run.Refuses attempts ↔ ∀ a ∈ attempts, a.unread? = none := by
  constructor
  · intro refuses a member
    obtain ⟨before, after, split⟩ := List.append_of_mem member
    have refused := refuses before a after split
    have still : (run.noting (before.filterMap Attempt.unread?)).finished = true := closed
    rw [attemptAll_of_finished closed, apply_of_finished still] at refused
    cases unread : a.unread? with
    | none => rfl
    | some entry => simp [unread] at refused
  · intro texts before a after split
    subst split
    have earlier : before.filterMap Attempt.unread? = [] :=
      List.filterMap_eq_nil_iff.mpr fun b member => texts b (List.mem_append_left _ member)
    have last : a.unread? = none := texts a (by simp)
    rw [attemptAll_of_finished closed, earlier, noting_nil, apply_of_finished closed, last]
    simp

/-- A finished run is closed. Whatever it is asked, its records and the descriptions of groups stay as
its end left them, and it refuses all that is asked and stays the same run exactly when every file
that it is given is a text; one that is not is noted and taken for a file without records. -/
theorem finish_closes (run : Run) (attempts : List Attempt) :
    let closed := run.finish.1
    closed.attemptAll attempts = closed.noting (attempts.filterMap Attempt.unread?) ∧
      (closed.Refuses attempts ↔ ∀ a ∈ attempts, a.unread? = none) ∧
      ∀ before a after, attempts = before ++ a :: after → a.unread? ≠ none →
        (a.apply (closed.attemptAll before)).2 = .ok [] := by
  intro closed
  have finished : closed.finished = true := run.finished_finish
  refine ⟨attemptAll_of_finished finished attempts, refuses_iff finished attempts, ?_⟩
  intro before a after _ unread
  have still : (closed.noting (before.filterMap Attempt.unread?)).finished = true := finished
  rw [attemptAll_of_finished finished, apply_of_finished still, Option.isSome_iff_ne_none.mpr unread]
  rfl

/-- A file that is no text is noted by a run that has ended. -/
theorem finish_notes_bytes :
    let run := (opened .default filling).finish.1
    let bytes : Attempt := .call (.file "a.scss" [0xff])
    let entry : Event := .warning "file"
      "Failed to process file: 'utf-8' codec can't decode byte 0xff in position 0: invalid start byte"
      (some "a.scss") none
    prepare .default [] none = .ok filling ∧ bytes.apply run = (run.noting [entry], .ok []) ∧
      ¬run.Refuses [bytes] := by
  intro run bytes entry
  have finished : run.finished = true := (opened .default filling).finished_finish
  have unread : bytes.unread? = some entry := by
    change Attempt.unread? (.call (.file "a.scss" [0xff])) = some entry
    rw [Attempt.unread?, text_undecodable]
    decide +kernel
  refine ⟨prepare_default, ?_, fun refuses => ?_⟩
  · rw [apply_of_finished finished, unread]
    rfl
  · have text := (refuses_iff finished [bytes]).mp refuses bytes (List.mem_singleton_self bytes)
    rw [unread] at text
    cases text

end Run

end SheetDoc
