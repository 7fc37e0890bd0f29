import Mathlib.Data.List.Forall2
import SheetDoc.Run.Stream

namespace SheetDoc

/-- A pass that is asked for: how it is driven, and over which files. -/
structure Demand where
  drive : Drive := {}
  files : List SourceFile

/-- A pass that is to take no file does not begin. -/
def Demand.Begins (d : Demand) : Prop := d.drive.take ≠ some 0

instance (d : Demand) : Decidable d.Begins := inferInstanceAs (Decidable (d.drive.take ≠ some 0))

/-- A run that was given some files. -/
def Run.addFiles (run : Run) (files : List SourceFile) : Run :=
  files.foldl (fun run file => (run.addFile file.path file.bytes).1) run

theorem Run.addFiles_concat (run : Run) (files : List SourceFile) (file : SourceFile) :
    run.addFiles (files ++ [file]) = ((run.addFiles files).addFile file.path file.bytes).1 :=
  List.foldl_append

namespace Promise

theorem settle_of_settled {p : Promise} (settled : p.isPending = false) (outcome : Promise) :
    p.settle outcome = p := by
  simp [settle, settled]

theorem isPending_settle (p : Promise) {outcome : Promise} (settles : outcome.isPending = false) :
    (p.settle outcome).isPending = false := by
  cases p <;> first | rfl | exact settles

end Promise

namespace Stream

variable {s t : Stream} {d : Demand} {out : List SourceFile}

def serve (s : Stream) (d : Demand) : Stream × Pass := s.pipe d.drive d.files

/-- One pass after the other. -/
def passes (s : Stream) : List Demand → Stream × List Pass
  | [] => (s, [])
  | d :: rest =>
    let (s, pass) := s.serve d
    let (s, later) := s.passes rest
    (s, pass :: later)

theorem passes_cons (s : Stream) (d : Demand) (rest : List Demand) :
    s.passes (d :: rest) =
      (((s.serve d).1.passes rest).1, (s.serve d).2 :: ((s.serve d).1.passes rest).2) :=
  rfl

theorem pipes_eq_passes (drive : Drive) (files : List SourceFile) (n : Nat) (s : Stream) :
    pipes drive files n s = s.passes (List.replicate n ⟨drive, files⟩) := by
  induction n generalizing s with
  | zero => rfl
  | succ n ih =>
    rw [List.replicate_succ, passes_cons, ← ih]
    rfl

theorem passes_append (s : Stream) (before after : List Demand) :
    s.passes (before ++ after) =
      (((s.passes before).1.passes after).1,
        (s.passes before).2 ++ ((s.passes before).1.passes after).2) := by
  induction before generalizing s with
  | nil => rfl
  | cons d rest ih =>
    rw [List.cons_append, passes_cons, passes_cons, ih]
    rfl

/-- A pass over the stream is open, stands at `t`, and has handed out some files. -/
inductive Opens (d : Demand) (s : Stream) : List SourceFile → Stream → Prop
  | begun : d.Begins → Opens d s [] s
  | handed {out : List SourceFile} {file : SourceFile} {left : List SourceFile} {t : Stream} {run : Run}
      {found : List Record} :
      Opens d s out t → d.files = out ++ file :: left → d.drive.take ≠ some out.length →
      d.drive.failAfter ≠ some out.length → t.run.addFile file.path file.bytes = (run, .ok found) →
      Opens d s (out ++ [file]) { t with run := run }

/-- The ways an open pass ends: the run that it leaves, what it would have the promise be, and what
it fails with. -/
inductive Ends (d : Demand) (out : List SourceFile) (t : Stream) :
    Run → Promise → Option Failure → Prop
  /-- The pass is closed, be it after its last file. -/
  | closed : d.drive.take = some out.length → Ends d out t t.run .cancelled none
  /-- The input gives up. -/
  | gaveUp : d.drive.take ≠ some out.length → out.length < d.files.length →
      d.drive.failAfter = some out.length → Ends d out t t.run (.failed d.drive.fault) (some d.drive.fault)
  /-- The run does not take the next file. -/
  | refused {file : SourceFile} {left : List SourceFile} {run : Run} {failure : Failure} :
      d.drive.take ≠ some out.length → d.files = out ++ file :: left →
      d.drive.failAfter ≠ some out.length →
      t.run.addFile file.path file.bytes = (run, .error failure) →
      Ends d out t run (.failed failure) (some failure)
  /-- All files are handed out, and the run does not end well. -/
  | unfinished {run : Run} {failure : Failure} : d.drive.take ≠ some out.length → out = d.files →
      t.run.finish = (run, .error failure) → Ends d out t run (.failed failure) (some failure)
  /-- All files are handed out and the run ends with its records. -/
  | finished {run : Run} {records : List Record} : d.drive.take ≠ some out.length → out = d.files →
      t.run.finish = (run, .ok records) →
      Ends d out t run (.fulfilled records) (if t.promise.isPending then none else some .settled)

theorem Ends.isPending {run : Run} {outcome : Promise} {raised : Option Failure}
    (ends : Ends d out t run outcome raised) : outcome.isPending = false := by
  cases ends <;> rfl

/-- No pass touches the promise while it is open. -/
theorem Opens.promise (opens : s.Opens d out t) : t.promise = s.promise := by
  induction opens with
  | begun => rfl
  | handed _ _ _ _ _ ih => exact ih

theorem Opens.begins (opens : s.Opens d out t) : d.Begins := by
  induction opens with
  | begun begins => exact begins
  | handed _ _ _ _ _ ih => exact ih

theorem Opens.out_prefix (opens : s.Opens d out t) : out <+: d.files := by
  cases opens with
  | begun => exact List.nil_prefix
  | @handed out file left _ _ _ _ files => exact ⟨left, by rw [files, List.append_assoc]; rfl⟩

/-- What an open pass has handed out is what the run was given. -/
theorem Opens.run (opens : s.Opens d out t) : t.run = s.run.addFiles out := by
  induction opens with
  | begun => rfl
  | handed _ _ _ _ added ih =>
    rw [Run.addFiles_concat, ← ih, added]

/-- What becomes of a pass that is open at `t`, has handed out some files and has others left. -/
def resume (t : Stream) (d : Demand) (out left : List SourceFile) : Stream × Pass :=
  if d.drive.take = some out.length then
    ({ t with promise := t.promise.settle .cancelled }, ⟨out, none⟩)
  else
    let (u, pass) := t.pull d.drive out.length left
    (u, { pass with yielded := out ++ pass.yielded })

theorem serve_eq_resume (begins : d.Begins) (s : Stream) : s.serve d = s.resume d [] d.files := by
  have stays : d.drive.take ≠ some ([] : List SourceFile).length := begins
  rw [serve, pipe, if_neg begins, resume, if_neg stays]
  rfl

theorem resume_handed {file : SourceFile} {left : List SourceFile} {run : Run} {found : List Record}
    (stays : d.drive.take ≠ some out.length) (goesOn : d.drive.failAfter ≠ some out.length)
    (added : t.run.addFile file.path file.bytes = (run, .ok found)) :
    t.resume d out (file :: left) = ({ t with run := run } : Stream).resume d (out ++ [file]) left := by
  have length : (out ++ [file]).length = out.length + 1 := by simp
  rw [resume, if_neg stays, pull, if_neg goesOn, added, resume, length]
  by_cases closed : d.drive.take = some (out.length + 1)
  · simp only [if_pos closed]
  · simp only [if_neg closed, List.append_assoc, List.singleton_append]

/-- Where a pass is said to be open, there it is: what becomes of it is what becomes of it from there. -/
theorem Opens.resumes (opens : s.Opens d out t) :
    ∃ left, d.files = out ++ left ∧ s.serve d = t.resume d out left := by
  induction opens with
  | begun begins => exact ⟨d.files, rfl, serve_eq_resume begins s⟩
  | @handed out file left _ _ _ _ files stays goesOn added ih =>
    obtain ⟨left', files', served⟩ := ih
    have same : left' = file :: left := List.append_cancel_left (files'.symm.trans files)
    refine ⟨left, by rw [files, List.append_assoc]; rfl, ?_⟩
    rw [served, same, resume_handed stays goesOn added]

/-- An open pass comes to one of the ends. -/
theorem resume_ends (opens : s.Opens d out t) {left : List SourceFile} (files : d.files = out ++ left) :
    ∃ all u run outcome raised, s.Opens d all u ∧ Ends d all u run outcome raised ∧
      t.resume d out left = ({ run := run, promise := u.promise.settle outcome }, ⟨all, raised⟩) := by
  induction left generalizing out t with
  | nil =>
    by_cases closed : d.drive.take = some out.length
    · exact ⟨out, t, t.run, _, _, opens, .closed closed, if_pos closed⟩
    · have all : out = d.files := by rw [files, List.append_nil]
      rw [resume, if_neg closed, pull, complete]
      rcases finished : t.run.finish with ⟨run, failure | records⟩
      · refine ⟨out, t, run, _, _, opens, .unfinished closed all finished, ?_⟩
        simp only [raise, List.append_nil]
      · refine ⟨out, t, run, _, _, opens, .finished closed all finished, ?_⟩
        cases pending : t.promise.isPending <;> simp [Promise.settle, pending]
  | cons file rest ih =>
    by_cases closed : d.drive.take = some out.length
    · exact ⟨out, t, t.run, _, _, opens, .closed closed, if_pos closed⟩
    · by_cases gaveUp : d.drive.failAfter = some out.length
      · have shorter : out.length < d.files.length := by simp [files]
        refine ⟨out, t, t.run, _, _, opens, .gaveUp closed shorter gaveUp, ?_⟩
        rw [resume, if_neg closed, pull, if_pos gaveUp]
        simp only [raise, List.append_nil]
      · rcases added : t.run.addFile file.path file.bytes with ⟨run, failure | found⟩
        · refine ⟨out, t, run, _, _, opens, .refused closed files gaveUp added, ?_⟩
          rw [resume, if_neg closed, pull, if_neg gaveUp, added]
          simp only [raise, List.append_nil]
        · rw [resume_handed closed gaveUp added]
          exact ih (.handed opens files closed gaveUp added) (by rw [files, List.append_assoc]; rfl)

/-- A pass that begins is open until it ends, and its end is all that it does to the promise. -/
theorem serve_ends (begins : d.Begins) (s : Stream) :
    ∃ out t run outcome raised, s.Opens d out t ∧ Ends d out t run outcome raised ∧
      s.serve d = ({ run := run, promise := s.promise.settle outcome }, ⟨out, raised⟩) := by
  obtain ⟨out, t, run, outcome, raised, opens, ends, resumed⟩ := resume_ends (.begun begins) rfl
  refine ⟨out, t, run, outcome, raised, opens, ends, ?_⟩
  rw [serve_eq_resume begins, ← opens.promise]
  exact resumed

theorem serve_of_idle (idle : ¬d.Begins) (s : Stream) : s.serve d = (s, ⟨[], none⟩) := by
  rw [serve, pipe, if_pos (not_not.mp idle)]

theorem passes_of_idle {demands : List Demand} (idle : ∀ d ∈ demands, ¬d.Begins) (s : Stream) :
    (s.passes demands).1 = s := by
  induction demands with
  | nil => rfl
  | cons d rest ih =>
    obtain ⟨first, later⟩ := List.forall_mem_cons.mp idle
    rw [passes_cons, serve_of_idle first]
    exact ih later

/-- The files that a pass hands out are the first ones of its input. -/
theorem yielded_prefix (s : Stream) (d : Demand) : (s.serve d).2.yielded <+: d.files := by
  by_cases begins : d.Begins
  · obtain ⟨out, t, _, _, _, opens, _, served⟩ := serve_ends begins s
    rw [served]
    exact opens.out_prefix
  · rw [serve_of_idle begins]
    exact List.nil_prefix

theorem forall₂_yielded (s : Stream) (demands : List Demand) :
    List.Forall₂ (fun d pass => pass.yielded <+: d.files) demands (s.passes demands).2 := by
  induction demands generalizing s with
  | nil => exact .nil
  | cons d rest ih => exact .cons (s.yielded_prefix d) (ih _)

/-- A settled promise stays as it is. -/
theorem promise_serve (settled : s.promise.isPending = false) (d : Demand) :
    (s.serve d).1.promise = s.promise := by
  by_cases begins : d.Begins
  · obtain ⟨_, _, _, outcome, _, _, _, served⟩ := serve_ends begins s
    rw [served]
    exact Promise.settle_of_settled settled outcome
  · rw [serve_of_idle begins]

theorem promise_passes (settled : s.promise.isPending = false) (demands : List Demand) :
    (s.passes demands).1.promise = s.promise := by
  induction demands generalizing s with
  | nil => rfl
  | cons d rest ih =>
    have same := promise_serve settled d
    have settled' : (s.serve d).1.promise.isPending = false := same ▸ settled
    exact (ih settled').trans same

/-- A promise is pending as long as no pass has begun. -/
theorem isPending_passes (run : Run) (demands : List Demand) :
    (({ run := run } : Stream).passes demands).1.promise.isPending = true ↔
      ∀ d ∈ demands, ¬d.Begins := by
  constructor
  · intro pending d member begins
    obtain ⟨before, after, rfl⟩ := List.append_of_mem member
    obtain ⟨_, _, _, outcome, _, _, ends, served⟩ :=
      serve_ends begins (({ run := run } : Stream).passes before).1
    have settled : (((({ run := run } : Stream).passes before).1).serve d).1.promise.isPending = false := by
      rw [served]
      exact Promise.isPending_settle _ ends.isPending
    rw [passes_append] at pending
    have same := promise_passes settled after
    rw [← same] at settled
    exact absurd (pending.symm.trans settled) Bool.noConfusion
  · intro idle
    rw [passes_of_idle idle]
    rfl

/-- The promise of a stream is settled once. Whatever passes are made, each hands out first files of
its input, in order; the promise is pending until the first pass that begins has ended, becomes what
that end makes of it, and is so during and after every later pass. -/
theorem passes_settle (run : Run) (demands : List Demand) :
    let s : Stream := { run := run }
    List.Forall₂ (fun d pass => pass.yielded <+: d.files) demands (s.passes demands).2 ∧
      ((∀ d ∈ demands, ¬d.Begins) → (s.passes demands).1.promise = .pending) ∧
      ∀ idle first later, demands = idle ++ first :: later → (∀ d ∈ idle, ¬d.Begins) → first.Begins →
        let start := (s.passes idle).1
        (∀ out t, start.Opens first out t → t.promise = .pending) ∧
          ∃ out t last outcome raised, start.Opens first out t ∧ Ends first out t last outcome raised ∧
            start.serve first = ({ run := last, promise := outcome }, ⟨out, raised⟩) ∧
            (s.passes demands).1.promise = outcome ∧
            ∀ d out t, (s.passes demands).1.Opens d out t → t.promise = outcome := by
  intro s
  refine ⟨s.forall₂_yielded demands, fun idle => by rw [passes_of_idle idle], ?_⟩
  intro idle first later split idles begins start
  have pending : start.promise = .pending := by rw [show start = s from passes_of_idle idles s]
  obtain ⟨out, t, last, outcome, raised, opens, ends, served⟩ := serve_ends begins start
  rw [pending] at served
  have settled : (start.serve first).1.promise = outcome := by
    rw [served]
    rfl
  have final : (s.passes demands).1.promise = outcome := by
    rw [split, passes_append]
    exact (promise_passes (settled ▸ ends.isPending) later).trans settled
  exact ⟨fun out t opens => opens.promise.trans pending, out, t, last, outcome, raised, opens, ends,
    served, final, fun d out t opens => opens.promise.trans final⟩

end Stream

end SheetDoc
