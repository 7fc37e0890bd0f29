import SheetDoc.Proofs.Run.Bookkeeping
import SheetDoc.Proofs.Run.Closed
import SheetDoc.Proofs.Store.Index

namespace SheetDoc

namespace Store

variable {s t u : Store}

/-- The declarations that one store has met the other has met as well. -/
def Precedes (s t : Store) : Prop := ∀ key, s.byKey.has key = true → t.byKey.has key = true

theorem Precedes.trans (first : s.Precedes t) (second : t.Precedes u) : s.Precedes u :=
  fun key met => second key (first key met)

theorem precedes_add (s : Store) (r : Record) : s.Precedes (s.add r).1 := by
  intro key met
  rcases lookups_add r s with ⟨_, same, _⟩ | ⟨_, set, _⟩
  · rw [same]
    exact met
  · rw [set, Assoc.has_set, met, Bool.or_true]

theorem precedes_extend (s : Store) (rs : List Record) : s.Precedes (s.extend rs).1 :=
  eachUntil_keeps (P := s.Precedes) (l := rs)
    (fun r _ t precedes => precedes.trans (t.precedes_add r)) fun _ met => met

/-- Only a declaration that was met before can be refused. -/
theorem add_done_iff (r : Record) (s : Store) :
    (s.add r).2 = none ↔
      r.kind = .unknown ∨ s.byKey.has (r.kind, r.name) = false ∨ r.readPath.isOk = true := by
  unfold add
  by_cases unknown : r.kind = .unknown
  · simp [unknown]
  · cases met : s.byKey.has (r.kind, r.name) <;> cases read : r.readPath <;>
      simp [unknown, Except.isOk, Except.toBool]

theorem byKey_add (r : Record) (s : Store) (done : (s.add r).2 = none) :
    (s.add r).1.byKey =
      if r.kind = .unknown then s.byKey else s.byKey.set (r.kind, r.name) s.size := by
  unfold add at done ⊢
  by_cases unknown : r.kind = .unknown
  · simp [unknown]
  · cases met : s.byKey.has (r.kind, r.name) <;> cases read : r.readPath <;>
      simp_all

theorem Precedes.add_done (precedes : s.Precedes t) {r : Record} (done : (t.add r).2 = none) :
    (s.add r).2 = none ∧ (s.add r).1.Precedes (t.add r).1 := by
  have done' : (s.add r).2 = none := by
    rw [add_done_iff] at done ⊢
    rcases done with unknown | fresh | read
    · exact Or.inl unknown
    · refine Or.inr (Or.inl ?_)
      by_contra met
      rw [precedes _ (Bool.of_not_eq_false met)] at fresh
      cases fresh
    · exact Or.inr (Or.inr read)
  refine ⟨done', fun key met => ?_⟩
  rw [byKey_add r s done'] at met
  rw [byKey_add r t done]
  split at met
  · rw [if_pos ‹_›]
    exact precedes key met
  · rw [if_neg ‹_›]
    rw [Assoc.has_set] at met ⊢
    rcases Bool.or_eq_true _ _ ▸ met with same | met
    · rw [same, Bool.true_or]
    · rw [precedes key met, Bool.or_true]

/-- Records that a store takes, one that has met fewer declarations takes as well. -/
theorem Precedes.extend_done {rs : List Record} (precedes : s.Precedes t)
    (done : (t.extend rs).2 = none) : (s.extend rs).2 = none := by
  induction rs generalizing s t with
  | nil => rfl
  | cons r rest ih =>
    obtain ⟨m, first, later⟩ := eachUntil_cons_done.mp (Prod.ext rfl done)
    obtain ⟨done', next⟩ := precedes.add_done (congrArg Prod.snd first)
    rw [first] at next
    have rest_done : (m.extend rest).2 = none := congrArg Prod.snd later
    have step : s.extend (r :: rest) = (s.add r).1.extend rest := eachUntil_cons_of_done done'
    rw [step]
    exact ih next rest_done

end Store

namespace Run

variable {a b : Run}

/-- A run that goes on from another: it parses as that one does, has met what that one has met, and is
finished when that one is. -/
structure Precedes (a b : Run) : Prop where
  extractor : b.extractor = a.extractor
  store : a.store.Precedes b.store
  finished : a.finished = true → b.finished = true

theorem Precedes.refl (run : Run) : run.Precedes run := ⟨rfl, fun _ met => met, id⟩

theorem Precedes.trans {c : Run} (first : a.Precedes b) (second : b.Precedes c) : a.Precedes c :=
  ⟨second.extractor.trans first.extractor, first.store.trans second.store,
    fun closed => second.finished (first.finished closed)⟩

theorem precedes_addSource (run : Run) (path text : String) :
    run.Precedes (run.addSource path text).1 := by
  unfold addSource
  split
  · exact .refl run
  · simp only
    split
    · exact ⟨rfl, fun _ met => met, id⟩
    · rename_i found _
      have grown := run.store.precedes_extend found.records
      split <;> rename_i extended <;> rw [extended] at grown <;> exact ⟨rfl, grown, id⟩

theorem precedes_addFile (run : Run) (path : String) (bytes : List UInt8) :
    run.Precedes (run.addFile path bytes).1 := by
  unfold addFile
  split
  · exact ⟨rfl, fun _ met => met, id⟩
  · exact precedes_addSource run path _

theorem precedes_addFiles (run : Run) (files : List SourceFile) : run.Precedes (run.addFiles files) :=
  List.foldlRecOn files _ (Precedes.refl run) fun _ precedes file _ =>
    precedes.trans (precedes_addFile _ file.path file.bytes)

/-- A run ends once, whatever it is given after that. -/
theorem finish_again (run : Run) (files : List SourceFile) :
    (run.finish.1.addFiles files).finish.2 = .error .finished := by
  have still := (run.finish.1.precedes_addFiles files).finished run.finished_finish
  rw [finish_of_finished still]

/-- A text is refused by a run that is finished, and for a declaration that the store does not take. -/
theorem addSource_isOk_iff (run : Run) (path text : String) :
    (run.addSource path text).2.isOk = true ↔ run.finished = false ∧
      ∀ found, (run.extractor.parseSource text (.ofPath path)).result = .ok found →
        (run.store.extend found.records).2 = none := by
  unfold addSource
  cases closed : run.finished with
  | true => simp [Except.isOk, Except.toBool]
  | false =>
    cases parsed : (run.extractor.parseSource text (.ofPath path)).result with
    | error failure => simp [Except.isOk, Except.toBool, parsed]
    | ok found =>
      rcases extended : run.store.extend found.records with ⟨store, _ | failure⟩ <;>
        simp [Except.isOk, Except.toBool, parsed, extended]

/-- A file that a run takes it would have taken before. -/
theorem Precedes.addFile_isOk (precedes : a.Precedes b) {path : String} {bytes : List UInt8}
    (taken : (b.addFile path bytes).2.isOk = true) : (a.addFile path bytes).2.isOk = true := by
  unfold addFile at taken ⊢
  cases decoded : Text.utf8Decode bytes with
  | error fault => rfl
  | ok text =>
    simp only [decoded] at taken ⊢
    rw [addSource_isOk_iff, precedes.extractor] at taken
    rw [addSource_isOk_iff]
    refine ⟨?_, fun found parsed => precedes.store.extend_done (taken.2 found parsed)⟩
    by_contra closed
    have closed' := precedes.finished (Bool.of_not_eq_false closed)
    rw [taken.1] at closed'
    cases closed'

end Run

namespace Stream

variable {s t : Stream} {d : Demand} {out : List SourceFile}

/-- Each file that an open pass has handed out was due, and the run took it. -/
theorem Opens.passed (opens : s.Opens d out t) {before : List SourceFile} {file : SourceFile}
    {after : List SourceFile} (split : out = before ++ file :: after) :
    d.drive.take ≠ some before.length ∧ d.drive.failAfter ≠ some before.length ∧
      ((s.run.addFiles before).addFile file.path file.bytes).2.isOk = true := by
  induction opens generalizing after with
  | begun => simp at split
  | @handed out last _ t _ _ opens _ stays goesOn added ih =>
    rcases List.eq_nil_or_concat after with rfl | ⟨after, x, rfl⟩
    · obtain ⟨rfl, rfl⟩ := List.append_singleton_inj.mp split
      exact ⟨stays, goesOn, by rw [← opens.run, added]; rfl⟩
    · have split' : out ++ [last] = (before ++ file :: after) ++ [x] := by simpa using split
      exact ih (List.append_singleton_inj.mp split').1

/-- Where a pass has handed out more than some files, it was not to end after those. -/
theorem Opens.went_on (opens : s.Opens d out t) {first : List SourceFile} (shorter : first <+: out) :
    first = out ∨ d.drive.take ≠ some first.length ∧ d.drive.failAfter ≠ some first.length := by
  obtain ⟨_ | ⟨file, later⟩, split⟩ := shorter
  · exact Or.inl (by rw [← split, List.append_nil])
  · obtain ⟨stays, goesOn, _⟩ := opens.passed split.symm
    exact Or.inr ⟨stays, goesOn⟩

/-- What a pass that has begun leaves behind, a pass like it does not complete. -/
theorem not_completes_again (begins : d.Begins) (s : Stream) : ¬(s.serve d).1.Completes d := by
  rintro ⟨opened, stays, records, finished⟩
  obtain ⟨out, t, run, outcome, raised, opens, ends, served⟩ := serve_ends begins s
  rw [served] at opened finished
  have closes : ∀ result, t.run.finish ≠ (run, result) := by
    intro result ended
    have again := t.run.finish_again d.files
    rw [ended] at again
    cases finished.symm.trans again
  have further := opened.went_on opens.out_prefix
  cases ends with
  | closed taken =>
    rcases further with rfl | ⟨due, _⟩
    · exact stays taken
    · exact due taken
  | gaveUp _ shorter gaveUp =>
    rcases further with rfl | ⟨_, goesOn⟩
    · exact absurd shorter (Nat.lt_irrefl _)
    · exact goesOn gaveUp
  | @refused file _ _ _ _ files _ refused =>
    -- the run that has refused the file goes on to one that takes it
    have taken := (opened.passed files).2.2
    have after : t.run.Precedes (run.addFiles out) := by
      have next := t.run.precedes_addFile file.path file.bytes
      rw [refused] at next
      exact next.trans (run.precedes_addFiles out)
    have taken' := after.addFile_isOk taken
    rw [refused] at taken'
    cases taken'
  | unfinished _ _ ended => exact closes _ ended
  | finished _ _ ended => exact closes _ ended

/-- Passes over the same files that are driven alike only fail with their input or with the run. -/
theorem pipes_stem (run : Run) (drive : Drive) (files : List SourceFile) (n : Nat) :
    let d : Demand := ⟨drive, files⟩
    let s := (pipes drive files n { run := run }).1
    ∀ failure, (s.serve d).2.raised = some failure → s.Stems d (s.serve d).2.yielded failure := by
  intro d s
  rw [stems_iff]
  rintro ⟨completes, settled⟩
  have piped : s = (({ run := run } : Stream).passes (List.replicate n d)).1 := by
    rw [← pipes_eq_passes]
  cases n with
  | zero => cases settled
  | succ n =>
    rw [List.replicate_succ', passes_append] at piped
    by_cases begins : d.Begins
    · rw [piped] at completes
      exact not_completes_again begins _ completes
    · exact begins completes.1.begins

end Stream

end SheetDoc
