import SheetDoc.Proofs.Run.Isolation
import SheetDoc.Proofs.Extraction.Warnings

namespace SheetDoc.Run

/-- The failures of the run are what it has reported on files. -/
def Accounts (run : Run) : Prop := run.failures = run.events.filter (·.kind = "file")

variable {run : Run}

theorem Accounts.fail (accounts : run.Accounts) (path words : String) :
    (run.fail path words).Accounts := by
  unfold Accounts at accounts ⊢
  simp [Run.fail, accounts, Event.warning]

theorem Accounts.addSource (accounts : run.Accounts) (path text : String) :
    (run.addSource path text).1.Accounts := by
  unfold Run.addSource
  split
  · exact accounts
  · have parsed : ({ run with events := run.events ++
        (run.extractor.parseSource text (.ofPath path)).events } : Run).Accounts := by
      have none : ∀ e ∈ (run.extractor.parseSource text (.ofPath path)).events,
          ¬decide (e.kind = "file") = true := by
        intro e member
        have about : e.kind = "syntax" := Extractor.syntax_parseSource member
        simp [about]
      unfold Accounts at accounts ⊢
      rw [List.filter_append, List.filter_eq_nil_iff.mpr none, List.append_nil]
      exact accounts
    simp only
    split
    · exact parsed.fail _ _
    · split <;> exact parsed

theorem Accounts.apply (accounts : run.Accounts) (c : Call) : (c.apply run).1.Accounts := by
  cases c with
  | source path text => exact accounts.addSource path text
  | file path bytes =>
    rw [Call.apply, addFile]
    split
    · exact accounts.fail _ _
    · exact accounts.addSource path _

end SheetDoc.Run
