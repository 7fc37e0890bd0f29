import SheetDoc.FileTree
import SheetDoc.Run.Basic

namespace SheetDoc.Run

/-- Reads a file and adds it; a file that cannot be read is noted. -/
def addPath (t : FileTree) (run : Run) (path : String) : Run × Option Failure :=
  match t.read path with
  | .error fault => (run.fail (Path.ofString path).text fault.message, none)
  | .ok bytes =>
    match run.addFile path bytes with
    | (run, .error failure) => (run, some failure)
    | (run, .ok _) => (run, none)

/-- Adds the files in the order of their paths and finishes the run. -/
def addPaths (t : FileTree) (paths : List String) (run : Run) :
    Run × Except Failure (List Record) :=
  match eachUntil (fun path run => addPath t run path) paths run with
  | (run, some failure) => (run, .error failure)
  | (run, none) => run.finish

/-- The records of the files, with the events of the run. -/
def batch (t : FileTree) (paths : List String) (settings : Assoc Scalar Data)
    (more : List Tag) : Report (List Record) :=
  (start settings more none).andThen fun run =>
    let (run, result) := run.addPaths t paths
    ⟨run.events, result⟩

end SheetDoc.Run
