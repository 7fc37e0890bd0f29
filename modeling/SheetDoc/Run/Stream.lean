import SheetDoc.Run.Basic

namespace SheetDoc

structure SourceFile where
  path : String
  bytes : List UInt8
  deriving DecidableEq

/-- What the stream promises: the records of all its files. -/
inductive Promise
  | pending
  | cancelled
  | failed (failure : Failure)
  | fulfilled (records : List Record)

namespace Promise

def isPending : Promise → Bool
  | pending => true
  | _ => false

/-- A promise that is settled stays as it is. -/
def settle (p outcome : Promise) : Promise := if p.isPending then outcome else p

end Promise

/-- Files that come out unchanged while their records are collected. -/
structure Stream where
  run : Run
  promise : Promise := .pending

/-- How a pass is driven: how many files are taken before it is closed, if it is, and before which
file its input gives up, if it does. -/
structure Drive where
  take : Option Nat := none
  failAfter : Option Nat := none
  /-- What an input that gives up fails with. -/
  fault : Failure := .gaveUp "input failed"

/-- The files that came out of a pass, and the failure that it ended with. -/
structure Pass where
  yielded : List SourceFile
  raised : Option Failure := none

namespace Stream

/-- Ends a pass with a failure, which an open promise takes on. -/
def raise (s : Stream) (failure : Failure) : Stream × Pass :=
  ({ s with promise := s.promise.settle (.failed failure) }, ⟨[], some failure⟩)

/-- Ends a pass whose input is exhausted. A promise that was settled before cannot take on the
records. -/
def complete (s : Stream) : Stream × Pass :=
  match s.run.finish with
  | (run, .error failure) => raise { s with run := run } failure
  | (run, .ok records) =>
    if s.promise.isPending then ({ run := run, promise := .fulfilled records }, ⟨[], none⟩)
    else ({ s with run := run }, ⟨[], some .settled⟩)

/-- Goes on with the files from number `index` on. -/
def pull (drive : Drive) (s : Stream) (index : Nat) : List SourceFile → Stream × Pass
  | [] => s.complete
  | file :: rest =>
    if drive.failAfter = some index then s.raise drive.fault
    else
      match s.run.addFile file.path file.bytes with
      | (run, .error failure) => raise { s with run := run } failure
      | (run, .ok _) =>
        let s := { s with run := run }
        if drive.take = some (index + 1) then
          ({ s with promise := s.promise.settle .cancelled }, ⟨[file], none⟩)
        else
          let (s, pass) := pull drive s (index + 1) rest
          (s, { pass with yielded := file :: pass.yielded })

/-- One pass over the files. A pass that is to take none does not begin. -/
def pipe (drive : Drive) (files : List SourceFile) (s : Stream) : Stream × Pass :=
  if drive.take = some 0 then (s, ⟨[], none⟩) else s.pull drive 0 files

/-- Several passes over the same files, driven in the same way. -/
def pipes (drive : Drive) (files : List SourceFile) : Nat → Stream → Stream × List Pass
  | 0, s => (s, [])
  | n + 1, s =>
    let (s, pass) := pipe drive files s
    let (s, passes) := pipes drive files n s
    (s, pass :: passes)

end Stream

end SheetDoc
