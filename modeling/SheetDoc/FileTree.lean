import SheetDoc.Failure
import SheetDoc.Path

namespace SheetDoc

/-- Files by the names on the way to them. Directories are there where a file needs them. -/
abbrev FileTree := List (List String × List UInt8)

namespace FileTree

def ofFiles (files : List (String × List UInt8)) : FileTree :=
  files.map fun (path, bytes) => ((Path.ofString path).parts, bytes)

/-- The file at a place, the last one written there. -/
def file? (t : FileTree) (place : List String) : Option (List UInt8) :=
  (t.reverse.find? (·.1 == place)).map (·.2)

def isDirectory (t : FileTree) (place : List String) : Bool :=
  place.isEmpty || t.any fun (parts, _) => place.isPrefixOf parts && parts.length ≠ place.length

/-- No file has a longer name, in bytes. -/
def longestName : Nat := 255

/-- No path is longer, in bytes. -/
def longestPath : Nat := 4095

/-- Walks down from a directory; two dots lead back up. -/
def walk (t : FileTree) (shown : String) (place : List String) :
    List String → Except FileFault (List UInt8)
  | [] =>
    match t.file? place with
    | some bytes => .ok bytes
    | none =>
      if t.isDirectory place then .error (.directory shown) else .error (.missing shown)
  | part :: rest =>
    if t.isDirectory place then
      if longestName < part.utf8ByteSize then .error (.nameTooLong shown)
      else walk t shown (if part = ".." then place.dropLast else place ++ [part]) rest
    else if (t.file? place).isSome then .error (.notDirectory shown)
    else .error (.missing shown)

/-- The bytes of the file that a path leads to. -/
def read (t : FileTree) (path : String) : Except FileFault (List UInt8) :=
  let p := Path.ofString path
  if path.toList.contains (Char.ofNat 0) then .error .nullInPath
  else if longestPath < p.text.utf8ByteSize then .error (.nameTooLong p.text)
  else if p.root = "" then t.walk p.text [] p.parts
  else if p.parts.isEmpty then .error (.directory p.text)
  else .error (.missing p.text)

end FileTree

end SheetDoc
