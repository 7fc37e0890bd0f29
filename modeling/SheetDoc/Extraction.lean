import SheetDoc.Tag.Registry
import SheetDoc.Block.Scan
import SheetDoc.Code.Construct
import SheetDoc.Comment
import SheetDoc.Record.ToData
import SheetDoc.Report

namespace SheetDoc

/-- What the extraction of a run goes by. -/
structure Extractor where
  registry : Registry
  includeUnknown : Bool
  defaultGroup : String
  /-- The tags whose autofill step runs, in this order. -/
  autofill : List Tag

namespace Extractor

/-- The tag that an entry of the autofill list names. -/
def autofillOf (g : Registry) (entry : Data) : Except Failure Tag :=
  match entry with
  | .list _ | .map _ => .error (.misuse (.unhashable entry.shape))
  | .scalar value => do
    let found ←
      match value with
      | .text tag => (g.get? tag).mapError Failure.misuse
      | _ => .ok none
    match found with
    | none => .error (.registry (.unknownAutofill entry.plainText))
    | some a =>
      if a.autofill.isNone then .error (.registry (.withoutAutofill a.name)) else .ok a

def make (g : Registry) (c : Config) : Except Failure Extractor := do
  let entries ←
    if c.autofill.truthy then
      match c.autofill.elements? with
      | some entries => pure entries
      | none => .error (.misuse (.notIterable c.autofill.shape))
    else pure []
  return {
    registry := g
    includeUnknown := c.includesUnknown
    defaultGroup := c.defaultGroup
    autofill := ← entries.mapM (autofillOf g) }

/-- Puts unknown tags behind an example back into its code; `last` is the value read before. -/
def foldExamplesFrom (g : Registry) (last : Tagged) : List Tagged → List Tagged
  | [] => [last]
  | item :: rest =>
    if !g.has item.tag && g.canonical? last.tag == some "example" then
      let code := last.raw.toList ++ '\n' :: '@' :: item.tag.toList ++ ' ' :: item.raw.toList
      foldExamplesFrom g { last with raw := String.ofList (Text.trimRight code) } rest
    else last :: foldExamplesFrom g item rest

def foldExamples (g : Registry) : List Tagged → List Tagged
  | [] => []
  | item :: rest => foldExamplesFrom g item rest

def notAllowed (name : String) (kind : Kind) : String :=
  "Annotation `" ++ name ++ "` is not allowed on comment from type `" ++ kind.word ++ "`."

def onlyOnce (name : String) : String :=
  "Annotation `" ++ name ++ "` is only allowed once per comment, second value will be ignored."

def keepUnknown (r : Record) (tag raw : String) : Except Misuse Record :=
  match r.strayValue? .unknown with
  | some v => .error (.noPart v.shape "setdefault")
  | none =>
    .ok { r with
      unknown := r.unknown.set tag (((r.unknown.get? tag).getD []) ++ [Text.trimmed raw]) }

def addTag (r : Record) (name : String) : Except Misuse Record :=
  r.adding .tags (.text name) fun r => { r with tags := r.tags ++ [name] }

/-- Notes that the comment sets a tag. -/
def mark (r : Record) (name : String) : Except Misuse Record := do
  if ← r.marks name then return r else addTag r name

/-- Why a tag may not stand where it does. On a poster every tag may. -/
def objection? (poster : Bool) (r : Record) (a : Tag) : Except Misuse (Option String) := do
  let refused ←
    if poster then pure none
    else
      let kind ← r.readKind
      pure (if a.allowsKind kind then none else some (notAllowed a.name kind))
  match refused with
  | some message => return some message
  | none =>
    if a.multiple then return none
    else return if ← r.sets a.name then some (onlyOnce a.name) else none

/-- Applies one tag on the given line. What a tag refuses is reported and left out. -/
def applyTag (x : Extractor) (poster : Bool) (line : Int) (r : Record) (item : Tagged) :
    Report Record :=
  match x.registry.get? item.tag with
  | .error fault => .fail (.misuse fault)
  | .ok none =>
    if x.includeUnknown then .ofExcept do keepUnknown r item.tag item.raw else .done r
  | .ok (some a) =>
    match a.parse with
    | none => .done r
    | some parse =>
      (Report.ofExcept do r.readPath).andThen fun path =>
        let warn (message : String) : Report Record :=
          .tell (.warning "syntax" message (some path) (some line)) r
        (Report.ofExcept do objection? poster r a).andThen fun
          | some message => warn message
          | none =>
            match parse item.raw r with
            | .ok r => .ofExcept do mark r a.name
            | .error (.tag fault) => warn fault.message
            | .error failure => .fail failure

/-- Applies the tags of a comment that begins on line `start`. -/
def applyTags (x : Extractor) (poster : Bool) (start : Int) (r : Record) (items : List Tagged) :
    Report Record :=
  Report.foldl (fun r item => x.applyTag poster (start + item.offset) r item) r items

/-- Takes defaults that the comment does not give from the signature. -/
def fillSignatureDefaults (r : Record) : Except Misuse Record := do
  let kind ← r.readKind
  let parameters ← r.read .parameter
  if (kind = .function ∨ kind = .mixin) ∧ parameters.truthy then
    let defaults := signatureDefaults r.context.code
    r.flaw .parameter "default"
    return { r with
      parameters := r.parameters.map fun p =>
        match p.value with
        | some _ => p
        | none => { p with value := defaults.get? p.name } }
  else return r

/-- Keeps the value of an autofill step under the tag's name, unless there is one already. -/
def keepExtra (r : Record) (a : Tag) (v : Value) : Except Misuse Record :=
  match r.strayValue? .extra with
  | none =>
    .ok (if r.extra.has a.name then r else { r with extra := r.extra.set a.name v.toData })
  | some (.data (.scalar (.text s))) =>
    if Record.standsIn a.name s then .ok r else .error (.noItems .text)
  | some other => .error (.notContainer other.shape)

/-- Merges the value of an autofill step, without overriding what the comment set. A value without
a field is kept under the tag's name. -/
def mergeFilling (r : Record) (a : Tag) (v : Value) : Except Misuse Record :=
  if v.isVoid then .ok r
  else
    match a.field with
    | some f => r.fill f v
    | none => keepExtra r a v

/-- Runs the autofill step of one tag. -/
def runAutofill (r : Record) (a : Tag) : Except Failure Record :=
  match a.autofill with
  | none => .ok r
  | some step => do
    let kind ← r.readKind
    if a.allowsKind kind then mergeFilling r a (← step r) else return r

/-- Parses and autofills a block; there is nothing to keep when it documents something unknown and
such blocks are not asked for. -/
def extract (x : Extractor) (b : Block) (file : FileRef) : Report (Option Record) :=
  let context : Context := if b.poster then { kind := .unknown } else Context.ofBlock b
  if !b.poster && context.kind == .unknown && !x.includeUnknown then .done none
  else
    let comment := Comment.ofText b.comment
    let r : Record :=
      { context := context, file := file, description := comment.description
        commentLine := b.commentStart }
    (x.applyTags b.poster b.commentStart r (foldExamples x.registry comment.items)).andThen
      fun r =>
        if b.poster then .done (some r)
        else .ofExcept do return some (← x.autofill.foldlM runAutofill (← fillSignatureDefaults r))

/-- Sets a field that holds nothing. A field without a name is none. -/
def supply (r : Record) (f : Field) (step : Record → Except Failure Value) :
    Except Failure Record := do
  if f = .other "" then return r
  else
    let current ← r.read f
    if current.truthy then return r else r.assign f (← step r)

/-- Sets the field of one tag that the comment does not use. -/
def applyFallback (r : Record) (a : Tag) : Except Failure Record :=
  match a.fallback with
  | none => .ok r
  | some step => do
    if ← r.sets a.name then return r
    else
      match a.field with
      | none => return r
      | some f => supply r f step

def applyFallbacks (x : Extractor) (r : Record) : Except Failure Record :=
  x.registry.toList.foldlM applyFallback r

/-- The record of one block by itself. -/
def parseBlock (x : Extractor) (b : Block) (file : FileRef) : Report (Option Record) :=
  (x.extract b file).andThen fun
    | none => .done none
    | some r =>
      if b.poster then .done (some r) else .ofExcept ((x.applyFallbacks r).map some)

/-- Annotations that say something about the poster alone. -/
def posterOnly : List String := ["groupDescription", "name"]

/-- Takes one value of a poster over to a record that does not set it. -/
def takeOver (x : Extractor) (poster r : Record) (name : String) : Except Misuse Record := do
  match ← x.registry.get? name with
  | none => return r
  | some a =>
    match a.field with
    | none => return r
    | some f =>
      if posterOnly.contains name then return r
      else if ← r.sets name then return r
      else if a.allowsKind (← r.readKind) then addTag (← r.inherit f poster) name
      else return r

/-- Takes over what a poster sets. -/
def mergePoster (x : Extractor) (poster r : Record) : Except Misuse Record :=
  poster.tags.foldlM (x.takeOver poster) r

/-- Takes over what the posters set, the first poster first. -/
def mergePosters (x : Extractor) (posters rs : List Record) : Except Misuse (List Record) :=
  posters.foldlM (fun rs poster => rs.mapM (x.mergePoster poster)) rs

/-- The group that a poster speaks for. -/
def posterGroup (x : Extractor) (poster : Record) : String :=
  poster.group.headD x.defaultGroup

/-- The group descriptions that posters declare; the last one of a group stands. -/
def describedGroups (x : Extractor) (posters : List Record) : Assoc String String :=
  Assoc.ofList (posters.filterMap fun poster =>
    match poster.groupDescription with
    | some words => if words = "" then none else some (x.posterGroup poster, words)
    | none => none)

/-- The records of a file. -/
structure FileRecords where
  records : List Record
  groupDescriptions : Assoc String String

/-- Parses the blocks of a file, poster or not, and keeps the records with their side. -/
def extractAll (x : Extractor) (file : FileRef) (blocks : List Block) :
    Report (List (Bool × Record)) :=
  (Report.forEach (fun b => (x.extract b file).andThen fun r => .done (b.poster, r)) blocks).andThen
    fun found => .done (found.filterMap fun (poster, r) => r.map (poster, ·))

/-- The records of a file, with what its posters say, and the groups its posters describe. -/
def parseSource (x : Extractor) (text : String) (file : FileRef) : Report FileRecords :=
  (x.extractAll file (scanBlocks text)).andThen fun found =>
    let posters := (found.filter (·.1)).map (·.2)
    let records := (found.filter (!·.1)).map (·.2)
    .ofExcept do
      let merged ← x.mergePosters posters records
      let records ← merged.mapM x.applyFallbacks
      return { records := records, groupDescriptions := x.describedGroups posters }

end Extractor

end SheetDoc
