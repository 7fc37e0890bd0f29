import SheetDoc.Proofs.Extraction.Source
import SheetDoc.Proofs.Lookup
import SheetDoc.Proofs.Record.Fields

namespace SheetDoc

/-- Whatever a step of the tag makes of a typed record is typed. A step may as well fail. -/
structure Tag.KeepsTypes (a : Tag) : Prop where
  parse : ∀ step, a.parse = some step →
    ∀ raw r r', r.Typed → step raw r = .ok r' → r'.Typed
  autofill : ∀ r r', r.Typed → Extractor.runAutofill r a = .ok r' → r'.Typed
  fallback : ∀ r r', r.Typed → Extractor.applyFallback r a = .ok r' → r'.Typed

/-- A tag that does nothing but parse keeps types as that does. -/
theorem Tag.keepsTypes_of_parse {a : Tag} (parse : ∀ step, a.parse = some step →
    ∀ raw r r', r.Typed → step raw r = .ok r' → r'.Typed) (silent : a.autofill = none)
    (undecided : a.fallback = none) : a.KeepsTypes where
  parse := parse
  autofill r r' typed done := by
    rw [Extractor.runAutofill, silent] at done
    cases done
    exact typed
  fallback r r' typed done := by
    rw [Extractor.applyFallback, undecided] at done
    cases done
    exact typed

theorem Registry.mem_of_get? {g : Registry} {word : String} {a : Tag}
    (found : g.get? word = .ok (some a)) : a ∈ g.toList := by
  unfold get? at found
  split at found
  · cases found
  · split at found
    · cases found
    · split at found
      · rename_i b listed
        cases found
        exact List.mem_map.mpr ⟨_, Assoc.mem_of_get? listed, rfl⟩
      · cases found

namespace Record

theorem Typed.inherit {r p r' : Record} (typed : r.Typed) (source : p.Typed) {f : Field}
    (done : r.inherit f p = .ok r') : r'.Typed := by
  cases merges : f.merges with
  | true =>
    obtain ⟨_, _, m, _, _, same, kept, _⟩ := inherit_of_merges typed source merges
    cases Except.ok.inj (same.symm.trans done)
    exact kept
  | false => exact inherit_of_not_merges typed merges done ▸ typed

end Record

namespace Extractor

variable {x : Extractor} {r r' : Record}

theorem addTag_of_typed (typed : r.Typed) (name : String) :
    addTag r name = .ok { r with tags := r.tags ++ [name] } := typed.adding _ _ _

theorem mark_of_typed (typed : r.Typed) (name : String) :
    mark r name = .ok (if r.has name then r else { r with tags := r.tags ++ [name] }) := by
  rw [mark, typed.marks, addTag_of_typed typed]
  change (if r.has name = true then Except.ok r else _) = _
  split <;> rfl

theorem typed_mark (typed : r.Typed) {name : String} (done : mark r name = .ok r') : r'.Typed := by
  rw [mark_of_typed typed] at done
  cases done
  split <;> exact typed

/-- A tag is objected to where it may not stand, and then where it stands once and is set. -/
theorem objection?_of_typed (poster : Bool) (typed : r.Typed) (a : Tag) :
    objection? poster r a =
      .ok (if !poster && !a.allowsKind r.kind then some (notAllowed a.name r.kind)
        else if !a.multiple && r.has a.name then some (onlyOnce a.name) else none) := by
  simp only [objection?, typed.readKind, typed.sets, bind, Except.bind, pure, Except.pure]
  by_cases allowed : a.allowsKind r.kind = true
  · cases poster <;> cases a.multiple <;> simp [allowed]
  · cases poster <;> cases a.multiple <;> simp [allowed]

/-- The warning of a tag that is refused on a record. -/
def refusal (r : Record) (line : Int) (message : String) : Event :=
  .warning "syntax" message (some r.file.path) (some line)

/-- A tag that is not objected to parses, and is noted where its value is taken. -/
theorem applyTag_of_typed {item : Tagged} {a : Tag} {parse : String → Record → Except Failure Record}
    (found : x.registry.get? item.tag = .ok (some a)) (parses : a.parse = some parse) (poster : Bool)
    (line : Int) (typed : r.Typed) :
    x.applyTag poster line r item =
      if !poster && !a.allowsKind r.kind then
        .tell (refusal r line (notAllowed a.name r.kind)) r
      else if !a.multiple && r.has a.name then .tell (refusal r line (onlyOnce a.name)) r
      else
        match parse item.raw r with
        | .ok m => .ofExcept ((mark m a.name).mapError .misuse)
        | .error (.tag fault) => .tell (refusal r line fault.message) r
        | .error failure => .fail failure := by
  have path : Report.ofExcept (liftM r.readPath) = .done r.file.path := by
    rw [typed.readPath]
    rfl
  have asked : ∀ objection, objection? poster r a = .ok objection →
      Report.ofExcept (liftM (objection? poster r a)) = .done objection := by
    intro objection objects
    rw [objects]
    rfl
  simp only [applyTag, found, parses, path, asked _ (objection?_of_typed poster typed a),
    Report.done_andThen]
  split_ifs
  · rfl
  · rfl
  · rfl

/-- All tags of an extractor keep types. -/
structure KeepsTypes (x : Extractor) : Prop where
  registered : ∀ a ∈ x.registry.toList, a.KeepsTypes
  autofill : ∀ a ∈ x.autofill, a.KeepsTypes

theorem keepsTypes_of_single {x : Extractor} {a : Tag} (listed : x.registry.toList = [a])
    (silent : x.autofill = []) (keeps : a.KeepsTypes) : x.KeepsTypes := by
  refine ⟨?_, ?_⟩
  · rw [listed]
    exact List.forall_mem_singleton.mpr keeps
  · rw [silent]
    exact List.forall_mem_nil _

/-- What one tag of a comment does to a record: nothing, to keep an unknown word, or, where it may
stand, to parse. -/
theorem applyTag_ok {poster : Bool} {line : Int} {item : Tagged}
    (done : (x.applyTag poster line r item).result = .ok r') :
    r' = r ∨ keepUnknown r item.tag item.raw = .ok r' ∨
      ∃ a step m, x.registry.get? item.tag = .ok (some a) ∧ objection? poster r a = .ok none ∧
        a.parse = some step ∧ step item.raw r = .ok m ∧ mark m a.name = .ok r' := by
  unfold applyTag at done
  split at done
  · cases done
  · split at done
    · exact Or.inr (Or.inl (mapError_eq_ok.mp done))
    · exact Or.inl (Except.ok.inj done).symm
  · rename_i a found
    split at done
    · exact Or.inl (Except.ok.inj done).symm
    · rename_i step parses
      obtain ⟨path, _, done⟩ := Report.andThen_eq_ok.mp done
      obtain ⟨objection, asked, done⟩ := Report.andThen_eq_ok.mp done
      split at done
      · exact Or.inl (Except.ok.inj done).symm
      · split at done
        · rename_i m parsed
          exact Or.inr (Or.inr ⟨a, step, m, found, mapError_eq_ok.mp asked, parses, parsed,
            mapError_eq_ok.mp done⟩)
        · exact Or.inl (Except.ok.inj done).symm
        · cases done

theorem typed_keepUnknown (typed : r.Typed) {tag raw : String}
    (done : keepUnknown r tag raw = .ok r') : r'.Typed := by
  rw [keepUnknown, typed.strayValue?] at done
  cases done
  exact typed

theorem typed_applyTag (keeps : ∀ a ∈ x.registry.toList, a.KeepsTypes) {poster : Bool} {line : Int}
    {item : Tagged} (typed : r.Typed)
    (done : (x.applyTag poster line r item).result = .ok r') : r'.Typed := by
  rcases applyTag_ok done with rfl | kept | ⟨a, step, m, found, _, parses, parsed, marked⟩
  · exact typed
  · exact typed_keepUnknown typed kept
  · have member := Registry.mem_of_get? found
    exact typed_mark ((keeps a member).parse step parses _ r m typed parsed) marked

theorem fillSignatureDefaults_ok (typed : r.Typed) (done : fillSignatureDefaults r = .ok r') :
    ∃ change : Parameter → Parameter, r' = { r with parameters := r.parameters.map change } := by
  rw [fillSignatureDefaults, Record.readKind, typed.contextFor, typed.read, typed.flaw] at done
  change (if _ then Except.ok _ else Except.ok _) = Except.ok r' at done
  split at done
  · exact ⟨_, (Except.ok.inj done).symm⟩
  · exact ⟨id, by rw [List.map_id]; exact (Except.ok.inj done).symm⟩

/-- The record of a block before its comment is read. -/
def blank (b : Block) (file : FileRef) : Record where
  context := if b.poster then { kind := .unknown } else Context.ofBlock b
  file := file
  description := (Comment.ofText b.comment).description
  commentLine := b.commentStart

/-- Nothing is kept of a block that documents something unknown, unless such blocks are asked for. -/
def skips (x : Extractor) (b : Block) (file : FileRef) : Bool :=
  !b.poster && (blank b file).context.kind == .unknown && !x.includeUnknown

/-- What the code says about the record of a comment; nothing about a poster. -/
def finishDraft (x : Extractor) (poster : Bool) (r : Record) : Report (Option Record) :=
  if poster then .done (some r)
  else .ofExcept do return some (← x.autofill.foldlM runAutofill (← fillSignatureDefaults r))

theorem extract_eq (b : Block) (file : FileRef) :
    x.extract b file =
      if x.skips b file then .done none
      else (x.applyTags b.poster b.commentStart (blank b file)
        (foldExamples x.registry (Comment.ofText b.comment).items)).andThen (x.finishDraft b.poster) :=
  rfl

/-- A draft is made by the tags of the comment, and then, if it is not a poster, by the code. -/
theorem extract_ok {b : Block} {file : FileRef}
    (done : (x.extract b file).result = .ok (some r)) :
    ∃ m, (x.applyTags b.poster b.commentStart (blank b file)
        (foldExamples x.registry (Comment.ofText b.comment).items)).result = .ok m ∧
      if b.poster then r = m
      else ∃ n, fillSignatureDefaults m = .ok n ∧ x.autofill.foldlM runAutofill n = .ok r := by
  rw [extract_eq] at done
  split at done
  · cases done
  · obtain ⟨m, tagged, done⟩ := Report.andThen_eq_ok.mp done
    refine ⟨m, tagged, ?_⟩
    rw [finishDraft] at done
    by_cases poster : b.poster = true
    · rw [if_pos poster] at done ⊢
      exact (Option.some.inj (Except.ok.inj done)).symm
    · rw [if_neg poster] at done ⊢
      obtain ⟨n, filled, done⟩ := bind_eq_ok.mp done
      obtain ⟨r, filled', done⟩ := bind_eq_ok.mp done
      cases done
      exact ⟨n, mapError_eq_ok.mp filled, filled'⟩

theorem skips_of_extract {b : Block} {file : FileRef} {r? : Option Record}
    (done : (x.extract b file).result = .ok r?) :
    x.skips b file = r?.isNone := by
  rw [extract_eq] at done
  split at done
  · rename_i skipped
    cases done
    exact skipped
  · rename_i kept
    obtain ⟨m, _, done⟩ := Report.andThen_eq_ok.mp done
    rw [Bool.eq_false_iff.mpr kept]
    unfold finishDraft at done
    split at done
    · cases done
      rfl
    · obtain ⟨_, _, done⟩ := bind_eq_ok.mp done
      obtain ⟨_, _, done⟩ := bind_eq_ok.mp done
      cases done
      rfl

theorem not_skips_of_poster {b : Block} {file : FileRef} (poster : b.poster = true) : x.skips b file = false := by
  simp [skips, poster]

/-- Every poster has its draft, and so has every other block that is not skipped. -/
theorem Drafts.sides {file : FileRef} {bs : List Block} {ds : List (Block × Record)}
    (drafts : Drafts (x.extract · file) bs ds) :
    List.Forall₂ (fun b p => (x.extract b file).result = .ok (some p)) (bs.filter (·.poster))
        (postersOf ds) ∧
      List.Forall₂ (fun b d => (x.extract b file).result = .ok (some d))
        (bs.filter fun b => !b.poster && !x.skips b file) (ownOf ds) := by
  unfold postersOf ownOf
  induction drafts with
  | nil => exact ⟨.nil, .nil⟩
  | @skip b bs ds made _ ih =>
    have skipped := skips_of_extract made
    have own : b.poster = false := by
      by_contra poster
      rw [not_skips_of_poster (by simpa using poster)] at skipped
      cases skipped
    simpa [own, skipped] using ih
  | @keep b r bs ds made _ ih =>
    have kept := skips_of_extract made
    obtain ⟨posters, own⟩ := ih
    cases poster : b.poster with
    | true =>
      simp only [List.filter_cons, poster, Bool.not_true, Bool.false_and, if_true, List.map_cons]
      exact ⟨.cons made posters, own⟩
    | false =>
      simp only [List.filter_cons, poster, kept, Option.isNone_some, Bool.not_false, Bool.true_and, if_true,
        List.map_cons]
      exact ⟨posters, .cons made own⟩

/-- A tag of a block, and the record that it is applied to: the one that the tags before it make. -/
def Meets (x : Extractor) (b : Block) (file : FileRef) (item : Tagged) (r : Record) : Prop :=
  ∃ front rest, foldExamples x.registry (Comment.ofText b.comment).items = front ++ item :: rest ∧
    (x.applyTags b.poster b.commentStart (blank b file) front).result = .ok r

/-- What every step of extraction keeps: of a draft while the tags of its comment are applied, and of
a record from then on. Posters stay drafts. -/
structure Preserves (x : Extractor) (D P : Record → Prop) : Prop where
  tag : ∀ poster line item r r', D r → (x.applyTag poster line r item).result = .ok r' → D r'
  signature : ∀ r r', D r → fillSignatureDefaults r = .ok r' → P r'
  filling : ∀ a ∈ x.autofill, ∀ r r', P r → runAutofill r a = .ok r' → P r'
  poster : ∀ p, ∀ name ∈ p.tags, ∀ r r', D p → P r → x.takeOver p r name = .ok r' → P r'
  fallback : ∀ a ∈ x.registry.toList, ∀ r r', P r → applyFallback r a = .ok r' → P r'

/-- What every step keeps, and new records have. -/
structure Maintains (x : Extractor) (D P : Record → Prop) : Prop extends x.Preserves D P where
  start : ∀ b file, D (blank b file)

namespace Preserves

variable {D P : Record → Prop} (preserves : x.Preserves D P)

include preserves

theorem extract {b : Block} {file : FileRef} (start : D (blank b file))
    (done : (x.extract b file).result = .ok (some r)) : if b.poster then D r else P r := by
  obtain ⟨m, tagged, rest⟩ := extract_ok done
  have tagged : D m := Report.foldl_keeps
    (fun item _ r r' applied holds => preserves.tag _ _ item r r' holds applied) tagged start
  split at rest
  · rename_i poster
    rw [if_pos poster]
    exact rest ▸ tagged
  · rename_i own
    obtain ⟨n, filled, autofilled⟩ := rest
    rw [if_neg own]
    exact foldlM_keeps (fun a member r r' done holds => preserves.filling a member r r' holds done)
      autofilled (preserves.signature m n tagged filled)

theorem mergePoster {poster : Record} (source : D poster) (holds : P r)
    (done : x.mergePoster poster r = .ok r') : P r' :=
  foldlM_keeps (fun name listed r r' done holds =>
    preserves.poster poster name listed r r' source holds done) done holds

theorem completes {posters : List Record} (sources : ∀ p ∈ posters, D p) (holds : P r)
    (completes : x.Completes posters r r') : P r' := by
  obtain ⟨m, merged, completed⟩ := completes
  have merged : P m := foldlM_keeps
    (fun p member _ _ done holds => preserves.mergePoster (sources p member) holds done) merged holds
  exact foldlM_keeps (fun a member r r' done holds => preserves.fallback a member r r' holds done)
    completed merged

end Preserves

namespace Maintains

variable {D P : Record → Prop} (maintains : x.Maintains D P)

include maintains

theorem extract {b : Block} {file : FileRef} (done : (x.extract b file).result = .ok (some r)) :
    if b.poster then D r else P r := maintains.toPreserves.extract (maintains.start b file) done

/-- It holds of every record of a file. -/
theorem parseSource {text : String} {file : FileRef} {found : FileRecords}
    (done : (x.parseSource text file).result = .ok found) : ∀ r ∈ found.records, P r := by
  obtain ⟨ds, drafts, completed, _⟩ := parseSource_ok done
  have made : ∀ d ∈ ds, if d.1.poster then D d.2 else P d.2 :=
    fun d member => maintains.extract (drafts.made d member)
  have posters : ∀ p ∈ postersOf ds, D p := by
    intro p member
    obtain ⟨d, inside, rfl⟩ := List.mem_map.mp member
    obtain ⟨listed, poster⟩ := List.mem_filter.mp inside
    have made := made d listed
    rwa [if_pos poster] at made
  intro r member
  obtain ⟨own, inside, completes⟩ := exists_of_forall₂ completed member
  obtain ⟨d, listed, rfl⟩ := List.mem_map.mp inside
  obtain ⟨listed, own⟩ := List.mem_filter.mp listed
  have made := made d listed
  rw [if_neg (by simpa using own)] at made
  exact maintains.completes posters made completes

end Maintains

/-- One property of drafts and records alike. -/
theorem Maintains.extract_alike {P : Record → Prop} (maintains : x.Maintains P P) {b : Block}
    {file : FileRef} (done : (x.extract b file).result = .ok (some r)) : P r := by
  have made := maintains.extract done
  rwa [ite_self] at made

/-- What a poster says about a tag is taken over, unless nothing is to be done: the record does not set
the tag, which may stand on it. -/
theorem takeOver_ok {poster : Record} {name : String}
    (done : x.takeOver poster r name = .ok r') :
    r' = r ∨ ∃ a f m, x.registry.get? name = .ok (some a) ∧ a.field = some f ∧
      r.sets name = .ok false ∧ (∃ kind, r.readKind = .ok kind ∧ a.allowsKind kind = true) ∧
      r.inherit f poster = .ok m ∧ addTag m name = .ok r' := by
  obtain ⟨found, known, done⟩ := bind_eq_ok.mp done
  cases found with
  | none => exact Or.inl (Except.ok.inj done).symm
  | some a =>
    simp only at done
    split at done
    · exact Or.inl (Except.ok.inj done).symm
    · rename_i f field
      split at done
      · exact Or.inl (Except.ok.inj done).symm
      · obtain ⟨set, sets, done⟩ := bind_eq_ok.mp done
        split at done
        · exact Or.inl (Except.ok.inj done).symm
        · rename_i unset
          obtain ⟨kind, kinds, done⟩ := bind_eq_ok.mp done
          split at done
          · rename_i allows
            obtain ⟨m, inherits, done⟩ := bind_eq_ok.mp done
            rw [Bool.eq_false_iff.mpr unset] at sets
            exact Or.inr ⟨a, f, m, known, field, sets, ⟨kind, kinds, allows⟩, inherits, done⟩
          · exact Or.inl (Except.ok.inj done).symm

theorem KeepsTypes.maintains (keeps : x.KeepsTypes) : x.Maintains Record.Typed Record.Typed where
  start _ _ := rfl
  tag _ _ _ _ _ typed done := typed_applyTag keeps.registered typed done
  signature r r' typed done := by
    obtain ⟨_, rfl⟩ := fillSignatureDefaults_ok typed done
    exact typed
  filling a member r r' typed done := (keeps.autofill a member).autofill r r' typed done
  poster p name _ r r' source typed done := by
    rcases takeOver_ok done with rfl | ⟨_, f, m, _, _, _, _, inherits, added⟩
    · exact typed
    · have kept := typed.inherit source inherits
      rw [addTag_of_typed kept] at added
      cases added
      exact kept
  fallback a member r r' typed done := (keeps.registered a member).fallback r r' typed done

/-- Every record of a file is typed. -/
theorem typed_parseSource (keeps : x.KeepsTypes) {text : String} {file : FileRef}
    {found : FileRecords} (done : (x.parseSource text file).result = .ok found) :
    ∀ r ∈ found.records, r.Typed := keeps.maintains.parseSource done

end Extractor

end SheetDoc
