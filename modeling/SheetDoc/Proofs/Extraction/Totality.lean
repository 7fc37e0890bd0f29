import SheetDoc.Proofs.Extraction.Defaults
import SheetDoc.Proofs.Tag.Answers

namespace SheetDoc

namespace Report

variable {α β : Type}

theorem foldl_total {step : β → α → Report β} {P : β → Prop} {l : List α}
    (total : ∀ a ∈ l, ∀ b, P b → ∃ b', (step b a).result = .ok b' ∧ P b') {b : β} (holds : P b) :
    ∃ b', (foldl step b l).result = .ok b' ∧ P b' := by
  induction l generalizing b with
  | nil => exact ⟨b, rfl, holds⟩
  | cons a rest ih =>
    obtain ⟨m, first, next⟩ := total a List.mem_cons_self b holds
    obtain ⟨b', later, reached⟩ := ih (fun c inside => total c (List.mem_cons_of_mem a inside)) next
    exact ⟨b', andThen_eq_ok.mpr ⟨m, first, later⟩, reached⟩

theorem forEach_total {step : α → Report β} {as : List α}
    (total : ∀ a ∈ as, ∃ b, (step a).result = .ok b) : ∃ bs, (forEach step as).result = .ok bs := by
  obtain ⟨bs, each⟩ := exists_forall₂ total
  exact ⟨bs, forEach_eq_ok.mpr each⟩

end Report

namespace Extractor

variable {x : Extractor} {c : Config} {r : Record}

theorem applyTag_total (standard : x.IsBuiltin c) (text : c.HasTextPrefix) (poster : Bool)
    (line : Int) (typed : r.Typed) (item : Tagged) :
    ∃ r', (x.applyTag poster line r item).result = .ok r' := by
  obtain ⟨entry, found⟩ := standard.known item.tag
  cases entry with
  | none =>
    simp only [applyTag, found, keepUnknown, typed.strayValue?]
    split_ifs <;> exact ⟨_, rfl⟩
  | some a =>
    have member : a ∈ Tag.builtins c := standard.listed ▸ Registry.mem_of_get? found
    cases parses : a.parse with
    | none => exact ⟨r, by simp only [applyTag, found, parses]; rfl⟩
    | some parse =>
      rw [applyTag_of_typed found parses poster line typed]
      split_ifs
      · exact ⟨r, rfl⟩
      · exact ⟨r, rfl⟩
      · -- what a builtin parser gives is marked, and what it refuses is a warning
        rcases (Tag.answering_builtins text a member).parse parse parses item.raw r typed with
          ⟨m, taken⟩ | ⟨fault, refused⟩
        · have kept := ((Tag.confined_builtins c a member).parse parse parses _ r m typed taken).typed
          simp only [taken, mark_of_typed kept]
          exact ⟨_, rfl⟩
        · simp only [refused]
          exact ⟨r, rfl⟩

theorem fillSignatureDefaults_total (typed : r.Typed) : ∃ r', fillSignatureDefaults r = .ok r' := by
  obtain ⟨parameters, holds, _⟩ := r.own_takes (f := .parameter) rfl
  simp only [fillSignatureDefaults, Record.readKind, typed.contextFor, typed.read, typed.flaw, holds,
    Except.map, bind, Except.bind]
  split_ifs <;> exact ⟨_, rfl⟩

theorem finishDraft_total (standard : x.IsBuiltin c) (poster : Bool) (typed : r.Typed) :
    ∃ draft, (x.finishDraft poster r).result = .ok draft := by
  cases poster with
  | true => exact ⟨some r, rfl⟩
  | false =>
    obtain ⟨m, filled⟩ := fillSignatureDefaults_total typed
    have typed' : m.Typed := by
      obtain ⟨_, rfl⟩ := fillSignatureDefaults_ok typed filled
      exact typed
    have autofills : ∀ a ∈ x.autofill, ∀ r : Record, r.Typed →
        ∃ r', runAutofill r a = .ok r' ∧ r'.Typed := by
      intro a member r typed
      have inside := (standard.filling a member).1
      obtain ⟨r', done⟩ := Tag.runAutofill_builtins a inside r typed
      exact ⟨r', done, ((Tag.confined_builtins c a inside).autofill r r' typed done).typed⟩
    obtain ⟨n, autofilled, _⟩ := foldlM_total autofills typed'
    exact ⟨some n, bind_eq_ok.mpr ⟨m, mapError_eq_ok.mpr filled, bind_eq_ok.mpr ⟨n, autofilled, rfl⟩⟩⟩

theorem extract_total (standard : x.IsBuiltin c) (text : c.HasTextPrefix) (b : Block)
    (file : FileRef) : ∃ draft, (x.extract b file).result = .ok draft := by
  rw [extract_eq]
  split
  · exact ⟨none, rfl⟩
  · have applies : ∀ item ∈ foldExamples x.registry (Comment.ofText b.comment).items,
        ∀ r : Record, r.Typed →
          ∃ r', (x.applyTag b.poster (b.commentStart + item.offset) r item).result = .ok r' ∧
            r'.Typed := by
      intro item _ r typed
      obtain ⟨r', done⟩ := applyTag_total standard text b.poster (b.commentStart + item.offset) typed item
      exact ⟨r', done, typed_applyTag standard.keepsTypes.registered typed done⟩
    obtain ⟨m, tagged, typed⟩ := Report.foldl_total applies (b := blank b file) rfl
    obtain ⟨draft, finished⟩ := finishDraft_total standard b.poster typed
    exact ⟨draft, Report.andThen_eq_ok.mpr ⟨m, tagged, finished⟩⟩

theorem extractAll_total (standard : x.IsBuiltin c) (text : c.HasTextPrefix) (file : FileRef)
    (bs : List Block) : ∃ found, (x.extractAll file bs).result = .ok found := by
  have drafts : ∀ b ∈ bs, ∃ draft,
      ((x.extract b file).andThen fun r => .done (b.poster, r)).result = .ok draft := by
    intro b _
    obtain ⟨draft, extracted⟩ := extract_total standard text b file
    exact ⟨(b.poster, draft), Report.andThen_eq_ok.mpr ⟨draft, extracted, rfl⟩⟩
  obtain ⟨made, each⟩ := Report.forEach_total drafts
  exact ⟨_, Report.andThen_eq_ok.mpr ⟨made, each, rfl⟩⟩

theorem takeOver_total (standard : x.IsBuiltin c) {poster : Record} (source : poster.Typed)
    (typed : r.Typed) (name : String) : ∃ r', x.takeOver poster r name = .ok r' ∧ r'.Typed := by
  obtain ⟨entry, found⟩ := standard.known name
  simp only [takeOver, found, typed.sets, typed.readKind]
  cases entry with
  | none => exact ⟨r, rfl, typed⟩
  | some a =>
    have member : a ∈ Tag.builtins c := standard.listed ▸ Registry.mem_of_get? found
    cases field : a.field with
    | none => exact ⟨r, by simp only [bind, Except.bind, field]; rfl, typed⟩
    | some f =>
      have merges := (Tag.merges_builtins c a member f field).1
      obtain ⟨_, _, m, _, _, inherits, typed', _, _⟩ := Record.inherit_of_merges typed source merges
      simp only [bind, Except.bind, field, inherits, addTag_of_typed typed']
      split_ifs
      all_goals first | exact ⟨r, rfl, typed⟩ | exact ⟨_, rfl, typed'⟩

theorem mergePosters_total (standard : x.IsBuiltin c) {posters rs : List Record}
    (sources : ∀ p ∈ posters, p.Typed) (typed : ∀ r ∈ rs, r.Typed) :
    ∃ merged, x.mergePosters posters rs = .ok merged ∧ ∀ r ∈ merged, r.Typed := by
  refine foldlM_total (fun poster member rs typed => ?_) typed
  have each : ∀ r ∈ rs, ∃ r', x.mergePoster poster r = .ok r' := by
    intro r inside
    obtain ⟨r', done, _⟩ := foldlM_total
      (fun name _ r typed => takeOver_total standard (sources poster member) typed name) (typed r inside)
    exact ⟨r', done⟩
  obtain ⟨merged, done⟩ := mapM_total each
  refine ⟨merged, done, fun r' inside => ?_⟩
  obtain ⟨r, before, here⟩ := exists_of_forall₂ (mapM_eq_ok.mp done) inside
  exact standard.keepsTypes.maintains.mergePoster (sources poster member) (typed r before) here

/-- Every source is read to its end where private names are told by a text. -/
theorem parseSource_total (standard : x.IsBuiltin c) (text : c.HasTextPrefix) (source : String)
    (file : FileRef) : ∃ found, (x.parseSource source file).result = .ok found := by
  obtain ⟨all, extracted⟩ := extractAll_total standard text file (scanBlocks source)
  have typed : ∀ d ∈ all, d.2.Typed := by
    obtain ⟨ds, drafts, rfl⟩ := drafts_of_extractAll extracted
    intro d member
    obtain ⟨draft, inside, rfl⟩ := List.mem_map.mp member
    exact standard.keepsTypes.maintains.extract_alike (drafts.made draft inside)
  have side : ∀ keep : Bool × Record → Bool, ∀ r ∈ (all.filter keep).map (·.2), r.Typed := by
    intro keep r member
    obtain ⟨d, inside, rfl⟩ := List.mem_map.mp member
    exact typed d (List.mem_of_mem_filter inside)
  obtain ⟨merged, merging, typed'⟩ :=
    mergePosters_total standard (side (·.1)) (side (!·.1))
  obtain ⟨records, completing⟩ :=
    mapM_total fun r member => applyFallbacks_total standard (typed' r member)
  exact ⟨_, Report.andThen_eq_ok.mpr ⟨all, extracted, bind_eq_ok.mpr
    ⟨merged, mapError_eq_ok.mpr merging, bind_eq_ok.mpr ⟨records, completing, rfl⟩⟩⟩⟩

end Extractor

end SheetDoc
