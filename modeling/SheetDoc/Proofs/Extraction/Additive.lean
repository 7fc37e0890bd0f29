import SheetDoc.Proofs.Extraction.Names
import SheetDoc.Proofs.Extraction.Precedence
import SheetDoc.Proofs.Extraction.Totality
import SheetDoc.Proofs.Extraction.Unknown

namespace SheetDoc

namespace Report

variable {α β γ : Type}

theorem events_andThen_of_silent {s : Report α} {next : α → Report β}
    (silent : ∀ a, (next a).events = []) : (s.andThen next).events = s.events := by
  obtain ⟨events, _ | a⟩ := s
  · rfl
  · simp only [andThen, silent, List.append_nil]

theorem map_andThen {δ : Type} {s : Report α} {f : α → γ} {g : β → δ} {next : α → Report β}
    {next' : γ → Report δ} (later : ∀ a, next' (f a) = (next a).map g) :
    (s.map f).andThen next' = (s.andThen next).map g := by
  obtain ⟨events, _ | a⟩ := s
  · rfl
  · simp only [map, Except.map, andThen, later]

/-- Steps that agree with each other through a function, as long as something holds that they keep. -/
theorem foldl_map {P : β → Prop} {step : β → α → Report β} {step' : γ → α → Report γ} {f : β → γ}
    {as : List α} (same : ∀ a ∈ as, ∀ b, P b → step' (f b) a = (step b a).map f)
    (keeps : ∀ a ∈ as, ∀ b b', P b → (step b a).result = .ok b' → P b') {b : β} (holds : P b) :
    foldl step' (f b) as = (foldl step b as).map f := by
  induction as generalizing b with
  | nil => rfl
  | cons a rest ih =>
    obtain ⟨here, later⟩ := List.forall_mem_cons.mp same
    obtain ⟨kept, keeps⟩ := List.forall_mem_cons.mp keeps
    rw [foldl, foldl, here b holds]
    cases stepped : step b a with
    | mk events result =>
      cases result with
      | error failure => rfl
      | ok m =>
        have next := ih later keeps (kept b m holds (congrArg Report.result stepped))
        simp only [map, Except.map, andThen] at next ⊢
        rw [next]

theorem events_forEach_cons (step : α → Report β) (a : α) (rest : List α) :
    (forEach step (a :: rest)).events =
      match (step a).result with
      | .error _ => (step a).events
      | .ok _ => (step a).events ++ (forEach step rest).events := by
  have silent : ∀ b, ((forEach step rest).andThen fun bs => done (b :: bs)).events =
      (forEach step rest).events := fun b => events_andThen_of_silent fun _ => rfl
  rw [forEach, andThen]
  cases (step a).result with
  | error failure => rfl
  | ok b => simp only [silent]

/-- Steps that tell less than steps that succeed tell less together. -/
theorem events_forEach_sublist {step step' : α → Report β} {as : List α} {bs : List β}
    (within : ∀ a ∈ as, (step' a).events.Sublist (step a).events)
    (done : (forEach step as).result = .ok bs) :
    (forEach step' as).events.Sublist (forEach step as).events := by
  induction as generalizing bs with
  | nil => exact List.Sublist.refl _
  | cons a rest ih =>
    obtain ⟨here, within⟩ := List.forall_mem_cons.mp within
    obtain ⟨b, first, later⟩ := andThen_eq_ok.mp done
    obtain ⟨bs', later, _⟩ := andThen_eq_ok.mp later
    rw [events_forEach_cons, events_forEach_cons, first]
    cases (step' a).result with
    | error failure => exact here.trans (List.sublist_append_left _ _)
    | ok b' => exact here.append (ih within later)

end Report

namespace Extractor

variable {x : Extractor} {c : Config} {r : Record} {b : Block} {file : FileRef}

/-- The extractor that asks for what is unknown. -/
def keeping (x : Extractor) : Extractor := { x with includeUnknown := true }

theorem IsBuiltin.keeping (standard : x.IsBuiltin c) : x.keeping.IsBuiltin c :=
  ⟨standard.listed, standard.named, standard.known, standard.filling⟩

/-- Whether to ask for what is unknown is settled apart from the rest of an extractor. -/
theorem make_including (g : Registry) (c : Config) (choice : Data) :
    make g { c with includeUnknownContexts := choice } =
      (make g c).map fun x => { x with includeUnknown := choice.truthy } := by
  have tags : ∀ entries : List Data,
      (do
        let tags ← entries.mapM (autofillOf g)
        return { registry := g, includeUnknown := choice.truthy, defaultGroup := c.defaultGroup
                 autofill := tags } : Except Failure Extractor) =
        (do
          let tags ← entries.mapM (autofillOf g)
          return { registry := g, includeUnknown := c.includesUnknown, defaultGroup := c.defaultGroup
                   autofill := tags } : Except Failure Extractor).map
          fun x => { x with includeUnknown := choice.truthy } := by
    intro entries
    cases entries.mapM (autofillOf g) <;> rfl
  simp only [make]
  cases c.autofill.truthy with
  | false => rfl
  | true =>
    cases c.autofill.elements? with
    | none => rfl
    | some entries => exact tags entries

/-- A record as it is without its unknown words. -/
abbrev wordless : Record → Record := (Veil.words []).hide

theorem applyTag_keeping (standard : x.IsBuiltin c) (off : x.includeUnknown = false) (typed : r.Typed)
    (poster : Bool) (line : Int) (item : Tagged) :
    x.applyTag poster line (wordless r) item = (x.keeping.applyTag poster line r item).map wordless := by
  cases found : x.registry.get? item.tag with
  | error fault => simp only [applyTag, keeping, found]; rfl
  | ok entry =>
    cases entry with
    | none =>
      have kept : ∃ words, keepUnknown r item.tag item.raw = .ok { r with unknown := words } :=
        ⟨_, by rw [keepUnknown, typed.strayValue?]⟩
      obtain ⟨words, kept⟩ := kept
      simp only [applyTag, keeping, found, off, kept, if_true, Bool.false_eq_true, if_false]
      rfl
    | some a =>
      have same : x.keeping.applyTag poster line r item = x.applyTag poster line r item := by
        simp only [applyTag, keeping, found]
      rw [same]
      exact standard.applyTag_hide (fun missing => by cases found.symm.trans missing) poster line r

theorem applyTags_keeping (standard : x.IsBuiltin c) (off : x.includeUnknown = false) (typed : r.Typed)
    (poster : Bool) (start : Int) (items : List Tagged) :
    x.applyTags poster start (wordless r) items =
      (x.keeping.applyTags poster start r items).map wordless :=
  Report.foldl_map (P := Record.Typed)
    (fun item _ _ typed => applyTag_keeping standard off typed poster (start + item.offset) item)
    (fun _ _ _ _ typed done => typed_applyTag standard.keeping.keepsTypes.registered typed done) typed

/-- A block that is not skipped is read in the same way. -/
theorem extract_keeping (standard : x.IsBuiltin c) (off : x.includeUnknown = false)
    (kept : x.skips b file = false) :
    x.extract b file = (x.keeping.extract b file).map (Option.map wordless) := by
  have all : x.keeping.skips b file = false := by simp [skips, keeping]
  have typed : (blank b file).Typed := rfl
  rw [extract_eq, extract_eq, kept, all, if_neg Bool.false_ne_true, if_neg Bool.false_ne_true]
  have tagged := applyTags_keeping standard off typed b.poster b.commentStart
    (foldExamples x.registry (Comment.ofText b.comment).items)
  have veiled : wordless (blank b file) = blank b file := rfl
  rw [veiled] at tagged
  rw [tagged]
  exact Report.map_andThen fun r => standard.finishDraft_hide b.poster r

theorem extract_skipped (skipped : x.skips b file = true) : x.extract b file = .done none := by
  rw [extract_eq, if_pos skipped]

/-- The drafts of blocks that are not skipped. -/
theorem drafts_keeping (standard : x.IsBuiltin c) (off : x.includeUnknown = false) {bs : List Block}
    {ds : List (Block × Record)} (drafts : Drafts (x.keeping.extract · file) bs ds) :
    Drafts (x.extract · file) bs ((ds.filter (!x.skips ·.1 file)).map (Prod.map id wordless)) := by
  induction drafts with
  | nil => exact .nil
  | @skip b bs ds made _ ih =>
    have all : x.keeping.skips b file = false := by simp [skips, keeping]
    cases (skips_of_extract made).symm.trans all
  | @keep b r bs ds made _ ih =>
    rw [List.filter_cons]
    cases skipped : x.skips b file with
    | true =>
      refine .skip ?_ ih
      rw [extract_skipped skipped]
      rfl
    | false =>
      refine .keep ?_ ih
      rw [extract_keeping standard off skipped, Report.map, made]
      rfl

theorem events_keeping (standard : x.IsBuiltin c) (off : x.includeUnknown = false) {text : String}
    {found : FileRecords} (done : (x.keeping.parseSource text file).result = .ok found) :
    (x.parseSource text file).events.Sublist (x.keeping.parseSource text file).events := by
  obtain ⟨all, extracted, _⟩ := Report.andThen_eq_ok.mp done
  obtain ⟨drafts, each, _⟩ := Report.andThen_eq_ok.mp extracted
  rw [parseSource_eq, parseSource_eq, Report.events_andThen_of_silent fun _ => rfl,
    Report.events_andThen_of_silent fun _ => rfl, extractAll, extractAll,
    Report.events_andThen_of_silent fun _ => rfl, Report.events_andThen_of_silent fun _ => rfl]
  refine Report.events_forEach_sublist (fun b _ => ?_) each
  rw [Report.events_andThen_of_silent fun _ => rfl, Report.events_andThen_of_silent fun _ => rfl]
  cases skipped : x.skips b file with
  | true =>
    rw [extract_skipped skipped]
    exact List.nil_sublist _
  | false =>
    rw [extract_keeping standard off skipped]
    exact List.Sublist.refl _

/-- The posters and the other blocks that are not skipped, without unknown words. -/
theorem sides_keeping (x : Extractor) (file : FileRef) (ds : List (Block × Record)) :
    let found := (ds.filter (!x.skips ·.1 file)).map (Prod.map id wordless)
    postersOf found = (postersOf ds).map wordless ∧
      ownOf found = ((ds.filter (!·.1.poster)).filter (!x.skips ·.1 file)).map (wordless ·.2) := by
  have posters : (ds.filter (!x.skips ·.1 file)).filter (·.1.poster) = ds.filter (·.1.poster) := by
    rw [List.filter_filter]
    refine List.filter_congr fun d _ => ?_
    cases poster : d.1.poster with
    | true => simp [not_skips_of_poster poster]
    | false => rfl
  refine ⟨?_, ?_⟩
  · rw [postersOf, postersOf, List.filter_map, List.map_map, List.map_map, ← posters]
    rfl
  · rw [ownOf, List.filter_map, List.map_map, List.filter_filter, List.filter_filter]
    refine congrArg (List.map _) (List.filter_congr fun d _ => Bool.and_comm _ _)

/-- The records of a source are those of known constructs among all that it has with what is unknown, but
for unknown words. -/
theorem result_keeping (standard : x.IsBuiltin c) (off : x.includeUnknown = false) {text : String}
    {kept : FileRecords} (done : (x.keeping.parseSource text file).result = .ok kept) :
    (x.parseSource text file).result =
      .ok ⟨(kept.records.filter (·.kind != .unknown)).map wordless, kept.groupDescriptions⟩ := by
  obtain ⟨ds, drafts, completed, described⟩ := parseSource_ok done
  obtain ⟨made, _⟩ := drafts.sides
  obtain ⟨posters, own⟩ := sides_keeping x file ds
  have paired : List.Forall₂ (fun d r => (d ∈ ds ∧ d.1.poster = false) ∧
      x.keeping.Completes (postersOf ds) d.2 r) (ds.filter (!·.1.poster)) kept.records := by
    refine (List.forall₂_and_left _ _).mpr ⟨fun d member => ?_, List.forall₂_map_left_iff.mp completed⟩
    obtain ⟨listed, plain⟩ := List.mem_filter.mp member
    exact ⟨listed, by simpa using plain⟩
  have known : ∀ d r, ((d ∈ ds ∧ d.1.poster = false) ∧ x.keeping.Completes (postersOf ds) d.2 r) →
      ((!x.skips d.1 file) = true ↔ (r.kind != .unknown) = true) := by
    rintro d r ⟨⟨listed, plain⟩, completes⟩
    obtain ⟨_, context⟩ := completes_context standard.keeping made (drafts.made d listed) completes
    have kind : r.kind = (blank d.1 file).context.kind := by rw [Record.kind, context]
    simp [skips, plain, off, kind]
  have completed' : List.Forall₂ (x.Completes ((postersOf ds).map wordless))
      (((ds.filter (!·.1.poster)).filter (!x.skips ·.1 file)).map (wordless ·.2))
      ((kept.records.filter (·.kind != .unknown)).map wordless) := by
    refine List.forall₂_map_left_iff.mpr (List.forall₂_map_right_iff.mpr ?_)
    refine (List.rel_filter (fun d r => known d r) paired).imp ?_
    rintro d r ⟨_, completes⟩
    exact standard.completes_hide completes
  rw [← posters, ← own] at completed'
  rw [parseSource_of_completes (drafts_keeping standard off drafts) completed', posters,
    describedGroups_hide, described]
  rfl

/-- Where they are asked for, every record has the unknown words of its comment. -/
theorem unknown_parseSource (standard : x.IsBuiltin c) (asked : x.includeUnknown = true)
    (answers : ∀ word, x.registry.has word = true → x.registry.get? word ≠ .ok none) {text : String}
    {found : FileRecords} (done : (x.parseSource text file).result = .ok found) :
    List.Forall₂ (fun b r => r.unknown = x.unknownWords b) ((scanBlocks text).filter (!·.poster))
      found.records := by
  obtain ⟨ds, drafts, completed, _⟩ := parseSource_ok done
  have all : ((scanBlocks text).filter fun b => !b.poster && !x.skips b file) =
      (scanBlocks text).filter (!·.poster) :=
    List.filter_congr fun b _ => by simp [skips, asked]
  rw [← all]
  refine (forall₂_comp drafts.sides.2 completed).imp ?_
  rintro b r ⟨d, extracted, completes⟩
  rw [unknown_completes standard completes, unknown_extract standard asked answers extracted]

/-- To ask for what is unknown only adds to what comes of a source. Without it there are the records of
known constructs, in the same order and equal but for unknown words, of which there are none; the groups
are described in the same way, and what is told is told with it too. With it every record has the
unknown words of its comment. Where private names are told by a text, the source is read to its end. -/
theorem parseSource_additive {g : Registry} {frozen : Bool} {no yes : Data} {y : Extractor}
    (standard : Registry.standard c [] = .ok g) (declined : no.truthy = false) (asked : yes.truthy = true)
    (without : make { g with frozen := frozen } { c with includeUnknownContexts := no } = .ok x)
    (with' : make { g with frozen := frozen } { c with includeUnknownContexts := yes } = .ok y)
    (text : String) (file : FileRef) :
    (∀ kept, (y.parseSource text file).result = .ok kept →
      (∃ found, (x.parseSource text file).result = .ok found ∧
        found.records =
          (kept.records.filter (·.kind != .unknown)).map (fun r => { r with unknown := [] }) ∧
        found.groupDescriptions = kept.groupDescriptions) ∧
      (x.parseSource text file).events.Sublist (y.parseSource text file).events ∧
      List.Forall₂ (fun b r => r.unknown = y.unknownWords b) ((scanBlocks text).filter (!·.poster))
        kept.records) ∧
      (c.HasTextPrefix → ∃ kept, (y.parseSource text file).result = .ok kept) := by
  rw [make_including, declined] at without
  rw [make_including, asked] at with'
  cases made : make { g with frozen := frozen } c with
  | error failure =>
    rw [made] at without
    cases without
  | ok z =>
    rw [made] at without with'
    cases without
    cases with'
    have builtin := isBuiltin_of_make standard made
    have quiet : IsBuiltin { z with includeUnknown := false } c :=
      ⟨builtin.listed, builtin.named, builtin.known, builtin.filling⟩
    have answers : ∀ word, z.registry.has word = true → z.registry.get? word ≠ .ok none := by
      have same : Registry.builtin c = g :=
        Except.ok.inj ((Registry.standard_nil c).symm.trans standard)
      subst same
      rw [(make_ok made).1]
      intro word known missing
      obtain ⟨a, found⟩ := Registry.get?_of_has (c := c) known
      cases found.symm.trans missing
    refine ⟨fun kept done => ⟨⟨_, result_keeping quiet rfl done, rfl, rfl⟩, ?_, ?_⟩, fun prefixed => ?_⟩
    · exact events_keeping quiet rfl done
    · exact unknown_parseSource quiet.keeping rfl answers done
    · exact parseSource_total quiet.keeping prefixed text file

/-- A poster, a variable with unknown words and an example, and a comment on nothing. -/
def markedText : String :=
  "////\n/// @group g\n////\n" ++
    "/// Text\n/// @mark  one\n/// @example\n///   a\n/// @media x\n/// @todo y\n/// @mark two\n$a: 1;\n\n" ++
    "/// Loose\n/// @content\n/// @mark three\n"

theorem parseSource_additive_marked :
    let file : FileRef := ⟨"a.scss", "a.scss"⟩
    ∃ found kept, (quiet.parseSource markedText file).result = .ok found ∧
      (quiet.keeping.parseSource markedText file).result = .ok kept ∧
      found.records =
        (kept.records.filter (·.kind != .unknown)).map (fun r => { r with unknown := [] }) ∧
      found.groupDescriptions = kept.groupDescriptions ∧
      (quiet.parseSource markedText file).events.Sublist
        (quiet.keeping.parseSource markedText file).events ∧
      List.Forall₂ (fun b r => r.unknown = quiet.keeping.unknownWords b)
        ((scanBlocks markedText).filter (!·.poster)) kept.records ∧
      kept.records.map (fun r => (r.kind, r.unknown)) =
        [(.var, [("mark", ["one", "two"])]), (.unknown, [("mark", ["three"])])] := by
  intro file
  have without : make { Registry.builtin quietConfig with frozen := true }
    { quietConfig with includeUnknownContexts := .bool false } = .ok quiet := rfl
  have with' : make { Registry.builtin quietConfig with frozen := true }
    { quietConfig with includeUnknownContexts := .bool true } = .ok quiet.keeping := rfl
  obtain ⟨adds, total⟩ := parseSource_additive (Registry.standard_nil quietConfig) rfl rfl without with'
    markedText file
  obtain ⟨kept, done⟩ := total fun _ => ⟨_, rfl⟩
  obtain ⟨⟨found, done', records, groups⟩, events, words⟩ := adds kept done
  refine ⟨found, kept, done', done, records, groups, events, words, ?_⟩
  have seen : (quiet.keeping.parseSource markedText file).result.toOption.map
      (·.records.map fun r => (r.kind, r.unknown)) =
      some (kept.records.map fun r => (r.kind, r.unknown)) := by rw [done]; rfl
  refine Option.some.inj (seen.symm.trans ?_)
  unfold parseSource scanBlocks markedText
  -- the characters of a written text are found by a lemma, which spares their decoding
  rw [String.toList_append, String.toList_append, String.toList_ofList, String.toList_ofList,
    String.toList_ofList]
  decide +kernel

end Extractor

end SheetDoc
