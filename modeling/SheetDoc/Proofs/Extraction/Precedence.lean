import SheetDoc.Proofs.Extraction.Defaults
import SheetDoc.Proofs.Extraction.Posters

namespace SheetDoc.Extractor

variable {x : Extractor} {c : Config} {a : Tag} {f : Field} {p r r' : Record}

/-- The value of a field as the comment has it, else the first poster, else the default. -/
def decided (c : Config) (a : Tag) (f : Field) (posters : List Record) (own : Record) :
    Except Misuse Value :=
  if own.has a.name then own.read f
  else
    match speaker a posters own with
    | some poster => (poster.read f).map Value.distinct
    | none => .ok (c.unset f)

/-- A field that the comment or a poster decides is not for the defaults. -/
theorem completes_follows (standard : x.IsBuiltin c) (plain : a.Plain c f) {posters : List Record}
    (typed : r.Typed) (sources : ∀ p ∈ posters, p.Stands c a f)
    (decided : r.has a.name = true ∨ speaker a posters r ≠ none)
    (completes : x.Completes posters r r') : Record.Follows a f (speaker a posters r) r r' := by
  obtain ⟨m, merged, completed⟩ := completes
  have follows := mergePosters_follows standard plain.shares typed
    (fun p member => (sources p member).familiar) merged
  cases speaks : speaker a posters r with
  | none =>
    rw [speaks] at follows
    have keeps : r.Keeps a f m := follows
    have set : r.has a.name = true := decided.resolve_right fun spoken => spoken speaks
    exact keeps.trans (applyFallbacks_keeps standard plain.owns keeps.typed
      (Or.inr (keeps.has.trans set)) completed)
  | some poster =>
    rw [speaks] at follows
    have adopts : poster.Adopts a f r m := follows
    exact adopts.keeps (applyFallbacks_keeps standard plain.owns adopts.typed (Or.inr adopts.has) completed)

/-- A field that nobody decides takes its default. -/
theorem completes_unset (standard : x.IsBuiltin c) (plain : a.Plain c f) {posters : List Record}
    (typed : r.Typed) (sources : ∀ p ∈ posters, p.Stands c a f) (unset : r.has a.name = false)
    (empty : r.own f = .ok f.empty) (silent : speaker a posters r = none)
    (completes : x.Completes posters r r') : r'.Typed ∧ r'.kind = r.kind ∧ r'.own f = .ok (c.unset f) := by
  obtain ⟨m, merged, completed⟩ := completes
  have follows := mergePosters_follows standard plain.shares typed
    (fun p member => (sources p member).familiar) merged
  rw [silent] at follows
  have keeps : r.Keeps a f m := follows
  obtain ⟨typed', kind, _⟩ := applyFallbacks_frame standard keeps.typed completed
  exact ⟨typed', kind.trans keeps.kind, applyFallbacks_supplies standard plain keeps.typed
    (keeps.has.trans unset) (keeps.own.trans empty) completed⟩

/-- A completed record against its draft. -/
theorem completes_decided (standard : x.IsBuiltin c) (plain : a.Plain c f) {posters : List Record}
    (stands : r.Stands c a f) (sources : ∀ p ∈ posters, p.Stands c a f)
    (completes : x.Completes posters r r') :
    r'.kind = r.kind ∧
      ∃ v, r'.read f = .ok v ∧ decided c a f posters r = .ok v ∧ f.fits v := by
  obtain ⟨v, holds, value⟩ := stands.value
  rw [decided, stands.typed.read]
  cases set : r.has a.name with
  | true =>
    have follows := completes_follows standard plain stands.typed sources (Or.inl set) completes
    have silent : speaker a posters r = none := by simp [speaker, Record.lacks, set]
    rw [silent] at follows
    have keeps : r.Keeps a f r' := follows
    rw [set, if_pos rfl] at value
    rw [if_pos rfl, keeps.typed.read]
    exact ⟨keeps.kind, v, keeps.own.trans holds, holds, value⟩
  | false =>
    rw [set, if_neg Bool.false_ne_true] at value
    subst value
    rw [if_neg Bool.false_ne_true]
    cases speaks : speaker a posters r with
    | none =>
      obtain ⟨typed, kind, supplied⟩ :=
        completes_unset standard plain stands.typed sources set holds speaks completes
      rw [typed.read]
      exact ⟨kind, _, supplied, rfl, fits_unset c f⟩
    | some poster =>
      have follows := completes_follows standard plain stands.typed sources
        (Or.inr (by simp [speaks])) completes
      rw [speaks] at follows
      have adopts : poster.Adopts a f r r' := follows
      obtain ⟨member, set⟩ := speaker_spec speaks
      obtain ⟨v, read, fits, taken⟩ := adopts_distinct plain holds (sources poster member) set adopts
      refine ⟨adopts.kind, v.distinct, taken, ?_, Field.fits_distinct fits⟩
      simp only [read]
      rfl

/-- The defaults do not change what a draft decides. -/
theorem decided_alone (standard : x.IsBuiltin c) (plain : a.Plain c f) (posters : List Record)
    (typed : r.Typed) (parsed : x.applyFallbacks r = .ok r') :
    decided c a f posters r' = decided c a f posters r := by
  obtain ⟨typed', kind, has⟩ := applyFallbacks_frame standard typed parsed
  have lacks : r'.lacks a = r.lacks a := by
    rw [Record.lacks, has, kind, Record.lacks]
  have same : speaker a posters r' = speaker a posters r := by
    rw [speaker, lacks, speaker]
  rw [decided, decided, has, same]
  by_cases set : r.has a.name = true
  · have keeps := applyFallbacks_keeps standard plain.owns typed (Or.inr set) parsed
    rw [if_pos set, if_pos set, typed'.read, typed.read, keeps.own]
  · rw [if_neg set, if_neg set]

/-- The drafts of blocks against the blocks parsed each by itself. -/
theorem drafts_alone (standard : x.IsBuiltin c) {file : FileRef} {bs : List Block}
    {ds : List (Block × Record)} (drafts : Drafts (x.extract · file) bs ds) :
    ∃ alone, Drafts (x.parseBlock · file) bs alone ∧ postersOf alone = postersOf ds ∧
      List.Forall₂ (fun d r => x.applyFallbacks d = .ok r) (ownOf ds) (ownOf alone) := by
  induction drafts with
  | nil => exact ⟨[], .nil, rfl, .nil⟩
  | skip made _ ih =>
    obtain ⟨alone, parsed, posters, own⟩ := ih
    exact ⟨alone, .skip (Report.andThen_eq_ok.mpr ⟨none, made, rfl⟩) parsed, posters, own⟩
  | @keep b r bs ds made _ ih =>
    obtain ⟨alone, parsed, posters, own⟩ := ih
    by_cases poster : b.poster = true
    · have alike : (x.parseBlock b file).result = .ok (some r) :=
        Report.andThen_eq_ok.mpr ⟨some r, made, by simp [poster, Report.done]⟩
      refine ⟨(b, r) :: alone, .keep alike parsed, ?_, ?_⟩
      · simpa [postersOf, poster] using posters
      · simpa [ownOf, poster] using own
    · obtain ⟨r', completed⟩ :=
        applyFallbacks_total standard (standard.keepsTypes.maintains.extract_alike made)
      have alike : (x.parseBlock b file).result = .ok (some r') :=
        Report.andThen_eq_ok.mpr ⟨some r, made, by simp [poster, completed, Report.ofExcept, Except.map]⟩
      refine ⟨(b, r') :: alone, .keep alike parsed, ?_, ?_⟩
      · simpa [postersOf, poster] using posters
      · simpa [ownOf, poster] using And.intro completed own

/-- A record against its own block parsed by itself: every field that only comments, posters and
defaults write is as these decide it. -/
structure Settles (c : Config) (posters : List Record) (own r : Record) : Prop where
  kind : r.kind = own.kind
  fields : ∀ a f, Tag.Plain c a f → r.read f = decided c a f posters own
  group : ∃ name, r.read .group = .ok (.texts [name])
  access : r.read .access = .ok (.text Tag.publicWord) ∨ r.read .access = .ok (.text Tag.privateWord)

theorem settles_of_completes (standard : x.IsBuiltin c) {posters : List Record} {own : Record}
    (stands : ∀ a f, Tag.Plain c a f → r.Stands c a f ∧ ∀ p ∈ posters, p.Stands c a f)
    (parsed : x.applyFallbacks r = .ok own) (completes : x.Completes posters r r') :
    Settles c posters own r' := by
  have fields : ∀ a f, Tag.Plain c a f → r'.kind = own.kind ∧
      ∃ v, r'.read f = .ok v ∧ decided c a f posters own = .ok v ∧ f.fits v := by
    intro a f plain
    obtain ⟨stands, sources⟩ := stands a f plain
    obtain ⟨kind, v, read, decides, fits⟩ := completes_decided standard plain stands sources completes
    obtain ⟨_, same, _⟩ := applyFallbacks_frame standard stands.typed parsed
    rw [decided_alone standard plain posters stands.typed parsed]
    exact ⟨kind.trans same.symm, v, read, decides, fits⟩
  obtain ⟨kind, _, group, _, name, rfl⟩ := fields (Tag.group c) .group ⟨Tag.group_mem, rfl, rfl, nofun⟩
  obtain ⟨_, v, access, _, levels⟩ := fields (Tag.access c) .access ⟨Tag.access_mem, rfl, rfl, nofun⟩
  refine ⟨kind, fun a f plain => ?_, ⟨name, group⟩, ?_⟩
  · obtain ⟨_, v, read, decides, _⟩ := fields a f plain
    rw [read, decides]
  · rcases levels with rfl | rfl
    · exact Or.inl access
    · exact Or.inr access

/-- The records of a file against its blocks parsed each by itself. What the comment of a record
sets is what its block alone gives, whatever posters the file has and wherever they stand; what it
leaves out comes from the first poster that sets it, where the tag may stand, and from the default
otherwise. -/
theorem parseSource_settles {g : Registry} {frozen : Bool}
    (standard : Registry.standard c [] = .ok g) (made : make { g with frozen := frozen } c = .ok x)
    {text : String} {file : FileRef} {found : FileRecords}
    (done : (x.parseSource text file).result = .ok found) :
    ∃ alone, Drafts (x.parseBlock · file) (scanBlocks text) alone ∧
      List.Forall₂ (Settles c (postersOf alone)) (ownOf alone) found.records := by
  have builtin := isBuiltin_of_make standard made
  obtain ⟨ds, drafts, completed, _⟩ := parseSource_ok done
  obtain ⟨alone, parsed, posters, own⟩ := drafts_alone builtin drafts
  have stands : ∀ a f, Tag.Plain c a f → ∀ side : Block → Bool,
      ∀ r ∈ (ds.filter (side ·.1)).map (·.2), r.Stands c a f := by
    intro a f plain side r member
    obtain ⟨d, inside, rfl⟩ := List.mem_map.mp member
    exact stands_extract builtin plain (drafts.made d (List.mem_of_mem_filter inside))
  refine ⟨alone, parsed, ?_⟩
  rw [posters]
  have known : ∀ d ∈ ownOf ds, ∀ a f, Tag.Plain c a f →
      d.Stands c a f ∧ ∀ p ∈ postersOf ds, p.Stands c a f :=
    fun d member a f plain => ⟨stands a f plain (!·.poster) d member, stands a f plain (·.poster)⟩
  refine (forall₂_comp own.flip ((List.forall₂_and_left _ _).mpr ⟨known, completed⟩)).imp ?_
  rintro r r' ⟨d, parsed, stands, completes⟩
  exact settles_of_completes builtin stands parsed completes

/-- A configuration that reads nothing out of the code. -/
def quietConfig : Config := { Config.default with autofill := .list [] }

def quiet : Extractor where
  registry := { Registry.builtin quietConfig with frozen := true }
  includeUnknown := false
  defaultGroup := "undefined"
  autofill := []

def todoPoster : Record where
  context := { kind := .unknown }
  file := ⟨"a.scss", "a.scss"⟩
  commentLine := 1
  todos := ["x"]
  tags := ["todo"]

def todoDraft : Record where
  context :=
    { kind := .var, name := "a", value := some "1", scope := some "private", code := "$a: 1;"
      lineStart := some 5, lineEnd := some 5 }
  file := ⟨"a.scss", "a.scss"⟩
  description := "Hi"
  commentLine := 4

def todoRecord : Record :=
  { todoDraft with
    todos := ["x"], tags := ["todo"], access := some Tag.publicWord, group := ["undefined"] }

/-- A poster gives its value to a record whose comment sets nothing. -/
theorem parseSource_todo :
    (quiet.parseSource "////\n/// @todo x\n////\n/// Hi\n$a: 1;" ⟨"a.scss", "a.scss"⟩).result =
      .ok ⟨[todoRecord], []⟩ := by
  have blocks : scanBlocks "////\n/// @todo x\n////\n/// Hi\n$a: 1;" =
      [⟨"@todo x", "", 1, none, none, true⟩, ⟨"Hi", "$a: 1;", 4, some 5, some 5, false⟩] := by
    decide +kernel
  have poster : (quiet.extract ⟨"@todo x", "", 1, none, none, true⟩ ⟨"a.scss", "a.scss"⟩).result =
      .ok (some todoPoster) := by
    have comment : Comment.ofText "@todo x" = ⟨"", [⟨"todo", "x", 0⟩]⟩ := rfl
    simp only [extract, comment]
    rfl
  have draft : (quiet.extract ⟨"Hi", "$a: 1;", 4, some 5, some 5, false⟩
      ⟨"a.scss", "a.scss"⟩).result = .ok (some todoDraft) := by
    have context : Context.ofBlock ⟨"Hi", "$a: 1;", 4, some 5, some 5, false⟩ =
        todoDraft.context := by decide +kernel
    have comment : Comment.ofText "Hi" = ⟨"Hi", []⟩ := rfl
    simp only [extract, context, comment]
    rfl
  have merged : quiet.mergePosters [todoPoster] [todoDraft] =
      .ok [{ todoDraft with todos := ["x"], tags := ["todo"] }] := by rfl
  have completed : quiet.applyFallbacks { todoDraft with todos := ["x"], tags := ["todo"] } =
      .ok todoRecord := by rfl
  have drafts : Drafts (quiet.extract · ⟨"a.scss", "a.scss"⟩)
      (scanBlocks "////\n/// @todo x\n////\n/// Hi\n$a: 1;")
      [(⟨"@todo x", "", 1, none, none, true⟩, todoPoster),
        (⟨"Hi", "$a: 1;", 4, some 5, some 5, false⟩, todoDraft)] := by
    rw [blocks]
    exact .keep poster (.keep draft .nil)
  exact parseSource_of_drafts drafts merged (mapM_eq_ok.mpr (.cons completed .nil))

theorem parseSource_settles_todo :
    make { Registry.builtin quietConfig with frozen := true } quietConfig = .ok quiet ∧
      ∃ alone,
        Drafts (quiet.parseBlock · ⟨"a.scss", "a.scss"⟩)
          (scanBlocks "////\n/// @todo x\n////\n/// Hi\n$a: 1;") alone ∧
        List.Forall₂ (Settles quietConfig (postersOf alone)) (ownOf alone) [todoRecord] := by
  have made : make { Registry.builtin quietConfig with frozen := true } quietConfig = .ok quiet := rfl
  exact ⟨made, parseSource_settles (Registry.standard_nil quietConfig) made parseSource_todo⟩

end SheetDoc.Extractor
