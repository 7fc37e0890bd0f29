import SheetDoc.Proofs.Extraction.Precedence
import SheetDoc.Proofs.Extraction.Totality

namespace SheetDoc

/-- A way that ends in a state with a property has a step that first brings the property about. -/
theorem Report.foldl_turns {α β : Type} {step : β → α → Report β} {P : β → Prop} {l : List α}
    {b b' : β} (done : (foldl step b l).result = .ok b') (before : ¬P b) (after : P b') :
    ∃ front a rest m m', l = front ++ a :: rest ∧ (foldl step b front).result = .ok m ∧ ¬P m ∧
      (step m a).result = .ok m' ∧ P m' ∧ (foldl step m' rest).result = .ok b' := by
  induction l generalizing b with
  | nil =>
    cases done
    exact absurd after before
  | cons a rest ih =>
    obtain ⟨m, first, later⟩ := andThen_eq_ok.mp done
    by_cases here : P m
    · exact ⟨[], a, rest, b, m, rfl, rfl, before, first, here, later⟩
    · obtain ⟨front, a', rest', s, s', split, reached, unset, turn, set, last⟩ := ih later here
      exact ⟨a :: front, a', rest', s, s', congrArg (a :: ·) split,
        andThen_eq_ok.mpr ⟨m, first, reached⟩, unset, turn, set, last⟩

/-- A value gives the same level on two records, unless it goes by their names and only one of these
is private. -/
theorem Tag.accessLevel_iff {mark : Data} {raw level : String} {q r : Record}
    (found : accessLevel mark raw q = .ok level) :
    accessLevel mark raw r = .ok level ↔
      (Text.lowered (Text.trimmed raw) = "auto" → isPrivateName mark r = isPrivateName mark q) := by
  unfold accessLevel at found ⊢
  by_cases auto : Text.lowered (Text.trimmed raw) = "auto"
  · simp only [auto, if_true] at found ⊢
    obtain ⟨hidden, told, words⟩ := bind_eq_ok.mp found
    have told : isPrivateName mark q = .ok hidden := mapError_eq_ok.mp told
    constructor
    · intro same _
      obtain ⟨hidden', told', words'⟩ := bind_eq_ok.mp same
      have told' : isPrivateName mark r = .ok hidden' := mapError_eq_ok.mp told'
      have alike := Except.ok.inj (words'.trans words.symm)
      rw [told, told']
      cases hidden <;> cases hidden' <;> first | rfl | exact absurd alike (by decide)
    · intro alike
      exact bind_eq_ok.mpr ⟨hidden, mapError_eq_ok.mpr ((alike trivial).trans told), words⟩
  · rw [if_neg auto] at found ⊢
    exact ⟨fun _ here => absurd here auto, fun _ => found⟩

namespace Extractor

variable {x : Extractor} {c : Config} {a : Tag} {f : Field} {r r' : Record}

/-- A tag of a comment gives the draft its value of the tag `a`: the first one that is taken, with the
record `q` that it is applied to and what it makes of it. -/
def Sets (x : Extractor) (a : Tag) (b : Block) (file : FileRef) (item : Tagged) (q m : Record) : Prop :=
  x.Meets b file item q ∧ q.has a.name = false ∧ x.registry.get? item.tag = .ok (some a) ∧
    ∃ step, a.parse = some step ∧ step item.raw q = .ok m

/-- Once a tag that stands once is set, the tags that follow are other ones, or refused. -/
theorem applyTags_keeps (standard : x.IsBuiltin c) (owns : a.Owns c f) (once : a.multiple = false)
    {poster : Bool} {start : Int} {items : List Tagged} (typed : r.Typed) (set : r.has a.name = true)
    (done : (x.applyTags poster start r items).result = .ok r') : r.Keeps a f r' := by
  refine (Report.foldl_keeps (P := fun n => r.Keeps a f n ∧ n.has a.name = true) ?_ done
    ⟨Record.Keeps.refl typed, set⟩).1
  rintro item _ n n' applied ⟨keeps, set⟩
  rcases applyTag_keeps standard owns keeps.typed applied with same | ⟨_, _, _, agreed, _⟩
  · exact ⟨keeps.trans same, same.has.trans set⟩
  · simp only [objection?_of_typed poster keeps.typed, set, once, Bool.not_false, Bool.and_true,
      if_true] at agreed
    split at agreed <;> cases agreed

/-- The field of a tag that stands once has what the first tag that is taken puts there. -/
theorem sets_of_extract (standard : x.IsBuiltin c) (owns : a.Owns c f) (once : a.multiple = false)
    {b : Block} {file : FileRef} (poster : b.poster = true)
    (done : (x.extract b file).result = .ok (some r)) (set : r.has a.name = true) :
    ∃ item q m, x.Sets a b file item q m ∧ r.own f = m.own f := by
  obtain ⟨r', tagged, same⟩ := extract_ok done
  rw [if_pos poster] at same
  subst same
  obtain ⟨front, item, rest, q, s, split, reached, unset, turn, marks, later⟩ :=
    Report.foldl_turns (P := fun r : Record => r.has a.name = true) tagged Bool.false_ne_true set
  have start : (blank b file).Typed := rfl
  have typed : q.Typed := Report.foldl_keeps
    (fun _ _ _ _ applied typed => typed_applyTag standard.keepsTypes.registered typed applied)
    reached start
  rcases applyTag_keeps standard owns typed turn with keeps | ⟨step, m, found, _, parses, parsed, marked⟩
  · exact absurd (keeps.has ▸ marks) unset
  · have wrote := (Tag.confined_builtins c a owns.builtin).parse step parses _ q m typed parsed
    obtain ⟨tagged, _⟩ := Record.wrote_mark wrote.typed marked
    have keeps : s.Keeps a f r := applyTags_keeps standard owns once tagged.typed marks later
    refine ⟨item, q, m, ⟨⟨front, rest, split, reached⟩, Bool.eq_false_iff.mpr unset, found, step,
      parses, parsed⟩, ?_⟩
    rw [keeps.own, tagged.own owns.not_tags owns.stored]

/-- A poster has a name where its comment gives it one, and none otherwise. -/
theorem named_applyTags (standard : x.IsBuiltin c) {b : Block} {file : FileRef}
    (poster : b.poster = true) {items : List Tagged}
    (done : (x.applyTags b.poster b.commentStart (blank b file) items).result = .ok r) :
    r.has "name" = true ∨ r.context.name = "" := by
  have start : (blank b file).context.name = "" := by simp [blank, poster]
  refine (Report.foldl_keeps
    (P := fun r : Record => r.Typed ∧ (r.has "name" = true ∨ r.context.name = "")) ?_ done
    ⟨rfl, Or.inr start⟩).2
  rintro item _ r r' applied ⟨typed, named⟩
  refine ⟨typed_applyTag standard.keepsTypes.registered typed applied, ?_⟩
  rcases applyTag_ok applied with rfl | kept | ⟨a, step, m, found, _, parses, parsed, marked⟩
  · exact named
  · have wrote := wrote_keepUnknown typed kept
    rw [wrote.has (by simp), wrote.context (by simp)]
    exact named
  · have member : a ∈ Tag.builtins c := standard.listed ▸ Registry.mem_of_get? found
    have wrote := (Tag.confined_builtins c a member).parse step parses _ r m typed parsed
    obtain ⟨tagged, has⟩ := Record.wrote_mark wrote.typed marked
    rw [has, wrote.has (Tag.place_ne_tags member)]
    by_cases renames : a = Tag.rename
    · subst renames
      exact Or.inl (by simp [Tag.rename])
    · have elsewhere : a.place ≠ .context := fun here =>
        renames (Tag.eq_rename member here)
      rw [tagged.context (by simp), wrote.context elsewhere]
      exact named.imp_left fun set => by rw [set, Bool.true_or]

theorem access_plain (c : Config) : (Tag.access c).Plain c .access :=
  ⟨Tag.access_mem, rfl, rfl, nofun⟩

/-- Who is silent about access has it from the first poster that declares one. -/
theorem completes_access (standard : x.IsBuiltin c) {posters : List Record} {p : Record}
    (stands : r.Stands c (Tag.access c) .access)
    (sources : ∀ p ∈ posters, p.Stands c (Tag.access c) .access)
    (completes : x.Completes posters r r') (silent : r.has "access" = false)
    (speaks : posters.find? (·.has "access") = some p) :
    r'.read .access = (p.read .access).map Value.distinct := by
  obtain ⟨_, v, read, decides, _⟩ :=
    completes_decided standard (access_plain c) stands sources completes
  have lacks : r.lacks (Tag.access c) = true := by
    change (!r.has "access" && true) = true
    rw [silent]
    rfl
  have speaker : speaker (Tag.access c) posters r = some p := by
    rw [speaker, lacks, if_pos rfl]
    exact speaks
  have unset : r.has (Tag.access c).name = false := silent
  rw [decided, unset, if_neg Bool.false_ne_true, speaker] at decides
  rw [read, ← decides]

/-- A record has the access that a poster declares. The level is found on the poster, as the tags
before make it, and on the record the value would give another one only where it goes by the name, and
the name of one of the two alone is private. -/
def SharesAccess (x : Extractor) (c : Config) (b : Block) (file : FileRef) (r : Record) : Prop :=
  ∃ item q m level, x.Sets (Tag.access c) b file item q m ∧
    (q.has "name" = true ∨ q.context.name = "") ∧
    Tag.accessLevel c.privatePrefix item.raw q = .ok level ∧ r.read .access = .ok (.text level) ∧
    (Tag.accessLevel c.privatePrefix item.raw r = .ok level ↔
      (Text.lowered (Text.trimmed item.raw) = "auto" →
        Tag.isPrivateName c.privatePrefix r = Tag.isPrivateName c.privatePrefix q))

/-- The access that a poster declares, on the poster. -/
theorem access_of_sets {b : Block} {file : FileRef} {item : Tagged} {q m p : Record} (typed : p.Typed)
    (sets : x.Sets (Tag.access c) b file item q m) (own : p.own .access = m.own .access) :
    ∃ level, Tag.accessLevel c.privatePrefix item.raw q = .ok level ∧
      p.read .access = .ok (.text level) := by
  obtain ⟨_, _, _, step, parses, parsed⟩ := sets
  cases Option.some.inj parses
  obtain ⟨level, found, settled⟩ := bind_eq_ok.mp parsed
  refine ⟨level, found, ?_⟩
  rw [typed.read, own, ← Except.ok.inj settled]
  rfl

theorem sharesAccess_of_completes (standard : x.IsBuiltin c) {file : FileRef} {posters : List Record}
    {d : Block × Record} (poster : d.1.poster = true)
    (made : (x.extract d.1 file).result = .ok (some d.2))
    (stands : r.Stands c (Tag.access c) .access)
    (sources : ∀ p ∈ posters, p.Stands c (Tag.access c) .access)
    (completes : x.Completes posters r r') (silent : r.has "access" = false)
    (speaks : posters.find? (·.has "access") = some d.2) : x.SharesAccess c d.1 file r' := by
  have typed := (sources d.2 (List.mem_of_find?_eq_some speaks)).typed
  have set : d.2.has (Tag.access c).name = true :=
    List.find?_some (p := fun q : Record => q.has "access") speaks
  obtain ⟨item, q, m, sets, own⟩ :=
    sets_of_extract standard (access_plain c).owns rfl poster made set
  obtain ⟨level, found, read⟩ := access_of_sets typed sets own
  have taken : r'.read .access = .ok (.text level) := by
    rw [completes_access standard stands sources completes silent speaks, read]
    rfl
  have ⟨⟨_, _, _, reached⟩, _⟩ := sets
  exact ⟨item, q, m, level, sets, named_applyTags standard poster reached, found, taken,
    Tag.accessLevel_iff found⟩

/-- The records of a file whose own comments declare no access have the level that the first poster
declares, as it is found on the poster. -/
theorem parseSource_access {g : Registry} {frozen : Bool}
    (standard : Registry.standard c [] = .ok g) (made : make { g with frozen := frozen } c = .ok x)
    (marks : c.HasTextPrefix) (text : String) (file : FileRef) :
    ∃ found ds, (x.parseSource text file).result = .ok found ∧
      Drafts (x.extract · file) (scanBlocks text) ds ∧
      List.Forall₂ (fun own r => own.has "access" = false →
        ∀ d, (ds.filter (·.1.poster)).find? (·.2.has "access") = some d →
          x.SharesAccess c d.1 file r) (ownOf ds) found.records := by
  have builtin := isBuiltin_of_make standard made
  obtain ⟨found, done⟩ := parseSource_total builtin marks text file
  obtain ⟨ds, drafts, completed, _⟩ := parseSource_ok done
  have stands : ∀ side : Block → Bool, ∀ r ∈ (ds.filter (side ·.1)).map (·.2),
      r.Stands c (Tag.access c) .access := by
    intro side r member
    obtain ⟨d, inside, rfl⟩ := List.mem_map.mp member
    exact stands_extract builtin (access_plain c) (drafts.made d (List.mem_of_mem_filter inside))
  refine ⟨found, ds, done, drafts, ?_⟩
  refine ((List.forall₂_and_left _ _).mpr ⟨stands (!·.poster), completed⟩).imp ?_
  rintro own r ⟨own_stands, completes⟩ silent d speaks
  have member := List.mem_filter.mp (List.mem_of_find?_eq_some speaks)
  have first : (postersOf ds).find? (·.has "access") = some d.2 := by
    rw [postersOf, List.find?_map]
    change ((ds.filter (·.1.poster)).find? (·.2.has "access")).map (·.2) = some d.2
    rw [speaks]
    rfl
  exact sharesAccess_of_completes builtin member.2 (drafts.made d member.1) own_stands
    (stands (·.poster)) completes silent first

def autoText : String := "////\n/// @access auto\n////\n/// Hi\n$_a: 1;"

def autoBlock : Block := ⟨"@access auto", "", 1, none, none, true⟩

def hiddenBlock : Block := ⟨"Hi", "$_a: 1;", 4, some 5, some 5, false⟩

def autoPoster : Record where
  context := { kind := .unknown }
  file := ⟨"a.scss", "a.scss"⟩
  commentLine := 1
  access := some Tag.publicWord
  tags := ["access"]

def hiddenDraft : Record :=
  { todoDraft with context := { todoDraft.context with name := "_a", code := "$_a: 1;" } }

def hiddenRecord : Record :=
  { hiddenDraft with access := some Tag.publicWord, tags := ["access"], group := ["undefined"] }

theorem drafts_auto : Drafts (quiet.extract · ⟨"a.scss", "a.scss"⟩) (scanBlocks autoText)
    [(autoBlock, autoPoster), (hiddenBlock, hiddenDraft)] := by
  have blocks : scanBlocks autoText = [autoBlock, hiddenBlock] := by decide +kernel
  have poster : (quiet.extract autoBlock ⟨"a.scss", "a.scss"⟩).result = .ok (some autoPoster) := by
    have comment : Comment.ofText autoBlock.comment = ⟨"", [⟨"access", "auto", 0⟩]⟩ := rfl
    simp only [extract, comment]
    rfl
  have draft : (quiet.extract hiddenBlock ⟨"a.scss", "a.scss"⟩).result = .ok (some hiddenDraft) := by
    have context : Context.ofBlock hiddenBlock = hiddenDraft.context := by decide +kernel
    have comment : Comment.ofText hiddenBlock.comment = ⟨"Hi", []⟩ := rfl
    simp only [extract, context, comment]
    rfl
  rw [blocks]
  exact .keep poster (.keep draft .nil)

theorem parseSource_auto :
    (quiet.parseSource autoText ⟨"a.scss", "a.scss"⟩).result = .ok ⟨[hiddenRecord], []⟩ := by
  have merged : quiet.mergePosters [autoPoster] [hiddenDraft] =
      .ok [{ hiddenDraft with access := some Tag.publicWord, tags := ["access"] }] := by rfl
  have completed : quiet.applyFallbacks
      { hiddenDraft with access := some Tag.publicWord, tags := ["access"] } =
      .ok hiddenRecord := by rfl
  exact parseSource_of_drafts drafts_auto merged (mapM_eq_ok.mpr (.cons completed .nil))

theorem parseSource_access_auto :
    make { Registry.builtin quietConfig with frozen := true } quietConfig = .ok quiet ∧
      quietConfig.HasTextPrefix ∧
      quiet.SharesAccess quietConfig autoBlock ⟨"a.scss", "a.scss"⟩ hiddenRecord := by
  have made : make { Registry.builtin quietConfig with frozen := true } quietConfig = .ok quiet := rfl
  have marks : quietConfig.HasTextPrefix := fun _ => ⟨"_", rfl⟩
  obtain ⟨found, ds, done, drafts, shares⟩ :=
    parseSource_access (Registry.standard_nil quietConfig) made marks autoText ⟨"a.scss", "a.scss"⟩
  obtain rfl := Except.ok.inj (done.symm.trans parseSource_auto)
  obtain rfl := drafts.unique drafts_auto
  have first : ([(autoBlock, autoPoster), (hiddenBlock, hiddenDraft)].filter (·.1.poster)).find?
      (·.2.has "access") = some (autoBlock, autoPoster) := rfl
  have silent : hiddenDraft.has "access" = false := rfl
  obtain ⟨shared, _⟩ := List.forall₂_cons.mp shares
  exact ⟨made, marks, shared silent (autoBlock, autoPoster) first⟩

/-- The level that a poster declares need not be the one that the value would give the record: here
the poster has no name, and the private name of the record stays public. -/
theorem parseSource_access_hidden :
    ¬∀ found ds, (quiet.parseSource autoText ⟨"a.scss", "a.scss"⟩).result = .ok found →
      Drafts (quiet.extract · ⟨"a.scss", "a.scss"⟩) (scanBlocks autoText) ds →
      List.Forall₂ (fun own r => own.has "access" = false →
        ∀ d, (ds.filter (·.1.poster)).find? (·.2.has "access") = some d →
          ∃ item q m level, quiet.Sets (Tag.access quietConfig) d.1 ⟨"a.scss", "a.scss"⟩ item q m ∧
            Tag.accessLevel quietConfig.privatePrefix item.raw r = .ok level ∧
            r.read .access = .ok (.text level)) (ownOf ds) found.records := by
  intro each
  obtain ⟨agrees, _⟩ := List.forall₂_cons.mp (each _ _ parseSource_auto drafts_auto)
  obtain ⟨item, q, m, level, ⟨⟨front, rest, split, _⟩, _⟩, found, read⟩ :=
    agrees rfl (autoBlock, autoPoster) rfl
  have tags : foldExamples quiet.registry (Comment.ofText autoBlock.comment).items =
      [⟨"access", "auto", 0⟩] := rfl
  have value : item = ⟨"access", "auto", 0⟩ := by
    have member : item ∈ front ++ item :: rest := List.mem_append_right _ List.mem_cons_self
    rw [← split, tags] at member
    exact List.mem_singleton.mp member
  subst value
  have hidden : Tag.accessLevel quietConfig.privatePrefix "auto" hiddenRecord = .ok Tag.privateWord := by
    rfl
  cases hidden.symm.trans found
  have shown : hiddenRecord.read .access = .ok (.text Tag.publicWord) := rfl
  have words : Tag.publicWord = Tag.privateWord := by simpa using shown.symm.trans read
  exact absurd words (by decide)

end Extractor

end SheetDoc
