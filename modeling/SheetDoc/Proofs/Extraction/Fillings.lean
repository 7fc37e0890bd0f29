import SheetDoc.Proofs.Extraction.Requirements
import SheetDoc.Proofs.Extraction.Blockwise
import SheetDoc.Proofs.Tag.Notes

namespace SheetDoc

/-- The configuration with the words as the list of the tags that read from code. -/
def Config.withAutofill (c : Config) (words : List String) : Config :=
  { c with autofill := .list (words.map .text) }

namespace Tag

/-- The builtin tags that read from code. -/
def fillings : List Tag := [require, throw, content]

/-- The word is one of the names of the tag. -/
def IsCalled (a : Tag) (word : String) : Prop := word = a.name ∨ word ∈ a.aliases

instance (a : Tag) (word : String) : Decidable (a.IsCalled word) := instDecidableOr

/-- Two lists of words call the same tags that read from code, and nothing else. -/
structure CallAlike (words others : List String) : Prop where
  first : ∀ word ∈ words, ∃ a ∈ fillings, a.IsCalled word
  second : ∀ word ∈ others, ∃ a ∈ fillings, a.IsCalled word
  alike : ∀ a ∈ fillings, (∃ word ∈ words, a.IsCalled word) ↔ ∃ word ∈ others, a.IsCalled word

/-- No other builtin tag has a step that reads from code. -/
theorem mem_fillings_iff {a : Tag} (c : Config) : a ∈ fillings ↔ a ∈ builtins c ∧ a.autofill ≠ none := by
  constructor
  · intro listed
    simp only [fillings, List.mem_cons, List.not_mem_nil, or_false] at listed
    rcases listed with rfl | rfl | rfl <;> exact ⟨by simp [builtins], Option.some_ne_none _⟩
  · rintro ⟨builtin, fills⟩
    revert a
    unfold builtins
    simp [fillings, access, aliasOf, author, deprecated, sample, group, groupDescription, ignore, link, rename,
      output, parameter, property, returns, see, since, todo, type]

theorem get?_called {a : Tag} {c : Config} {word : String} (builtin : a ∈ builtins c)
    (called : a.IsCalled word) : (Registry.builtin c).get? word = .ok (some a) := by
  rcases called with rfl | other
  · exact Registry.get?_builtin builtin
  · exact Registry.get?_alias builtin other

end Tag

/-- What is done no differently a second time is done when it is asked for at least once. -/
theorem ite_again {α : Type} {f : α → α} (again : ∀ a, f (f a) = f a) (p q : Prop) [Decidable p]
    [Decidable q] (a : α) :
    (if q then f (if p then f a else a) else if p then f a else a) = if p ∨ q then f a else a := by
  by_cases first : p <;> by_cases second : q <;> simp [first, second, again]

namespace Item

theorem same_text (s t : String) : (text s).same (text t) = (s == t) := by
  rw [Bool.eq_iff_iff]
  simp [same, Data.same, Scalar.beq_iff_key_eq, Scalar.key]

theorem span_map {α : Type} {own? : Item → Option α} {item : α → Item}
    (faithful : ∀ e, own? (item e) = some e) (l : List α) : span own? (l.map item) = (l, []) := by
  induction l with
  | nil => rfl
  | cons e rest ih => simp only [List.map_cons, span, faithful, ih]

end Item

namespace Record

variable {r : Record} {names others : List String}

/-- The code is asked for the tag, and the record may carry it. -/
def Asks (r : Record) (names : List String) (a : Tag) : Prop := a.name ∈ names ∧ a.allowsKind r.kind = true

instance (names : List String) (a : Tag) : Decidable (r.Asks names a) := instDecidableAnd

/-- The record with what its code tells for the tags of the given names. -/
def told (r : Record) (names : List String) : Record :=
  { r with
    requires := if r.Asks names .require then mergeNew Require.same r.requires (usedRecords r) else r.requires
    throws :=
      if r.Asks names .throw then mergeNew (· == ·) r.throws (raisedErrors r.context.code) else r.throws
    content :=
      if r.Asks names .content then
        if takesContent r.context.code then some (r.content.getD "") else r.content
      else r.content }

theorem told_nil : r.told [] = r := by simp [told, Asks]

/-- Only which names there are matters. -/
theorem told_congr (alike : ∀ n, n ∈ names ↔ n ∈ others) : r.told names = r.told others := by
  simp only [told, Asks, alike]

theorem asks_append {a : Tag} : r.Asks (names ++ others) a ↔ r.Asks names a ∨ r.Asks others a := by
  rw [Asks, Asks, Asks, List.mem_append, or_and_right]

theorem asks_own {a : Tag} : r.Asks [a.name] a ↔ a.allowsKind r.kind = true := by simp [Asks]

theorem not_asks {a b : Tag} (apart : b.name ≠ a.name) : ¬r.Asks [a.name] b :=
  fun asks => apart (List.mem_singleton.mp asks.1)

/-- The code tells nothing new when it is asked again, and what it tells one tag is not seen by the
others. -/
theorem told_told : (r.told names).told others = r.told (names ++ others) := by
  have requires := ite_again (f := (mergeNew Require.same · (usedRecords r)))
    (fun _ => mergeNew_again fun _ => Require.same_iff.mpr rfl) (r.Asks names .require)
    (r.Asks others .require) r.requires
  have throws := ite_again (f := (mergeNew (· == ·) · (raisedErrors r.context.code)))
    (fun _ => mergeNew_again fun _ => beq_self_eq_true _) (r.Asks names .throw)
    (r.Asks others .throw) r.throws
  have content := ite_again
    (f := fun held : Option String => if takesContent r.context.code then some (held.getD "") else held)
    (fun held => by split_ifs <;> rfl) (r.Asks names .content) (r.Asks others .content) r.content
  simp only [told, asks_append, ← requires, ← throws, ← content]
  rfl

end Record

namespace Extractor

open Record

variable {x : Extractor} {c : Config} {r : Record} {a : Tag} {f : Field}

/-- A list that is read from code goes behind what the field of its tag holds, without what is there. -/
theorem mergeFilling_list {α : Type} (own? : Item → Option α) {item : α → Item}
    (put : List α → Record → Record) {same : α → α → Bool} (typed : r.Typed) (field : a.field = some f)
    {l new : List α} (held : r.own f = .ok (.list (l.map item))) (kept : put l r = r)
    (faithful : ∀ e, own? (item e) = some e := by intros; rfl)
    (alike : ∀ e e', Item.same (item e) (item e') = same e e' := by intros; rfl)
    (assigns : ∀ items, r.assign f (.list items) = .ok (setList f own? put items r) := by intros; rfl)
    (strays : ∀ l, (put l r).strays = r.strays := by intros; rfl) :
    mergeFilling r a (.list (new.map item)) = .ok (put (mergeNew same l new) r) := by
  unfold mergeFilling
  cases new with
  | nil => exact congrArg Except.ok kept.symm
  | cons e rest =>
    have after : (put (mergeNew same l (e :: rest)) r).Typed := (strays _).trans typed
    rw [if_neg (by simp [Value.isVoid]), field]
    change r.fill f (.list ((e :: rest).map item)) = _
    rw [fill, typed.read, held]
    change r.assign f (.list (mergeNew Item.same (l.map item) ((e :: rest).map item))) = _
    rw [mergeNew_map alike, assigns, setList, Item.span_map faithful]
    exact congrArg Except.ok (after.settle_eq f)

/-- On a typed record the step of a tag that may stand there has its value merged. -/
theorem runAutofill_of_typed {step : Record → Except Failure Value} {v : Value}
    (fills : a.autofill = some step) (typed : r.Typed) (gives : step r = .ok v) :
    runAutofill r a =
      if a.allowsKind r.kind then (mergeFilling r a v).mapError .misuse else .ok r := by
  simp only [runAutofill, fills, typed.readKind, gives]
  rfl

theorem runAutofill_require (typed : r.Typed) :
    runAutofill r .require =
      .ok { r with requires := mergeNew Require.same r.requires (usedRecords r) } := by
  have gives : (do return Value.list ((← Tag.suggestedRequires r).map .require) : Except Failure Value) =
      .ok (.list ((usedRecords r).map .require)) := by
    rw [Tag.suggestedRequires_of_holds (typed.get? _) (typed.get? _)]
    rfl
  have merged : mergeFilling r .require (.list ((usedRecords r).map .require)) =
      .ok { r with requires := mergeNew Require.same r.requires (usedRecords r) } :=
    mergeFilling_list Item.require? (fun l r => { r with requires := l }) typed rfl rfl rfl
  rw [runAutofill_of_typed rfl typed gives, merged]
  rfl

theorem runAutofill_throw (typed : r.Typed) :
    runAutofill r .throw =
      .ok { r with
        throws :=
          if Tag.throw.allowsKind r.kind then mergeNew (· == ·) r.throws (raisedErrors r.context.code)
          else r.throws } := by
  have gives : (do return Value.texts (raisedErrors (← r.contextFor "code").code) : Except Failure Value) =
      .ok (.texts (raisedErrors r.context.code)) := by
    rw [typed.contextFor]
    rfl
  have merged : mergeFilling r .throw (.texts (raisedErrors r.context.code)) =
      .ok { r with throws := mergeNew (· == ·) r.throws (raisedErrors r.context.code) } :=
    mergeFilling_list Item.text? (fun l r => { r with throws := l }) typed rfl rfl rfl (fun _ => rfl)
      Item.same_text
  rw [runAutofill_of_typed rfl typed gives, merged]
  split_ifs <;> rfl

theorem fill_content (typed : r.Typed) (s : String) :
    r.fill .content (.text s) = .ok { r with content := some (r.content.getD s) } := by
  rw [fill, typed.read]
  cases held : r.content with
  | none =>
    have assigned : r.assign .content (.text s) = .ok { r with content := some s } :=
      congrArg Except.ok (Typed.settle_eq (r := { r with content := some s }) typed .content)
    simp only [own, held]
    exact assigned
  | some own =>
    simp only [Record.own, held]
    change Except.ok r = Except.ok { r with content := some own }
    rw [← held]

theorem runAutofill_content (typed : r.Typed) :
    runAutofill r .content =
      .ok { r with
        content :=
          if Tag.content.allowsKind r.kind then
            if takesContent r.context.code then some (r.content.getD "") else r.content
          else r.content } := by
  have gives : (do
      let context ← r.contextFor "code"
      return if takesContent context.code then .text "" else .null : Except Failure Value) =
      .ok (if takesContent r.context.code then .text "" else .null) := by
    rw [typed.contextFor]
    rfl
  have merged : mergeFilling r .content (if takesContent r.context.code then .text "" else .null) =
      .ok { r with
        content := if takesContent r.context.code then some (r.content.getD "") else r.content } := by
    cases takesContent r.context.code with
    | true => exact fill_content typed ""
    | false => rfl
  rw [runAutofill_of_typed rfl typed gives, merged]
  split_ifs <;> rfl

/-- Each tag that reads from code adds what the code tells. -/
theorem runAutofill_told (listed : a ∈ Tag.fillings) (typed : r.Typed) :
    runAutofill r a = .ok (r.told [a.name]) := by
  simp only [Tag.fillings, List.mem_cons, List.not_mem_nil, or_false] at listed
  rcases listed with rfl | rfl | rfl
  · rw [runAutofill_require typed]
    rfl
  · simp only [runAutofill_throw typed, told, asks_own,
      not_asks (show Tag.require.name ≠ Tag.throw.name by decide),
      not_asks (show Tag.content.name ≠ Tag.throw.name by decide), if_false]
  · simp only [runAutofill_content typed, told, asks_own,
      not_asks (show Tag.require.name ≠ Tag.content.name by decide),
      not_asks (show Tag.throw.name ≠ Tag.content.name by decide), if_false]

/-- All of them together add what the code tells for their names. -/
theorem foldlM_runAutofill {l : List Tag} (listed : ∀ a ∈ l, a ∈ Tag.fillings) (typed : r.Typed) :
    l.foldlM runAutofill r = .ok (r.told (l.map (·.name))) := by
  induction l generalizing r with
  | nil => exact congrArg Except.ok told_nil.symm
  | cons a rest ih =>
    -- the rest is asked of the record that the first has changed, which the others do not see
    obtain ⟨here, later⟩ := List.forall_mem_cons.mp listed
    have typed' : (r.told [a.name]).Typed := typed
    rw [List.foldlM_cons, runAutofill_told here typed]
    exact (ih later typed').trans (congrArg Except.ok told_told)

theorem IsBuiltin.autofilled (standard : x.IsBuiltin c) (typed : r.Typed) :
    x.autofill.foldlM runAutofill r = .ok (r.told (x.autofill.map (·.name))) :=
  foldlM_runAutofill (fun a member => (Tag.mem_fillings_iff c).mpr (standard.filling a member)) typed

/-- The extractor with other tags that read from code. -/
def asking (x : Extractor) (l : List Tag) : Extractor := { x with autofill := l }

section

variable {c' : Config} {l : List Tag} (standard : x.IsBuiltin c) (standard' : (x.asking l).IsBuiltin c')
  (alike : ∀ a, a ∈ x.autofill ↔ a ∈ l)

include standard standard' alike

theorem finishDraft_asking (poster : Bool) (typed : r.Typed) :
    x.finishDraft poster r = (x.asking l).finishDraft poster r := by
  cases poster with
  | true => rfl
  | false =>
    obtain ⟨m, filled⟩ := fillSignatureDefaults_total typed
    have typed' : m.Typed := standard.keepsTypes.maintains.signature r m typed filled
    have names : ∀ n, n ∈ x.autofill.map (·.name) ↔ n ∈ l.map (·.name) := by
      simp [alike]
    have same : x.autofill.foldlM runAutofill m = l.foldlM runAutofill m := by
      rw [standard.autofilled typed', told_congr names]
      exact (standard'.autofilled typed').symm
    simp only [finishDraft, filled]
    change Report.ofExcept (x.autofill.foldlM runAutofill m >>= fun r => Except.ok (some r)) = _
    rw [same]
    rfl

theorem extract_asking (b : Block) (file : FileRef) :
    x.extract b file = (x.asking l).extract b file := by
  rw [extract_eq, extract_eq]
  have typed : ∀ m, (x.applyTags b.poster b.commentStart (blank b file)
      (foldExamples x.registry (Comment.ofText b.comment).items)).result = .ok m → m.Typed :=
    fun m tagged => Report.foldl_keeps
      (fun _ _ _ _ done typed => typed_applyTag standard.keepsTypes.registered typed done) tagged rfl
  refine if_congr Iff.rfl rfl ?_
  exact Report.andThen_congr fun m tagged =>
    finishDraft_asking standard standard' alike b.poster (typed m tagged)

/-- For which tags the code is asked is all that there is to the list of them. -/
theorem parseSource_asking (text : String) (file : FileRef) :
    x.parseSource text file = (x.asking l).parseSource text file := by
  have extracted : x.extractAll file (scanBlocks text) = (x.asking l).extractAll file (scanBlocks text) := by
    rw [extractAll, extractAll, Report.forEach_congr fun b _ => by
      rw [extract_asking standard standard' alike b file]]
  rw [parseSource_eq, parseSource_eq, extracted]
  rfl

end

theorem autofillOf_called (frozen : Bool) {word : String} (listed : a ∈ Tag.fillings)
    (called : a.IsCalled word) :
    autofillOf { Registry.builtin c with frozen := frozen } (.text word) = .ok a := by
  obtain ⟨builtin, fills⟩ := (Tag.mem_fillings_iff c).mp listed
  have found : ({ Registry.builtin c with frozen := frozen } : Registry).get? word = .ok (some a) :=
    Tag.get?_called builtin called
  simp only [autofillOf, found]
  exact if_neg (by simpa using fills)

/-- Words that call tags which read from code make an extractor that asks for just these tags. -/
theorem make_withAutofill (c : Config) (frozen : Bool) {words : List String}
    (called : ∀ word ∈ words, ∃ a ∈ Tag.fillings, a.IsCalled word) :
    ∃ l, make { Registry.builtin c with frozen := frozen } (c.withAutofill words) =
        .ok ⟨{ Registry.builtin c with frozen := frozen }, c.includesUnknown, c.defaultGroup, l⟩ ∧
      ∀ a, a ∈ l ↔ a ∈ Tag.fillings ∧ ∃ word ∈ words, a.IsCalled word := by
  obtain ⟨l, each⟩ := exists_forall₂ called
  have found : (words.map Data.text).mapM (autofillOf { Registry.builtin c with frozen := frozen }) = .ok l :=
    mapM_eq_ok.mpr (List.forall₂_map_left_iff.mpr
      (each.imp fun _ _ both => autofillOf_called frozen both.1 both.2))
  refine ⟨l, ?_, fun a => ⟨fun member => ?_, ?_⟩⟩
  · cases words with
    | nil =>
      cases each
      rfl
    | cons word rest =>
      change (((word :: rest).map Data.text).mapM (autofillOf _) >>= fun l =>
        Except.ok (Extractor.mk _ _ _ l)) = _
      rw [found]
      rfl
  · obtain ⟨word, listed, both⟩ := exists_of_forall₂ each member
    exact ⟨both.1, word, listed, both.2⟩
  · rintro ⟨listed, word, inside, called⟩
    obtain ⟨b, member, both⟩ := exists_of_forall₂ each.flip inside
    -- no word calls two tags
    have first := Tag.get?_called ((Tag.mem_fillings_iff c).mp listed).1 called
    have second := Tag.get?_called ((Tag.mem_fillings_iff c).mp both.1).1 both.2
    cases first.symm.trans second
    exact member

/-- Under two configurations that differ in the words alone that call the tags which read from code, where
these call the same tags, in any order, under any of their names and as often as they like, the code is asked
for just these tags, and every source gives the same records and group descriptions, and the same events. -/
theorem parseSource_callAlike (c : Config) {words others : List String}
    (calls : Tag.CallAlike words others) (frozen : Bool) :
    ∃ g, Registry.standard (c.withAutofill words) [] = .ok g ∧
      Registry.standard (c.withAutofill others) [] = .ok g ∧
      ∃ x y, make { g with frozen := frozen } (c.withAutofill words) = .ok x ∧
        make { g with frozen := frozen } (c.withAutofill others) = .ok y ∧
        (∀ a, a ∈ x.autofill ↔ a ∈ Tag.fillings ∧ ∃ word ∈ words, a.IsCalled word) ∧
        ∀ text file, x.parseSource text file = y.parseSource text file ∧
          (c.HasTextPrefix → ∃ found, (x.parseSource text file).result = .ok found) := by
  have first : Registry.standard (c.withAutofill words) [] = .ok (Registry.builtin c) :=
    Registry.standard_nil _
  have second : Registry.standard (c.withAutofill others) [] = .ok (Registry.builtin c) :=
    Registry.standard_nil _
  obtain ⟨l, made, members⟩ := make_withAutofill c frozen calls.first
  obtain ⟨l', made', members'⟩ := make_withAutofill c frozen calls.second
  have alike : ∀ a, a ∈ l ↔ a ∈ l' := fun a =>
    (members a).trans ((and_congr_right (calls.alike a)).trans (members' a).symm)
  have standard := isBuiltin_of_make first made
  refine ⟨_, first, second, _, _, made, made', members, fun text file => ⟨?_, fun prefixed => ?_⟩⟩
  · exact parseSource_asking (l := l') standard (isBuiltin_of_make second made') alike text file
  · exact parseSource_total standard prefixed text file

theorem parseSource_callAlike_shuffled :
    let words := ["requires", "throw", "require", "content"]
    let others := ["content", "exception", "require", "throws"]
    Tag.CallAlike words others ∧
      ∃ g x y, Registry.standard (Config.default.withAutofill words) [] = .ok g ∧
        make g.freeze (Config.default.withAutofill words) = .ok x ∧
        make g.freeze (Config.default.withAutofill others) = .ok y ∧ Tag.throw ∈ x.autofill ∧
        ∀ text file, x.parseSource text file = y.parseSource text file ∧
          ∃ found, (x.parseSource text file).result = .ok found := by
  intro words others
  have calls : Tag.CallAlike words others := ⟨by decide, by decide, by decide⟩
  obtain ⟨g, standard, _, x, y, made, made', members, same⟩ :=
    parseSource_callAlike Config.default calls true
  have listed : Tag.throw ∈ x.autofill :=
    (members Tag.throw).mpr ⟨by simp [Tag.fillings], "throw", by decide, by decide⟩
  refine ⟨calls, g, x, y, standard, made, made', listed, fun text file => ?_⟩
  obtain ⟨alike, total⟩ := same text file
  exact ⟨alike, total fun _ => ⟨_, rfl⟩⟩

end Extractor

end SheetDoc
