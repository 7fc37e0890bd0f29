import SheetDoc.Proofs.Extraction.Draft

namespace SheetDoc

section

variable {α β : Type} {same : α → α → Bool} {current new more : List α} {a : α}

theorem mergeNew_append :
    mergeNew same current (new ++ more) = mergeNew same (mergeNew same current new) more :=
  List.foldl_append

theorem mergeNew_cons :
    mergeNew same current (a :: new) =
      mergeNew same (if current.any (same a) then current else current ++ [a]) new := rfl

theorem mergeNew_map {same' : β → β → Bool} {f : α → β} (alike : ∀ a b, same' (f a) (f b) = same a b) :
    mergeNew same' (current.map f) (new.map f) = (mergeNew same current new).map f := by
  induction new generalizing current with
  | nil => rfl
  | cons a rest ih =>
    have known : (current.map f).any (same' (f a)) = current.any (same a) := by
      simp only [List.any_map, Function.comp_def, alike]
    rw [List.map_cons, mergeNew_cons, mergeNew_cons, known, ← ih]
    split
    · rfl
    · rw [List.map_append, List.map_singleton]

/-- What is merged in comes behind what is there. -/
theorem prefix_mergeNew : current <+: mergeNew same current new := by
  induction new generalizing current with
  | nil => exact List.prefix_refl _
  | cons a rest ih =>
    rw [mergeNew_cons]
    split
    · exact ih
    · exact (List.prefix_append _ _).trans ih

/-- What is new in a list after a merge was not the same as anything there. -/
theorem mem_mergeNew (member : a ∈ mergeNew same current new) :
    a ∈ current ∨ a ∈ new ∧ ∀ b ∈ current, same a b = false := by
  induction new generalizing current with
  | nil => exact Or.inl member
  | cons b rest ih =>
    rw [mergeNew_cons] at member
    split at member
    · exact (ih member).imp_right fun new => ⟨List.mem_cons_of_mem b new.1, new.2⟩
    · rename_i fresh
      have apart : ∀ c ∈ current, same b c = false := by simpa using fresh
      rcases ih member with old | ⟨later, others⟩
      · refine (List.mem_append.mp old).imp_right fun last => ?_
        cases List.mem_singleton.mp last
        exact ⟨List.mem_cons_self, apart⟩
      · exact Or.inr ⟨List.mem_cons_of_mem b later, fun c inside => others c (List.mem_append_left _ inside)⟩

/-- Everything that is merged in is there, or something the same. -/
theorem exists_mem_mergeNew (reflexive : ∀ a, same a a = true) (member : a ∈ new) :
    ∃ b ∈ mergeNew same current new, same a b = true := by
  induction new generalizing current with
  | nil => cases member
  | cons b rest ih =>
    rw [mergeNew_cons]
    rcases List.mem_cons.mp member with rfl | later
    · split
      · rename_i known
        obtain ⟨c, inside, alike⟩ := List.any_eq_true.mp known
        exact ⟨c, prefix_mergeNew.subset inside, alike⟩
      · exact ⟨a, prefix_mergeNew.subset (List.mem_append_right _ (List.mem_singleton_self a)), reflexive a⟩
    · exact ih later

/-- To merge in what is there already changes nothing. -/
theorem mergeNew_of_known (known : ∀ a ∈ new, ∃ b ∈ current, same a b = true) :
    mergeNew same current new = current := by
  induction new with
  | nil => rfl
  | cons a rest ih =>
    obtain ⟨here, later⟩ := List.forall_mem_cons.mp known
    rw [mergeNew_cons, if_pos (List.any_eq_true.mpr here), ih later]

theorem mergeNew_again (reflexive : ∀ a, same a a = true) :
    mergeNew same (mergeNew same current new) new = mergeNew same current new :=
  mergeNew_of_known fun _ member => exists_mem_mergeNew reflexive member

/-- A merge keeps the entries of a list apart. -/
theorem pairwise_mergeNew (apart : current.Pairwise fun a b => same b a = false) :
    (mergeNew same current new).Pairwise fun a b => same b a = false := by
  induction new generalizing current with
  | nil => exact apart
  | cons a rest ih =>
    rw [mergeNew_cons]
    split
    · exact ih apart
    · rename_i fresh
      refine ih (List.pairwise_append.mpr ⟨apart, List.pairwise_singleton _ _, fun b inside a' last => ?_⟩)
      cases List.mem_singleton.mp last
      simpa using List.any_eq_false.mp (Bool.eq_false_iff.mpr fresh) b inside

/-- Entries that are apart from each other come in unless they are the same as one that is there. -/
theorem mergeNew_of_apart (apart : new.Pairwise fun a b => same b a = false) :
    mergeNew same current new = current ++ new.filter fun a => !current.any (same a) := by
  induction new generalizing current with
  | nil => exact (List.append_nil current).symm
  | cons a rest ih =>
    obtain ⟨here, later⟩ := List.pairwise_cons.mp apart
    rw [mergeNew_cons, List.filter_cons]
    cases known : current.any (same a) with
    | true => exact ih later
    | false =>
      have others : (rest.filter fun b => !(current ++ [a]).any (same b)) =
          rest.filter fun b => !current.any (same b) :=
        List.filter_congr fun b inside => by simp [here b inside]
      simp only [Bool.false_eq_true, if_false, Bool.not_false, if_true]
      rw [ih later, others, List.append_assoc]
      rfl

end

theorem Require.same_iff {e e' : Require} : e.same e' = true ↔ e.key = e'.key := beq_iff_eq

namespace Record

variable {r p r' : Record} {e : Require}

theorem requires_of_merged {es : List Require}
    (merged : r'.own .require =
      .ok (Value.merged (.list (r.requires.map .require)) (.list (es.map .require)))) :
    r'.requires = mergeNew Require.same r.requires es :=
  requires_of_own (merged.trans (congrArg (fun items => Except.ok (Value.list items))
    (mergeNew_map fun _ _ => rfl)))

/-- A poster gives its own requirements. -/
theorem requires_inherit (typed : r.Typed) (source : p.Typed) (done : r.inherit .require p = .ok r') :
    r'.requires = mergeNew Require.same r.requires p.requires := by
  obtain ⟨_, current, v, holds, offered, merged⟩ := wrote_inherit typed source rfl done
  cases holds
  cases offered
  exact requires_of_merged merged

end Record

namespace Tag

variable {r r' : Record} {raw : String} {e : Require}

theorem readRequire_ok (read : readRequire raw = .ok e) : e.item = none ∧ e.autofill = false := by
  simp only [readRequire] at read
  split at read
  · cases read
  · split at read
    · cases read
    · obtain ⟨kind, _, read⟩ := bind_eq_ok.mp read
      cases read
      exact ⟨rfl, rfl⟩

theorem addRequire_of_typed (typed : r.Typed) (e : Require) :
    addRequire e r = .ok { r with requires := mergeNew Require.same r.requires [e] } := by
  rw [addRequire, typed.flaw, typed.adding, mergeNew_cons]
  split <;> rfl

/-- A comment adds what it declares. -/
theorem mem_requires_parse (typed : r.Typed) (done : storing readRequire addRequire raw r = .ok r')
    (member : e ∈ r'.requires) : e ∈ r.requires ∨ readRequire raw = .ok e := by
  obtain ⟨e', read, done⟩ := storing_ok done
  cases (addRequire_of_typed typed e').symm.trans done
  refine (mem_mergeNew member).imp_right fun new => ?_
  cases List.mem_singleton.mp new.1
  exact read

/-- The requirement that a use of a construct makes. -/
def ofUse (use : Kind × String) : Require := { name := use.2, kind := use.1, autofill := true }

theorem mem_addUse {own use : Kind × String} {found : List Require}
    (made : ∀ e ∈ found, e = ofUse e.key) :
    e ∈ addUse own found use ↔ e ∈ found ∨ use ≠ own ∧ e = ofUse use := by
  unfold addUse
  split
  · rename_i known
    refine ⟨Or.inl, fun either => either.elim id ?_⟩
    rintro ⟨other, rfl⟩
    obtain ⟨e, listed, key⟩ := List.any_eq_true.mp (known.resolve_left other)
    rw [← of_decide_eq_true key, ← made e listed]
    exact listed
  · rename_i fresh
    obtain ⟨other, _⟩ := not_or.mp fresh
    simp [other, ofUse]

/-- The code makes a requirement of each use, but for those of the construct itself. -/
theorem mem_usedRecords_iff : e ∈ usedRecords r ↔
    ∃ use ∈ usesOf r (dropComments r.context.code.toList), use ≠ (r.kind, r.name) ∧ e = ofUse use := by
  have general : ∀ (uses : List (Kind × String)) (found : List Require),
      (∀ e ∈ found, e = ofUse e.key) → (e ∈ uses.foldl (addUse (r.kind, r.name)) found ↔
        e ∈ found ∨ ∃ use ∈ uses, use ≠ (r.kind, r.name) ∧ e = ofUse use) := by
    intro uses
    induction uses with
    | nil => simp
    | cons use rest ih =>
      intro found made
      have made' : ∀ e ∈ addUse (r.kind, r.name) found use, e = ofUse e.key := by
        intro e listed
        rcases (mem_addUse made).mp listed with old | ⟨_, rfl⟩
        · exact made e old
        · rfl
      rw [List.foldl_cons, ih _ made', mem_addUse made, or_assoc]
      simp
  exact (general _ [] (List.forall_mem_nil _)).trans (by simp)

theorem mem_suggestedRequires {found : List Require} (done : suggestedRequires r = .ok found)
    (member : e ∈ found) : e ∈ usedRecords r := by
  obtain ⟨context, _, done⟩ := bind_eq_ok.mp done
  split at done
  · cases done
    cases member
  · obtain ⟨_, _, done⟩ := bind_eq_ok.mp done
    cases done
    exact member

/-- What the code suggests says so. -/
theorem autofill_of_suggested {found : List Require} (done : suggestedRequires r = .ok found)
    (member : e ∈ found) : e.autofill = true := by
  obtain ⟨use, _, _, rfl⟩ := mem_usedRecords_iff.mp (mem_suggestedRequires done member)
  rfl

/-- The code adds what it suggests. -/
theorem requires_autofill (typed : r.Typed) (done : Extractor.runAutofill r require = .ok r') :
    ∃ found, suggestedRequires r = .ok found ∧
      r'.requires = mergeNew Require.same r.requires found := by
  obtain ⟨kind, _, done⟩ := bind_eq_ok.mp done
  have allowed : require.allowsKind kind = true := rfl
  rw [if_pos allowed] at done
  obtain ⟨v, given, done⟩ := bind_eq_ok.mp done
  obtain ⟨found, suggested, given⟩ := bind_eq_ok.mp given
  cases given
  refine ⟨found, mapError_eq_ok.mp suggested, ?_⟩
  have merged : Extractor.mergeFilling r require (.list (found.map .require)) = .ok r' :=
    mapError_eq_ok.mp done
  unfold Extractor.mergeFilling at merged
  split at merged
  · rename_i void
    cases merged
    cases found with
    | nil => rfl
    | cons e es => cases void
  · have takes : Field.takes .require (.list (found.map .require)) = true := by
      simp [Field.takes, Field.entry?, Item.require?]
    obtain ⟨current, m, holds, filled, _, reads, _⟩ := Record.fill_of_takes typed takes
    cases Except.ok.inj (filled.symm.trans merged)
    cases holds
    exact Record.requires_of_merged reads

theorem mem_requires_autofill (typed : r.Typed) (done : Extractor.runAutofill r require = .ok r')
    (member : e ∈ r'.requires) : e ∈ r.requires ∨ e ∈ usedRecords r := by
  obtain ⟨found, suggested, requires⟩ := requires_autofill typed done
  exact (mem_mergeNew (requires ▸ member)).imp_right fun new => mem_suggestedRequires suggested new.1

end Tag

namespace Record

/-- The comment or a poster declares it, or the code suggests it and it is another construct. -/
def Explains (r : Record) (e : Require) : Prop :=
  if e.autofill then e.key ≠ (r.kind, r.name) else r.has Tag.require.name = true

/-- A record whose code does not suggest the record itself. -/
structure Selfless (r : Record) : Prop where
  typed : r.Typed
  explains : ∀ e ∈ r.requires, r.Explains e

/-- A record whose requirements are all declared, and whose tags are known. -/
structure Declares (c : Config) (r : Record) : Prop where
  typed : r.Typed
  known : ∀ n, r.has n = true → ∃ b ∈ Tag.builtins c, b.name = n
  declared : ∀ e ∈ r.requires, e.autofill = false ∧ r.has Tag.require.name = true

variable {c : Config} {r p r' : Record} {f : Field}

theorem Declares.explains (declares : r.Declares c) {e : Require} (member : e ∈ r.requires) :
    r.Explains e := by
  obtain ⟨plain, has⟩ := declares.declared e member
  rw [Explains, plain]
  exact has

theorem Declares.selfless (declares : r.Declares c) : r.Selfless :=
  ⟨declares.typed, fun _ => declares.explains⟩

/-- A step that keeps the construct and the tags and adds what is explained. -/
theorem Selfless.grown (selfless : r.Selfless) (typed : r'.Typed) (context : r'.context = r.context)
    (tags : r.has Tag.require.name = true → r'.has Tag.require.name = true)
    (new : ∀ e ∈ r'.requires, e ∈ r.requires ∨ r'.Explains e) : r'.Selfless := by
  refine ⟨typed, fun e member => ?_⟩
  rcases new e member with old | explained
  · have explained := selfless.explains e old
    rw [Explains, kind, name] at explained ⊢
    rw [context]
    split at explained
    · rename_i suggested
      exact (if_pos suggested).mpr explained
    · rename_i declared
      exact (if_neg declared).mpr (tags explained)
  · exact explained

theorem Selfless.wrote (selfless : r.Selfless) (wrote : r.Wrote f r') (requires : f ≠ .require)
    (context : f ≠ .context) (tags : f ≠ .tags) : r'.Selfless := by
  refine selfless.grown wrote.typed (wrote.context context) (fun set => ?_) fun e member => ?_
  · rwa [wrote.has tags]
  · rw [wrote.requires requires] at member
    exact Or.inl member

end Record

namespace Extractor

variable {x : Extractor} {c : Config} {a : Tag} {r r' : Record}

theorem declares_applyTag (standard : x.IsBuiltin c) {poster : Bool} {line : Int} {item : Tagged}
    (declares : r.Declares c) (done : (x.applyTag poster line r item).result = .ok r') :
    r'.Declares c := by
  rcases applyTag_ok done with rfl | kept | ⟨a, step, m, found, _, parses, parsed, marked⟩
  · exact declares
  · have wrote := wrote_keepUnknown declares.typed kept
    refine ⟨wrote.typed, fun n set => ?_, fun e member => ?_⟩
    · rw [wrote.has nofun] at set
      exact declares.known n set
    · rw [wrote.requires nofun] at member
      rw [wrote.has nofun]
      exact declares.declared e member
  · have builtin : a ∈ Tag.builtins c := standard.listed ▸ Registry.mem_of_get? found
    have wrote := (Tag.confined_builtins c a builtin).parse step parses _ r m declares.typed parsed
    obtain ⟨tagged, has⟩ := Record.wrote_mark wrote.typed marked
    have has : ∀ n, r'.has n = (r.has n || decide (n = a.name)) := fun n => by
      rw [has, wrote.has (Tag.place_ne_tags builtin)]
    refine ⟨tagged.typed, fun n set => ?_, fun e member => ?_⟩
    · rw [has, Bool.or_eq_true] at set
      rcases set with before | added
      · exact declares.known n before
      · exact ⟨a, builtin, (of_decide_eq_true added).symm⟩
    · rw [tagged.requires nofun] at member
      rw [has, Bool.or_eq_true]
      have old : e ∈ r.requires → e.autofill = false ∧
          (r.has Tag.require.name = true ∨ decide (Tag.require.name = a.name) = true) :=
        fun before => (declares.declared e before).imp_right Or.inl
      by_cases place : a.place = .require
      · cases Tag.eq_require builtin place
        cases parses
        rcases Tag.mem_requires_parse declares.typed parsed member with before | read
        · exact old before
        · exact ⟨(Tag.readRequire_ok read).2, Or.inr (decide_eq_true rfl)⟩
      · rw [wrote.requires place] at member
        exact old member

theorem selfless_runAutofill (builtin : a ∈ Tag.builtins c) (fills : a.autofill ≠ none)
    (selfless : r.Selfless) (done : runAutofill r a = .ok r') : r'.Selfless := by
  have wrote := (Tag.confined_builtins c a builtin).autofill r r' selfless.typed done
  by_cases place : a.place = .require
  · cases Tag.eq_require builtin place
    have context := wrote.context nofun
    refine selfless.grown wrote.typed context (fun set => ?_) fun e member => ?_
    · rwa [wrote.has nofun]
    · refine (Tag.mem_requires_autofill selfless.typed done member).imp_right fun used => ?_
      obtain ⟨use, _, other, rfl⟩ := Tag.mem_usedRecords_iff.mp used
      have suggested : (Tag.ofUse use).autofill = true := rfl
      rw [Record.Explains, if_pos suggested, Record.kind, Record.name, context]
      exact other
  · refine selfless.wrote wrote place (fun renames => ?_) (Tag.place_ne_tags builtin)
    exact fills (Tag.eq_rename builtin renames ▸ rfl)

theorem selfless_takeOver (standard : x.IsBuiltin c) {p : Record} {name : String}
    (listed : name ∈ p.tags) (source : p.Declares c) (selfless : r.Selfless)
    (done : x.takeOver p r name = .ok r') : r'.Selfless := by
  rcases takeOver_ok done with rfl | ⟨a, f, m, found, field, _, _, inherits, added⟩
  · exact selfless
  · obtain ⟨b, builtin, rfl⟩ := source.known name (List.contains_iff_mem.mpr listed)
    obtain rfl : b = a := Option.some.inj (Except.ok.inj ((standard.named b builtin).symm.trans found))
    obtain ⟨merges, other⟩ := Tag.merges_builtins c b builtin f field
    obtain ⟨wrote, _⟩ := Record.wrote_inherit selfless.typed source.typed merges inherits
    obtain ⟨tagged, has⟩ := Record.wrote_addTag wrote.typed added
    have named : f ≠ .context := by
      rintro rfl
      cases merges
    refine selfless.grown tagged.typed ((tagged.context nofun).trans (wrote.context named))
      (fun set => by rw [has, wrote.has other, set, Bool.true_or]) fun e member => ?_
    rw [tagged.requires nofun] at member
    by_cases requires : f = .require
    · subst requires
      have place : b.place = .require := by rw [Tag.place, field, Option.getD_some]
      cases Tag.eq_require builtin place
      rw [Record.requires_inherit selfless.typed source.typed inherits] at member
      refine (mem_mergeNew member).imp_right fun given => ?_
      rw [Record.Explains, (source.declared e given.1).1, has, decide_eq_true rfl, Bool.or_true]
      rfl
    · rw [wrote.requires requires] at member
      exact Or.inl member

theorem selfless_applyFallback (builtin : a ∈ Tag.builtins c) (selfless : r.Selfless)
    (done : applyFallback r a = .ok r') : r'.Selfless := by
  have wrote := (Tag.confined_builtins c a builtin).fallback r r' selfless.typed done
  by_cases place : a.place = .require
  · cases Tag.eq_require builtin place
    cases done
    exact selfless
  · by_cases renames : a.place = .context
    · cases Tag.eq_rename builtin renames
      cases done
      exact selfless
    · exact selfless.wrote wrote place renames (Tag.place_ne_tags builtin)

/-- A draft declares its requirements, and no record has itself suggested by its code. -/
theorem IsBuiltin.maintains_selfless (standard : x.IsBuiltin c) :
    x.Maintains (Record.Declares c) Record.Selfless where
  start _ _ := ⟨rfl, nofun, nofun⟩
  tag _ _ _ _ _ declares done := declares_applyTag standard declares done
  signature r r' declares done := by
    obtain ⟨change, rfl⟩ := fillSignatureDefaults_ok declares.typed done
    exact declares.selfless.wrote (f := .parameter) (Record.wrote_put declares.typed) nofun nofun nofun
  filling a member _ _ selfless done :=
    selfless_runAutofill (standard.filling a member).1 (standard.filling a member).2 selfless done
  poster _ _ listed _ _ source selfless done := selfless_takeOver standard listed source selfless done
  fallback _ member _ _ selfless done := selfless_applyFallback (standard.listed ▸ member) selfless done

end Extractor

end SheetDoc
