import SheetDoc.Proofs.Extraction.Declared
import SheetDoc.Proofs.Extraction.Totality

namespace SheetDoc

namespace Tag

variable {r r' : Record} {f : Field} {raw : String}

/-- The code suggests each key once. -/
theorem apart_usedRecords (r : Record) :
    (usedRecords r).Pairwise fun e e' => Require.same e' e = false := by
  refine List.foldlRecOn (motive := fun found : List Require =>
    found.Pairwise fun e e' => Require.same e' e = false) _ (addUse (r.kind, r.name)) .nil ?_
  intro found apart use _
  unfold addUse
  split
  · exact apart
  · rename_i fresh
    refine List.pairwise_append.mpr ⟨apart, List.pairwise_singleton _ _, fun e inside e' last => ?_⟩
    cases List.mem_singleton.mp last
    refine Bool.eq_false_iff.mpr fun same => fresh (Or.inr ?_)
    exact List.any_eq_true.mpr ⟨e, inside, decide_eq_true (Require.same_iff.mp same).symm⟩

theorem apart_suggested {found : List Require} (done : suggestedRequires r = .ok found) :
    found.Pairwise fun e e' => Require.same e' e = false := by
  obtain ⟨context, _, done⟩ := bind_eq_ok.mp done
  split at done
  · cases done
    exact .nil
  · obtain ⟨_, _, done⟩ := bind_eq_ok.mp done
    cases done
    exact apart_usedRecords r

/-- What the code suggests goes by the construct and its parameters alone. -/
theorem suggestedRequires_of_wrote (typed : r.Typed) (wrote : r.Wrote f r') (context : f ≠ .context)
    (parameter : f ≠ .parameter) : suggestedRequires r' = suggestedRequires r := by
  have construct := wrote.context context
  have parameters : r'.parameters = r.parameters :=
    Record.parameters_of_own (wrote.own (Ne.symm parameter) nofun)
  have used : usedRecords r' = usedRecords r := by
    simp only [usedRecords, usesOf, ownParameters, Record.kind, Record.name, construct, parameters]
  simp only [suggestedRequires, typed.contextFor, wrote.typed.contextFor, typed.flaw, wrote.typed.flaw,
    construct, used]

theorem plain_parameter (c : Config) : parameter.Plain c .parameter :=
  ⟨by simp [builtins], rfl, rfl, nofun⟩

/-- A comment gives no name to two parameters. -/
theorem parseParameter_ok (typed : r.Typed) (done : parseParameter raw r = .ok r') :
    ∃ p, (∀ q ∈ r.parameters, q.name ≠ p.name) ∧ r'.parameters = r.parameters ++ [p] := by
  unfold parseParameter at done
  split at done
  · cases done
  · rename_i e _
    split at done
    · cases done
    · rename_i fresh
      obtain ⟨_, _, done⟩ := bind_eq_ok.mp done
      simp only [typed.adding] at done
      cases done
      exact ⟨⟨e.name, e.type, e.description, e.value⟩, by simpa using fresh, rfl⟩

end Tag

namespace Record

variable {c : Config} {p r r' : Record}

/-- To suggest the same once more changes nothing. -/
theorem Lists.again {declared suggested : List Require} (lists : r.Lists declared (suggested ++ suggested)) :
    r.Lists declared suggested where
  typed := lists.typed
  has := lists.has
  requires := by
    rw [lists.requires, ← List.append_assoc, mergeNew_append]
    exact mergeNew_of_known fun e member =>
      exists_mem_mergeNew (fun _ => Require.same_iff.mpr rfl) (List.mem_append_right declared member)

/-- A record of which no two parameters have one name. -/
structure NamesApart (r : Record) : Prop where
  typed : r.Typed
  names : (r.parameters.map (·.name)).Nodup

theorem NamesApart.of_own (apart : r.NamesApart) (typed : r'.Typed)
    (own : r'.own .parameter = r.own .parameter) : r'.NamesApart :=
  ⟨typed, (parameters_of_own own : r'.parameters = r.parameters) ▸ apart.names⟩

/-- A poster gives its parameters to a record without any. -/
theorem NamesApart.adopts (source : p.NamesApart) (none : r.parameters = [])
    (adopts : p.Adopts Tag.parameter .parameter r r') : r'.NamesApart := by
  obtain ⟨current, v, holds, offered, merged⟩ := adopts.own
  cases holds
  cases offered
  have given : r'.parameters = mergeNew (fun p q => decide (p = q)) [] p.parameters := by
    refine parameters_of_own (merged.trans ?_)
    rw [none]
    exact congrArg (fun items => Except.ok (Value.list items)) (mergeNew_map fun _ _ => rfl)
  have apart : p.parameters.Pairwise fun a b => decide (b = a) = false :=
    (List.pairwise_map.mp source.names).imp fun names =>
      decide_eq_false fun same => names (congrArg Parameter.name same.symm)
  rw [mergeNew_of_apart apart] at given
  refine ⟨adopts.typed, ?_⟩
  rw [given]
  exact source.names.sublist (List.filter_sublist.map _)

end Record

namespace Extractor

open Record

variable {x : Extractor} {c : Config} {b : Block} {file : FileRef} {r r' : Record}

section Parameters

theorem namesApart_applyTag (standard : x.IsBuiltin c) {poster : Bool} {line : Int} {item : Tagged}
    (apart : r.NamesApart) (done : (x.applyTag poster line r item).result = .ok r') :
    r'.NamesApart := by
  have owns := (Tag.plain_parameter c).owns
  rcases applyTag_keeps standard owns apart.typed done with keeps | ⟨step, m, _, _, parses, parsed, marked⟩
  · exact apart.of_own keeps.typed keeps.own
  · cases parses
    have wrote := Tag.writes_parameter item.raw r m apart.typed parsed
    obtain ⟨p, fresh, given⟩ := Tag.parseParameter_ok apart.typed parsed
    have named : m.NamesApart := by
      refine ⟨wrote.typed, ?_⟩
      rw [given, List.map_append]
      refine List.nodup_append.mpr ⟨apart.names, List.nodup_singleton _, ?_⟩
      rintro _ listed _ last rfl
      obtain ⟨q, inside, same⟩ := List.mem_map.mp listed
      exact fresh q inside (same.trans (List.mem_singleton.mp last))
    obtain ⟨tagged, _⟩ := wrote_mark wrote.typed marked
    exact named.of_own tagged.typed (tagged.own nofun nofun)

/-- The signature gives defaults, not names. -/
theorem namesApart_fillSignatureDefaults (apart : r.NamesApart)
    (done : fillSignatureDefaults r = .ok r') : r'.NamesApart := by
  have renamed : ∀ change : Parameter → Parameter, (∀ p, (change p).name = p.name) →
      ((r.parameters.map change).map (·.name)).Nodup := by
    intro change same
    have names : (r.parameters.map change).map (·.name) = r.parameters.map (·.name) := by
      rw [List.map_map]
      exact List.map_congr_left fun p _ => same p
    exact names.symm ▸ apart.names
  rw [fillSignatureDefaults, readKind, apart.typed.contextFor, apart.typed.read, apart.typed.flaw] at done
  change (if _ then Except.ok _ else Except.ok _) = Except.ok r' at done
  split at done
  · cases done
    refine ⟨apart.typed, renamed _ fun p => ?_⟩
    split <;> rfl
  · cases done
    exact apart

/-- The draft of a block has parameters of different names. -/
theorem namesApart_extract (standard : x.IsBuiltin c)
    (done : (x.extract b file).result = .ok (some r)) : r.NamesApart := by
  have plain := Tag.plain_parameter c
  obtain ⟨m, tagged, rest⟩ := extract_ok done
  have apart : m.NamesApart := Report.foldl_keeps
    (fun _ _ _ _ applied apart => namesApart_applyTag standard apart applied) tagged
    ⟨rfl, List.nodup_nil⟩
  split at rest
  · exact rest ▸ apart
  · obtain ⟨n, filled, autofilled⟩ := rest
    refine foldlM_keeps (fun a member s s' done apart => ?_) autofilled
      (namesApart_fillSignatureDefaults apart filled)
    obtain ⟨inside, fills⟩ := standard.filling a member
    have keeps := runAutofill_keeps plain.owns apart.typed inside
      (by rintro rfl; exact fills plain.unfilled) done
    exact apart.of_own keeps.typed keeps.own

/-- Posters and defaults keep the names of parameters apart. -/
theorem namesApart_completes (standard : x.IsBuiltin c) {ps : List Record}
    (stands : r.Stands c Tag.parameter .parameter) (apart : r.NamesApart)
    (posters : ∀ p ∈ ps, p.Familiar c ∧ p.NamesApart) (completes : x.Completes ps r r') :
    r'.NamesApart := by
  have plain := Tag.plain_parameter c
  obtain ⟨m, merged, completed⟩ := completes
  have follows := mergePosters_follows standard plain.shares stands.typed (fun p member => (posters p member).1)
    merged
  have named : m.NamesApart := by
    cases speaks : speaker Tag.parameter ps r with
    | none =>
      rw [speaks] at follows
      have keeps : r.Keeps Tag.parameter .parameter m := follows
      exact apart.of_own keeps.typed keeps.own
    | some p =>
      rw [speaks] at follows
      have adopts : p.Adopts Tag.parameter .parameter r m := follows
      have lacks : r.lacks Tag.parameter = true := by
        by_contra other
        rw [speaker, if_neg other] at speaks
        cases speaks
      have unset : r.has Tag.parameter.name = false := by
        simpa using (Bool.and_eq_true_iff.mp lacks).1
      have none : r.parameters = [] := by
        obtain ⟨v, holds, value⟩ := stands.value
        rw [unset, if_neg Bool.false_ne_true] at value
        subst value
        exact parameters_of_own holds
      exact ((posters p (speaker_spec speaks).1).2).adopts none adopts
  have keeps := applyFallbacks_keeps standard plain.owns named.typed (Or.inl rfl) completed
  exact named.of_own keeps.typed keeps.own

end Parameters

/-- What a record requires in the end, where its code suggests `suggested`: what its comment declares,
what else its code suggests and, for a comment that declares nothing, what else the first poster to
declare anything does. -/
def gathered (x : Extractor) (posters : List Block) (b : Block) (suggested : List Require) :
    List Require :=
  let own := (x.declares b).eraseDupsBy Require.same
  let used := suggested.filter fun e => !own.any e.same
  let given := ((x.firstDeclared posters).eraseDupsBy Require.same).filter fun e =>
    !(own ++ used).any e.same
  own ++ used ++ if (x.declares b).isEmpty then given else []

/-- The record of a block with its requirements one by one. -/
structure Gathers (x : Extractor) (file : FileRef) (posters : List Block) (b : Block) (r : Record) :
    Prop where
  /-- The code is read once the comment is. -/
  requires : ∃ own suggested, (x.extract b file).result = .ok (some own) ∧
    Tag.suggestedRequires own = .ok suggested ∧ r.requires = x.gathered posters b suggested
  once : (r.requires.map (·.key)).Nodup
  /-- No code suggests the construct itself. -/
  others : ∀ e ∈ r.requires, e.autofill = true → e.key ≠ (r.kind, r.name)
  parameters : (r.parameters.map (·.name)).Nodup

/-- What is read out of the code changes nothing that suggestions go by. -/
theorem suggestedRequires_runAutofill (standard : x.IsBuiltin c) {a : Tag} (member : a ∈ x.autofill)
    (typed : r.Typed) (done : runAutofill r a = .ok r') :
    Tag.suggestedRequires r' = Tag.suggestedRequires r := by
  obtain ⟨inside, fills⟩ := standard.filling a member
  have wrote := (Tag.confined_builtins c a inside).autofill r r' typed done
  refine Tag.suggestedRequires_of_wrote typed wrote (fun place => ?_) (fun place => ?_)
  · exact fills (Tag.eq_rename inside place ▸ rfl)
  · have plain := Tag.plain_parameter c
    exact fills (Tag.eq_of_place inside plain.builtin (place.trans plain.owns.place.symm) ▸ rfl)

/-- The draft of a block lists what its comment declares and then what its code suggests, if the code is
asked for requirements. -/
theorem lists_suggested (standard : x.IsBuiltin c) (fills : Tag.require ∈ x.autofill)
    (own : b.poster = false) (done : (x.extract b file).result = .ok (some r)) :
    ∃ suggested, Tag.suggestedRequires r = .ok suggested ∧ r.Lists (x.declares b) suggested := by
  have owns := Tag.owns_require c
  obtain ⟨m, tagged, rest⟩ := extract_ok done
  rw [own, if_neg Bool.false_ne_true] at rest
  obtain ⟨n, filled, autofilled⟩ := rest
  have lists : n.Lists (x.declares b) [] := by
    have lists := lists_applyTags standard tagged
    exact lists.keeps (fillSignatureDefaults_keeps owns nofun lists.typed filled)
  obtain ⟨suggested, suggests⟩ := Tag.suggestedRequires_total lists.typed
  -- the tag may stand in the list of autofill steps more than once, and adds nothing the second time
  let before (r : Record) : Prop := Tag.suggestedRequires r = .ok suggested ∧
    (r.Lists (x.declares b) [] ∨ r.Lists (x.declares b) suggested)
  let after (r : Record) : Prop := Tag.suggestedRequires r = .ok suggested ∧
    r.Lists (x.declares b) suggested
  have fill : ∀ s s', runAutofill s Tag.require = .ok s' → before s → after s' := by
    rintro s s' done ⟨same, lists⟩
    have typed : s.Typed := lists.elim Lists.typed Lists.typed
    refine ⟨(suggestedRequires_runAutofill standard fills typed done).trans same, ?_⟩
    rcases lists with lists | lists
    · obtain ⟨found, given, lists⟩ := lists.fills owns.builtin done
      cases same.symm.trans given
      exact lists
    · obtain ⟨found, given, lists⟩ := lists.fills owns.builtin done
      cases same.symm.trans given
      exact lists.again
  have keep : ∀ a ∈ x.autofill, ∀ s s', runAutofill s a = .ok s' →
      before s → before s' ∧ (after s → after s') := by
    intro a member s s' done holds
    by_cases here : a = Tag.require
    · subst here
      obtain ⟨same, lists⟩ := fill s s' done holds
      exact ⟨⟨same, Or.inr lists⟩, fun _ => ⟨same, lists⟩⟩
    · obtain ⟨same, lists⟩ := holds
      have typed : s.Typed := lists.elim Lists.typed Lists.typed
      have same := (suggestedRequires_runAutofill standard member typed done).trans same
      have keeps := runAutofill_keeps owns typed (standard.filling a member).1 here done
      exact ⟨⟨same, lists.imp (·.keeps keeps) (·.keeps keeps)⟩, fun ready => ⟨same, ready.2.keeps keeps⟩⟩
  exact ⟨suggested, foldlM_reaches fills fill keep autofilled ⟨suggests, Or.inl lists⟩⟩

/-- What is gathered is what the merges come to. -/
theorem gathered_eq {bs : List Block} {suggested : List Require}
    (apart : suggested.Pairwise fun e e' => Require.same e' e = false) :
    x.gathered bs b suggested =
      mergeNew Require.same (mergeNew Require.same [] (x.declares b ++ suggested))
        (if (x.declares b).isEmpty then mergeNew Require.same [] (x.firstDeclared bs) else []) := by
  have once : ∀ es : List Require, (es.eraseDupsBy Require.same).Pairwise fun e e' => e'.same e = false := by
    intro es
    rw [← mergeNew_nil]
    exact pairwise_mergeNew .nil
  rw [gathered, mergeNew_append, mergeNew_nil, mergeNew_nil, mergeNew_of_apart apart]
  split
  · exact (mergeNew_of_apart (once _)).symm
  · exact List.append_nil _

/-- A draft with what its code suggests comes to a record with what is gathered. -/
theorem gathers_of_completes {bs : List Block} {ps : List Record} (standard : x.IsBuiltin c)
    (fills : Tag.require ∈ x.autofill) (own : b.poster = false)
    (extracted : (x.extract b file).result = .ok (some r)) (posters : ∀ b ∈ bs, b.poster = true)
    (made : List.Forall₂ (fun b p => (x.extract b file).result = .ok (some p)) bs ps)
    (completes : x.Completes ps r r') : x.Gathers file bs b r' := by
  obtain ⟨suggested, suggests, lists⟩ := lists_suggested standard fills own extracted
  have requires := completes_requires standard posters made lists completes
  rw [lists.requires] at requires
  have sources : ∀ p ∈ ps, p.Declares c ∧ p.Familiar c ∧ p.NamesApart := by
    intro p member
    obtain ⟨b', inside, extracted⟩ := exists_of_forall₂ made member
    have declares := standard.maintains_selfless.extract extracted
    rw [if_pos (posters b' inside)] at declares
    exact ⟨declares, familiar_extract standard extracted, namesApart_extract standard extracted⟩
  have selfless : r.Selfless := by
    have selfless := standard.maintains_selfless.extract extracted
    rwa [own, if_neg Bool.false_ne_true] at selfless
  refine ⟨⟨r, suggested, extracted, suggests, ?_⟩, ?_, fun e member autofilled => ?_, ?_⟩
  · rw [gathered_eq (Tag.apart_suggested suggests), requires]
  · have apart : r'.requires.Pairwise fun e e' => e'.same e = false :=
      requires ▸ pairwise_mergeNew (pairwise_mergeNew .nil)
    refine List.pairwise_map.mpr (apart.imp fun other same => ?_)
    exact Bool.eq_false_iff.mp other (Require.same_iff.mpr same.symm)
  · have explains := (standard.maintains_selfless.completes (fun p member => (sources p member).1)
      selfless completes).explains e member
    rwa [Explains, if_pos autofilled] at explains
  · exact (namesApart_completes standard (stands_extract standard (Tag.plain_parameter c) extracted)
      (namesApart_extract standard extracted) (fun p member => (sources p member).2) completes).names

/-- Each record of a source without tags of its own has the requirements that are gathered for its block,
if the code is asked for requirements. Where private names are told by a text, the source is read to its
end. -/
theorem parseSource_gathers {g : Registry} {frozen : Bool} (standard : Registry.standard c [] = .ok g)
    (made : make { g with frozen := frozen } c = .ok x) (fills : Tag.require ∈ x.autofill)
    (text : String) (file : FileRef) :
    (∀ found, (x.parseSource text file).result = .ok found →
      List.Forall₂ (x.Gathers file ((scanBlocks text).filter (·.poster)))
        ((scanBlocks text).filter fun b => !b.poster && !x.skips b file) found.records) ∧
      (c.HasTextPrefix → ∃ found, (x.parseSource text file).result = .ok found) := by
  have builtin := isBuiltin_of_make standard made
  refine ⟨fun found done => ?_, fun prefixed => parseSource_total builtin prefixed text file⟩
  obtain ⟨ds, drafts, completed, _⟩ := parseSource_ok done
  obtain ⟨posters, own⟩ := drafts.sides
  have side : ∀ b ∈ (scanBlocks text).filter fun b => !b.poster && !x.skips b file, b.poster = false :=
    fun b member => by simpa using (Bool.and_eq_true_iff.mp (List.mem_filter.mp member).2).1
  refine ((List.forall₂_and_left _ _).mpr ⟨side, forall₂_comp own completed⟩).imp ?_
  rintro b r ⟨plain, d, extracted, completes⟩
  exact gathers_of_completes builtin fills plain extracted
    (fun _ inside => (List.mem_filter.mp inside).2) posters completes

/-- A configuration that asks the code for requirements and nothing else. -/
def requiringConfig : Config := { Config.default with autofill := .list [.scalar (.text "require")] }

def requiring : Extractor where
  registry := { Registry.builtin requiringConfig with frozen := true }
  includeUnknown := false
  defaultGroup := "undefined"
  autofill := [Tag.require]

/-- A poster and a mixin that declare requirements, and a function that leaves that to its code. -/
def requiringText : String :=
  "////\n/// @require $e\n/// @require \x7bmixin\x7d d\n////\n" ++
    "/// @require \x7bmixin\x7d c - First.\n/// @require \x7bmixin\x7d c - Again.\n" ++
    "@mixin a \x7b @include c; @include d; \x7d\n" ++
    "/// Text\n@function b() \x7b @return b() + $e; \x7d"

theorem parseSource_gathers_requiring :
    let file : FileRef := ⟨"a.scss", "a.scss"⟩
    ∃ found, (requiring.parseSource requiringText file).result = .ok found ∧
      List.Forall₂ (requiring.Gathers file ((scanBlocks requiringText).filter (·.poster)))
        ((scanBlocks requiringText).filter fun b => !b.poster && !requiring.skips b file)
        found.records ∧
      found.records.map (·.requires) =
        [[{ name := "c", kind := .mixin, description := "First." },
            { name := "d", kind := .mixin, autofill := true }],
          [{ name := "e", kind := .var, autofill := true }, { name := "d", kind := .mixin }]] := by
  intro file
  have made : make { Registry.builtin requiringConfig with frozen := true } requiringConfig =
    .ok requiring := rfl
  obtain ⟨gathers, total⟩ := parseSource_gathers (Registry.standard_nil requiringConfig) made
    List.mem_cons_self requiringText file
  obtain ⟨found, done⟩ := total fun _ => ⟨_, rfl⟩
  refine ⟨found, done, gathers found done, ?_⟩
  have seen : (requiring.parseSource requiringText file).result.toOption.map
      (·.records.map (·.requires)) = some (found.records.map (·.requires)) := by rw [done]; rfl
  refine Option.some.inj (seen.symm.trans ?_)
  unfold parseSource scanBlocks requiringText
  -- the characters of a written text are found by a lemma, which spares their decoding
  rw [String.toList_append, String.toList_append, String.toList_append, String.toList_ofList,
    String.toList_ofList, String.toList_ofList, String.toList_ofList]
  decide +kernel

end Extractor

end SheetDoc
