import Mathlib.Data.List.Nodup
import SheetDoc.Config.File
import SheetDoc.Proofs.Data.Merge
import SheetDoc.Proofs.Steps
import SheetDoc.Proofs.Text.Lowercase

namespace SheetDoc

open Text

theorem ReferenceMatch.ofWord?_word (m : ReferenceMatch) : ofWord? m.word = some m := by
  cases m <;> rfl

namespace Config

variable {settings : Assoc Scalar Data} {c : Config}

theorem separateCapitals_of_small {s : List Char} (small : ∀ c ∈ s, Small c.toNat) :
    separateCapitals s = s := by
  cases s with
  | nil => rfl
  | cons c r =>
    have alone : ∀ d ∈ r, (if 'A' ≤ d ∧ d ≤ 'Z' then ['_', d] else [d]) = [d] := by
      intro d member
      have ascii : ((0x41, 0x5A, 1, 32) : CapitalRun) ∈ CapitalRun.all :=
        List.mem_cons_of_mem _ List.mem_cons_self
      have other := small d (List.mem_cons_of_mem c member) _ ascii
      refine if_neg fun upper => other ?_
      obtain ⟨low, high⟩ := upper_iff.mp upper
      exact ⟨low, high, Nat.mod_one _⟩
    rw [separateCapitals, List.flatMap_congr alone]
    simp

/-- The name of a setting is a name of its own. -/
theorem settingName_settingName (key : String) : settingName (settingName key) = settingName key := by
  have small : ∀ c ∈ lower (separateCapitals key.toList), Small c.toNat := fun _ => small_lowerAfter
  rw [settingName, settingName, String.toList_ofList, separateCapitals_of_small small, lower_lower]

theorem textKey_eq_ok {fault : Shape → Misuse} {key : Scalar} {name : String} :
    textKey fault key = .ok name ↔ key = .text name := by
  cases key <;> simp [textKey]

theorem keys_dataEntries (entries : Assoc String Data) :
    (dataEntries entries).keys = entries.keys.map .text := by
  simp only [dataEntries, Assoc.keys, List.map_map]
  rfl

theorem text_beq {name other : String} :
    ((Scalar.text name == Scalar.text other) = true) ↔ name = other :=
  Scalar.beq_iff_key_eq.trans ⟨Scalar.text.inj, congrArg _⟩

theorem distinct_dataEntries {entries : Assoc String Data} :
    (dataEntries entries).Distinct ↔ entries.keys.Nodup := by
  rw [Assoc.Distinct, keys_dataEntries, List.pairwise_map, List.Nodup]
  simp only [Bool.eq_false_iff, ne_eq, text_beq]

theorem namedGroups_eq_ok {entries : Assoc Scalar Data} {groups : Assoc String Data} :
    namedGroups entries = .ok groups ↔ entries = dataEntries groups := by
  rw [namedGroups, mapM_eq_ok]
  constructor
  · intro each
    induction each with
    | nil => rfl
    | cons here _ ih =>
      obtain ⟨name, key, done⟩ := bind_eq_ok.mp here
      cases done
      rw [ih]
      exact congrArg (· :: _) (Prod.ext (textKey_eq_ok.mp key) rfl)
  · rintro rfl
    rw [dataEntries, List.forall₂_map_left_iff]
    exact List.forall₂_same.mpr fun _ _ => rfl

/-- Names of settings that are names already are kept. -/
theorem nameSettings_dataEntries {named : Assoc String Data}
    (fixed : ∀ name ∈ named.keys, settingName name = name) (nodup : named.keys.Nodup) :
    nameSettings (dataEntries named) = .ok named := by
  refine bind_eq_ok.mpr ⟨named, ?_, congrArg _ ?_⟩
  · rw [mapM_eq_ok, dataEntries, List.forall₂_map_left_iff]
    refine List.forall₂_same.mpr fun e member => ?_
    have same := fixed e.1 (List.mem_map_of_mem member)
    exact bind_eq_ok.mpr ⟨e.1, rfl, congrArg Except.ok (Prod.ext same rfl)⟩
  · exact Assoc.update_of_distinct (m := []) (Assoc.distinct_iff_nodup.mpr nodup)

/-- Settings are named once each, by names of settings. -/
theorem nameSettings_ok {named : Assoc String Data} (done : nameSettings settings = .ok named) :
    named.keys.Nodup ∧ ∀ name ∈ named.keys, settingName name = name := by
  obtain ⟨entries, each, done⟩ := bind_eq_ok.mp done
  cases done
  refine ⟨Assoc.distinct_iff_nodup.mp (Assoc.distinct_update Assoc.distinct_nil entries), ?_⟩
  intro name member
  rcases Assoc.mem_keys_update member with old | new
  · cases old
  · obtain ⟨e, listed, rfl⟩ := List.mem_map.mp new
    obtain ⟨⟨key, value⟩, _, here⟩ := exists_of_forall₂ (mapM_eq_ok.mp each) listed
    obtain ⟨spelled, _, done⟩ := bind_eq_ok.mp here
    cases done
    exact settingName_settingName spelled

/-- The settings that every configuration has. -/
def knownEntries (c : Config) : Assoc String Data :=
  [("groups", .map (dataEntries c.groups)), ("default_group", .text c.defaultGroup),
    ("autofill", c.autofill), ("access", c.access),
    ("include_unknown_contexts", c.includeUnknownContexts), ("private_prefix", c.privatePrefix),
    ("reference_match", .text c.referenceMatch.word), ("strict", c.strict)]

theorem dataEntries_append (m n : Assoc String Data) :
    dataEntries (m ++ n) = dataEntries m ++ dataEntries n := List.map_append

/-- New names follow those that are there. -/
theorem mergeEntries_dataEntries {base update : Assoc String Data}
    (nodup : (base ++ update).keys.Nodup) :
    Data.mergeEntries (dataEntries base) (dataEntries update) = dataEntries (base ++ update) := by
  have distinct := distinct_dataEntries.mpr nodup
  rw [dataEntries_append] at distinct ⊢
  exact Data.mergeEntries_of_distinct distinct

/-- The entry of the general group. -/
def generalGroup (shown : Data) : Assoc String Data := [("undefined", shown)]

/-- What the settings of a built configuration are like. -/
structure Built (c : Config) : Prop where
  groups : ∃ shown rest, (generalGroup shown ++ rest).keys.Nodup ∧
    c.groups = withDefaultGroup c.defaultGroup (generalGroup shown ++ rest)
  defaultGroup : lowered c.defaultGroup = c.defaultGroup
  named : ∀ name ∈ c.others.keys, settingName name = name
  nodup : (c.knownEntries ++ c.others).keys.Nodup

/-- The general group comes to the front, and the others follow in their order. -/
theorem mergeEntries_general {front rest : Assoc String Data} {shown : Data}
    (nodup : (front ++ generalGroup shown ++ rest).keys.Nodup) :
    Data.mergeEntries (dataEntries (generalGroup (.text "General")))
        (dataEntries (front ++ generalGroup shown ++ rest)) =
      dataEntries (generalGroup shown ++ front ++ rest) := by
  have moved : (generalGroup shown ++ front ++ rest).keys.Nodup := by
    simp only [Assoc.keys_append, List.append_assoc] at nodup ⊢
    have middle : (front.keys ++ "undefined" :: rest.keys).Nodup := nodup
    rw [List.nodup_middle] at middle
    exact middle
  have ahead : (generalGroup (.text "General") ++ front).keys.Nodup := by
    rw [Assoc.keys_append] at moved
    exact (List.nodup_append.mp moved).1
  have plain : Data.merge (.text "General") shown = shown := Data.merge_of_not_map (by simp) shown
  have met : Data.mergeEntries (dataEntries (generalGroup (.text "General") ++ front))
      (dataEntries (generalGroup shown)) = dataEntries (generalGroup shown ++ front) := by
    simp [generalGroup, dataEntries, Data.mergeEntries, Assoc.set, Assoc.get?, Data.mergeEntry, plain]
  rw [dataEntries_append, dataEntries_append, Data.mergeEntries_append, Data.mergeEntries_append,
    mergeEntries_dataEntries ahead, met, mergeEntries_dataEntries moved]

theorem toData_eq (c : Config) : c.toData = dataEntries c.knownEntries ++ dataEntries c.others :=
  dataEntries_append c.knownEntries c.others

theorem merged_toData (c : Config) {groups : Assoc String Data}
    (same : Data.mergeEntries (dataEntries (generalGroup (.text "General"))) (dataEntries c.groups) =
      dataEntries groups) (nodup : (c.knownEntries ++ c.others).keys.Nodup) :
    Data.mergeEntries (dataEntries defaultEntries) c.toData = ({ c with groups := groups }).toData := by
  have known : Data.mergeEntries (dataEntries defaultEntries) (dataEntries c.knownEntries) =
      dataEntries ({ c with groups := groups }).knownEntries := by
    have merged : Data.merge (.map (dataEntries (generalGroup (.text "General"))))
        (.map (dataEntries c.groups)) = .map (dataEntries groups) := by
      rw [Data.merge, same]
    simpa [knownEntries, generalGroup, dataEntries, defaultEntries, Data.mergeEntries, Assoc.set,
      Assoc.get?, Data.mergeEntry, text_beq, Data.merge_of_not_map] using merged
  rw [toData_eq, Data.mergeEntries_append, known]
  exact mergeEntries_dataEntries nodup

/-- The settings that nothing reads are those that have no default. -/
theorem others_dataEntries (m : Assoc String Data) :
    ((dataEntries m).filterMap fun
      | (.text name, value) => if defaultEntries.has name then none else some (name, value)
      | _ => none) = m.filter fun e => !defaultEntries.has e.1 := by
  rw [dataEntries, List.filterMap_map, ← List.filterMap_eq_filter]
  refine List.filterMap_congr fun e _ => ?_
  by_cases known : defaultEntries.has e.1 = true <;> simp [known, Option.guard]

theorem has_iff {m : Assoc String Data} {name : String} : m.has name = true ↔ name ∈ m.keys := by
  rw [Assoc.has, ← not_iff_not, ← Assoc.get?_eq_none_iff, Bool.not_eq_true, Option.isSome_eq_false_iff,
    Option.isNone_iff_eq_none]

theorem others_toData (nodup : (c.knownEntries ++ c.others).keys.Nodup) :
    ((c.knownEntries ++ c.others).filter fun e => !defaultEntries.has e.1) = c.others := by
  have known : (c.knownEntries.filter fun e => !defaultEntries.has e.1) = [] := rfl
  rw [Assoc.keys_append, List.nodup_append] at nodup
  rw [List.filter_append, known, List.nil_append, List.filter_eq_self]
  intro e member
  simp only [Bool.not_eq_true', ← Bool.not_eq_true, has_iff]
  exact fun listed => nodup.2.2 _ listed _ (List.mem_map_of_mem member) rfl

theorem check_toData (small : lowered c.defaultGroup = c.defaultGroup)
    (nodup : (c.knownEntries ++ c.others).keys.Nodup) :
    check c.toData = .ok { c with groups := withDefaultGroup c.defaultGroup c.groups } := by
  have groups : lookup c.toData "groups" = .map (dataEntries c.groups) := rfl
  have matching : lookup c.toData "reference_match" = .text c.referenceMatch.word := rfl
  have defaultGroup : lookup c.toData "default_group" = .text c.defaultGroup := rfl
  unfold check
  simp only [matching, groups, defaultGroup, namedGroups_eq_ok.mpr rfl,
    ReferenceMatch.ofWord?_word]
  refine congrArg Except.ok ?_
  have plain : Data.plainText (.text c.defaultGroup) = c.defaultGroup := rfl
  have others := (others_dataEntries (c.knownEntries ++ c.others)).trans (others_toData nodup)
  rw [dataEntries_append, ← toData_eq] at others
  rw [plain, small]
  exact congrArg (fun others : Assoc String Data =>
    { c with groups := withDefaultGroup c.defaultGroup c.groups, others := others }) others

theorem withDefaultGroup_of_listed {group : String} {groups : Assoc String Data}
    (listed : group ∈ groups.keys.map lowered) : withDefaultGroup group groups = groups :=
  if_pos (List.contains_iff_mem.mpr listed)

/-- A default group that is among the groups leaves it to the general group to come to the front. -/
theorem build_toData (built : c.Built) {front rest : Assoc String Data} {shown : Data}
    (groups : c.groups = front ++ generalGroup shown ++ rest) (nodup : c.groups.keys.Nodup)
    (listed : c.defaultGroup ∈ c.groups.keys.map lowered) :
    build c.toData = .ok { c with groups := generalGroup shown ++ front ++ rest } := by
  have fixed : ∀ name ∈ (c.knownEntries ++ c.others).keys, settingName name = name := by
    rw [Assoc.keys_append]
    refine List.forall_mem_append.mpr ⟨?_, built.named⟩
    have known : ∀ name ∈ defaultEntries.keys, settingName name = name := by decide +kernel
    exact known
  have general : Data.mergeEntries (dataEntries (generalGroup (.text "General")))
      (dataEntries c.groups) = dataEntries (generalGroup shown ++ front ++ rest) := by
    rw [groups] at nodup ⊢
    exact mergeEntries_general nodup
  have again : c.defaultGroup ∈ (generalGroup shown ++ front ++ rest).keys.map lowered := by
    rw [groups] at listed
    refine ((List.Perm.append_right rest List.perm_append_comm).map _).map lowered |>.subset listed
  refine bind_eq_ok.mpr ⟨c.knownEntries ++ c.others, nameSettings_dataEntries fixed built.nodup, ?_⟩
  have merged := merged_toData c general built.nodup
  rw [toData_eq, ← dataEntries_append] at merged
  rw [merged]
  have checked := check_toData (c := { c with groups := generalGroup shown ++ front ++ rest })
    built.defaultGroup built.nodup
  exact checked.trans (congrArg (fun groups => Except.ok { c with groups := groups })
    (withDefaultGroup_of_listed again))

theorem groups_merged {named : Assoc String Data} (nodup : named.keys.Nodup)
    {entries : Assoc Scalar Data}
    (groups : lookup (Data.mergeEntries (dataEntries defaultEntries) (dataEntries named)) "groups" =
      .map entries) :
    ∃ update, entries = Data.mergeEntries (dataEntries (generalGroup (.text "General"))) update := by
  rw [lookup, Data.get?_mergeEntries (distinct_dataEntries.mpr nodup)] at groups
  have base : (dataEntries defaultEntries).get? (.text "groups") =
      some (.map (dataEntries (generalGroup (.text "General")))) := rfl
  rw [base] at groups
  split at groups
  · cases groups
    exact ⟨[], rfl⟩
  · rename_i value _
    rw [Data.mergeEntry, Option.getD_some] at groups
    cases value with
    | map update =>
      rw [Data.merge] at groups
      exact ⟨update, (Data.map.inj groups).symm⟩
    | list items => cases groups
    | scalar value => cases groups

/-- Checked settings hold a mapping of groups, and what is read of them is in its place. -/
theorem check_ok {settings : Assoc Scalar Data} (done : check settings = .ok c) :
    ∃ entries groups, lookup settings "groups" = .map entries ∧ namedGroups entries = .ok groups ∧
      c.groups = withDefaultGroup c.defaultGroup groups ∧
      c.defaultGroup = lowered (lookup settings "default_group").plainText ∧
      c.others = settings.filterMap fun
        | (.text name, value) => if defaultEntries.has name then none else some (name, value)
        | _ => none := by
  unfold check at done
  simp only at done
  split at done
  · split at done
    · obtain ⟨_, _, done⟩ := bind_eq_ok.mp done
      split at done
      · rename_i entries found
        obtain ⟨groups, named, done⟩ := bind_eq_ok.mp done
        cases done
        exact ⟨entries, groups, found, named, rfl, rfl, rfl⟩
      · cases done
    · cases done
  · cases done

theorem dataEntries_set (entries : Assoc String Data) (name : String) (value : Data) :
    (dataEntries entries).set (.text name) value = dataEntries (entries.set name value) := by
  induction entries with
  | nil => rfl
  | cons e rest ih =>
    by_cases here : e.1 = name
    · simp [dataEntries, Assoc.set, here]
    · simp only [dataEntries] at ih
      simp [dataEntries, Assoc.set, text_beq, here, ih]

/-- Mappings by names are merged to a mapping by names. -/
theorem exists_mergeEntries (base update : Assoc String Data) :
    ∃ m, Data.mergeEntries (dataEntries base) (dataEntries update) = dataEntries m := by
  refine Data.mergeEntries_induction (P := fun m => ∃ n, m = dataEntries n) ⟨base, rfl⟩ ?_
  rintro _ e listed value ⟨n, rfl⟩
  obtain ⟨⟨name, _⟩, _, rfl⟩ := List.mem_map.mp listed
  exact ⟨n.set name value, dataEntries_set n name value⟩

/-- A name is in a mapping by names when it is among the keys. -/
theorem text_mem_keys {m : Assoc String Data} {name : String} :
    .text name ∈ (dataEntries m).keys ↔ name ∈ m.keys := by
  rw [keys_dataEntries]
  exact List.mem_map_of_injective fun _ _ => Scalar.text.inj

/-- What is merged into the groups comes behind the general group. -/
theorem exists_generalGroup {update : Assoc Scalar Data} {given : Assoc String Data}
    (merged : Data.mergeEntries (dataEntries (generalGroup (.text "General"))) update =
      dataEntries given) :
    given.keys.Nodup ∧ ∃ shown rest, given = generalGroup shown ++ rest := by
  have general : (dataEntries (generalGroup (.text "General"))).Distinct :=
    distinct_dataEntries.mpr (List.nodup_singleton "undefined")
  have distinct := Data.distinct_mergeEntries general update
  have ahead := Data.keys_prefix_mergeEntries (dataEntries (generalGroup (.text "General"))) update
  rw [merged] at distinct ahead
  refine ⟨distinct_dataEntries.mp distinct, ?_⟩
  rw [keys_dataEntries, keys_dataEntries] at ahead
  obtain ⟨names, ahead⟩ := ahead
  cases given with
  | nil => cases ahead
  | cons first rest =>
    obtain ⟨name, shown⟩ := first
    cases (List.cons.inj ahead).1
    exact ⟨shown, rest, rfl⟩

/-- The settings that nothing reads are given ones, under names of their own. -/
theorem others_of_merged {named m others : Assoc String Data} (nodup : m.keys.Nodup)
    (merged : Data.mergeEntries (dataEntries defaultEntries) (dataEntries named) = dataEntries m)
    (unread : others = m.filter fun e => !defaultEntries.has e.1) :
    (defaultEntries ++ others).keys.Nodup ∧ ∀ name ∈ others.keys, name ∈ named.keys := by
  have fresh : ∀ name ∈ others.keys, name ∈ m.keys ∧ name ∉ defaultEntries.keys := by
    intro name member
    rw [unread] at member
    obtain ⟨e, kept, rfl⟩ := List.mem_map.mp member
    obtain ⟨inside, unknown⟩ := List.mem_filter.mp kept
    refine ⟨List.mem_map_of_mem inside, fun listed => ?_⟩
    rw [has_iff.mpr listed] at unknown
    cases unknown
  constructor
  · rw [Assoc.keys_append, List.nodup_append]
    refine ⟨by decide, ?_, fun name known _ other same => (fresh _ other).2 (same ▸ known)⟩
    rw [unread]
    exact nodup.sublist (List.filter_sublist.map _)
  · intro name member
    obtain ⟨inside, unknown⟩ := fresh name member
    have key := text_mem_keys.mpr inside
    rw [← merged] at key
    rcases Data.mem_keys_mergeEntries key with default | given
    · exact absurd (text_mem_keys.mp default) unknown
    · exact text_mem_keys.mp given

theorem built_of_build (done : build settings = .ok c) : c.Built := by
  obtain ⟨named, names, done⟩ := bind_eq_ok.mp done
  obtain ⟨nodup, fixed⟩ := nameSettings_ok names
  obtain ⟨entries, given, found, groups, shown, lower, others⟩ := check_ok done
  obtain ⟨update, rfl⟩ := groups_merged nodup found
  have listed := namedGroups_eq_ok.mp groups
  obtain ⟨m, merged⟩ := exists_mergeEntries defaultEntries named
  rw [merged, others_dataEntries] at others
  have distinct : m.keys.Nodup := by
    rw [← distinct_dataEntries, ← merged]
    exact Data.distinct_mergeEntries (distinct_dataEntries.mpr (by decide)) _
  obtain ⟨apart, unread⟩ := others_of_merged distinct merged others
  obtain ⟨distinct, general, rest, rfl⟩ := exists_generalGroup listed
  refine ⟨⟨general, rest, distinct, shown⟩, ?_, fun name member => fixed name (unread name member),
    apart⟩
  rw [lower, lowered_lowered]

/-- The default group is one of the groups. -/
theorem Built.listed (built : c.Built) : c.defaultGroup ∈ c.groups.keys.map lowered := by
  obtain ⟨shown, rest, _, groups⟩ := built.groups
  rw [groups, withDefaultGroup]
  split
  · rename_i listed
    exact List.contains_iff_mem.mp listed
  · exact List.mem_map.mpr ⟨_, List.mem_cons_self, built.defaultGroup⟩

/-- What becomes of a configuration that is built again from its own settings. Where the default group
was among its groups already it stays as it is. Where it was put in front of them it changes places
with the general group, and what comes of that is stable. -/
def BuildsAgain (c : Config) : Prop :=
  ∃ shown rest,
    (c.groups = generalGroup shown ++ rest ∧ c.defaultGroup ∈ c.groups.keys.map lowered ∧
      build c.toData = .ok c) ∨
    (c.groups = (c.defaultGroup, .text "General") :: (generalGroup shown ++ rest) ∧
      c.defaultGroup ∉ (generalGroup shown ++ rest).keys.map lowered ∧
      ∃ c', c' = { c with
          groups := generalGroup shown ++ (c.defaultGroup, .text "General") :: rest } ∧
        c' ≠ c ∧ build c.toData = .ok c' ∧ build c'.toData = .ok c')

theorem Built.buildsAgain (built : c.Built) : c.BuildsAgain := by
  obtain ⟨shown, rest, nodup, groups⟩ := built.groups
  refine ⟨shown, rest, ?_⟩
  by_cases listed : c.defaultGroup ∈ (generalGroup shown ++ rest).keys.map lowered
  · rw [withDefaultGroup_of_listed listed] at groups
    refine Or.inl ⟨groups, groups ▸ listed, ?_⟩
    have front : c.groups = [] ++ generalGroup shown ++ rest := groups
    have again := build_toData built front (groups ▸ nodup) (groups ▸ listed)
    rwa [List.append_nil, ← groups] at again
  · have fresh : c.defaultGroup ∉ (generalGroup shown ++ rest).keys := by
      intro named
      exact listed (List.mem_map.mpr ⟨_, named, built.defaultGroup⟩)
    have apart : c.defaultGroup ≠ "undefined" := fun same => fresh (same ▸ List.mem_cons_self)
    have groups : c.groups = [(c.defaultGroup, .text "General")] ++ generalGroup shown ++ rest :=
      groups.trans (if_neg (mt List.contains_iff_mem.mp listed))
    have distinct : c.groups.keys.Nodup := groups ▸ List.nodup_cons.mpr ⟨fresh, nodup⟩
    have first : c.defaultGroup ∈ c.groups.keys.map lowered := by
      rw [groups]
      exact List.mem_map.mpr ⟨_, List.mem_cons_self, built.defaultGroup⟩
    have again := build_toData built groups distinct first
    refine Or.inr ⟨groups, listed, _, rfl, ?_, again, ?_⟩
    · intro same
      have heads := congrArg (fun c : Config => c.groups.keys.head?) same
      rw [groups] at heads
      exact apart (Option.some.inj heads).symm
    · have moved : c.groups.Perm (generalGroup shown ++ [(c.defaultGroup, .text "General")] ++ rest) := by
        rw [groups]
        exact List.Perm.append_right rest List.perm_append_comm
      have front : generalGroup shown ++ [(c.defaultGroup, .text "General")] ++ rest =
          [] ++ generalGroup shown ++ (c.defaultGroup, .text "General") :: rest :=
        List.append_assoc _ _ rest
      exact build_toData (built_of_build again) front ((moved.map _).nodup_iff.mp distinct)
        (((moved.map _).map lowered).subset first)

/-- A configuration built from any settings, and built again from its own. -/
theorem build_again (done : build settings = .ok c) : c.BuildsAgain :=
  (built_of_build done).buildsAgain

/-- A default group of which the groups know nothing. -/
def miscellaneous : Config :=
  { default with
    groups := [("misc", .text "General"), ("undefined", .text "General")], defaultGroup := "misc" }

theorem build_again_miscellaneous :
    build [(.text "default_group", .text "misc")] = .ok miscellaneous ∧ miscellaneous.BuildsAgain := by
  have done : build [(.text "default_group", .text "misc")] = .ok miscellaneous := rfl
  exact ⟨done, build_again done⟩

/-- Built again, a configuration may rank its groups in another order. -/
theorem exists_build_reordered :
    ∃ settings c c', build settings = .ok c ∧ build c.toData = .ok c' ∧ c' ≠ c ∧
      c.groups.keys = ["misc", "undefined"] ∧ c'.groups.keys = ["undefined", "misc"] := by
  refine ⟨[(.text "default_group", .text "misc")], miscellaneous,
    { miscellaneous with
      groups := [("undefined", .text "General"), ("misc", .text "General")] }, rfl, rfl, ?_, rfl, rfl⟩
  intro same
  have keys := congrArg (fun c : Config => c.groups.keys) same
  exact absurd keys (by decide)

/-- The same of what a configuration file gives. -/
theorem load_again {t : FileTree} {path : Option String} (done : load t path = .ok c) :
    c.BuildsAgain := by
  have built : ∃ settings, build settings = .ok c := by
    unfold load at done
    simp only at done
    split at done
    · exact ⟨[], done⟩
    · split at done
      · cases done
      · cases done
      · exact ⟨[], done⟩
      · split at done
        · cases done
        · obtain ⟨settings, _, done⟩ := bind_eq_ok.mp done
          exact ⟨settings, done⟩
  obtain ⟨settings, done⟩ := built
  exact (built_of_build done).buildsAgain

end Config

end SheetDoc
