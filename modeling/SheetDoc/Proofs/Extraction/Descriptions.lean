import SheetDoc.Order
import SheetDoc.Proofs.Extraction.Precedence
import SheetDoc.Proofs.Extraction.Said
import SheetDoc.Proofs.Text.Lowercase

namespace SheetDoc

theorem requiredValue_ne_empty {tag raw value : String} (read : requiredValue tag raw = .ok value) :
    value ≠ "" := by
  simp only [requiredValue] at read
  split at read
  · cases read
  · rename_i filled
    exact Except.ok.inj read ▸ filled

theorem Tag.owns_group (c : Config) : (Tag.group c).Owns c .group := ⟨group_mem, rfl⟩

theorem Tag.owns_groupDescription (c : Config) : Tag.groupDescription.Owns c .groupDescription :=
  ⟨by simp [builtins], rfl⟩

theorem Record.groupDescription_of_own {r : Record} {words : Option String}
    (own : r.own .groupDescription = .ok (.ofOption words)) : r.groupDescription = words := by
  have same : Value.ofOption r.groupDescription = .ofOption words := Except.ok.inj own
  cases given : r.groupDescription <;> cases words <;> simp_all [Value.ofOption]

namespace Extractor

open Record

variable {x : Extractor} {c : Config} {b : Block} {file : FileRef} {p r r' : Record}

/-- The group that a comment names, as it is written there. -/
def groupOf? (x : Extractor) (b : Block) : Option String :=
  (x.said "group" (requiredValue "group") b).head?

/-- The description of a group that a comment gives. -/
def descriptionOf? (x : Extractor) (b : Block) : Option String :=
  (x.said "groupDescription" (requiredValue "groupDescription") b).head?

/-- The group that a poster describes, in small letters, with the description. -/
def describes? (x : Extractor) (b : Block) : Option (String × String) :=
  (x.descriptionOf? b).map fun words => (Text.lowered ((x.groupOf? b).getD x.defaultGroup), words)

theorem descriptionOf?_ne_empty {words : String} (given : x.descriptionOf? b = some words) :
    words ≠ "" := by
  obtain ⟨raw, read⟩ := mem_said (List.mem_of_mem_head? given)
  exact requiredValue_ne_empty read

theorem group_of_extract (standard : x.IsBuiltin c) (done : (x.extract b file).result = .ok (some r)) :
    r.has "group" = (x.groupOf? b).isSome ∧ r.group = ((x.groupOf? b).map Text.lowered).toList := by
  have first : r.First (Tag.group c) .group (.texts []) (fun v => .texts [Text.lowered v])
      (x.said "group" (requiredValue "group") b) := by
    refine extract_first standard (Tag.owns_group c) (by simp [Tag.group]) rfl rfl rfl rfl nofun ?_ rfl done
    rintro v r m typed _ ⟨⟩
    exact ⟨typed.settle _, rfl⟩
  refine ⟨first.has, group_of_own (first.own.trans (congrArg Except.ok ?_))⟩
  rw [groupOf?]
  cases (x.said "group" (requiredValue "group") b).head? <;> rfl

theorem description_of_extract (standard : x.IsBuiltin c)
    (done : (x.extract b file).result = .ok (some r)) : r.groupDescription = x.descriptionOf? b := by
  have first : r.First Tag.groupDescription .groupDescription .null .text
      (x.said "groupDescription" (requiredValue "groupDescription") b) := by
    refine extract_first standard (Tag.owns_groupDescription c) (by simp [Tag.groupDescription]) rfl rfl
      rfl rfl nofun ?_ rfl done
    rintro v r m typed _ ⟨⟩
    exact ⟨typed.settle _, rfl⟩
  refine groupDescription_of_own (first.own.trans (congrArg Except.ok ?_))
  rw [descriptionOf?]
  cases (x.said "groupDescription" (requiredValue "groupDescription") b).head? <;> rfl

/-- The groups that the posters of a file describe, each with its last description. -/
theorem describedGroups_eq (standard : x.IsBuiltin c)
    (small : Text.lowered x.defaultGroup = x.defaultGroup) {bs : List Block} {ps : List Record}
    (made : List.Forall₂ (fun b p => (x.extract b file).result = .ok (some p)) bs ps) :
    x.describedGroups ps = Assoc.ofList (bs.filterMap x.describes?) := by
  unfold describedGroups
  congr 1
  induction made with
  | nil => rfl
  | @cons b p bs ps done _ ih =>
    have words := description_of_extract standard done
    have group : x.posterGroup p = Text.lowered ((x.groupOf? b).getD x.defaultGroup) := by
      rw [posterGroup, (group_of_extract standard done).2]
      cases x.groupOf? b with
      | none => exact small.symm
      | some name => rfl
    simp only [List.filterMap_cons, words, group, ih, describes?]
    cases given : x.descriptionOf? b with
    | none => rfl
    | some words => simp only [if_neg (descriptionOf?_ne_empty given), Option.map_some]

/-- No poster gives a record what is only said of the poster itself. -/
theorem takeOver_spared {name : String} (spared : posterOnly.contains name = true)
    (done : x.takeOver p r name = .ok r') : r' = r := by
  obtain ⟨found, _, done⟩ := bind_eq_ok.mp done
  simp only [spared, if_true] at done
  split at done
  · exact (Except.ok.inj done).symm
  · split at done <;> exact (Except.ok.inj done).symm

/-- What is only said of a poster itself stays on a record as its comment has it, where there is no
default. -/
theorem completes_spared (standard : x.IsBuiltin c) {a : Tag} {f : Field} (owns : a.Owns c f)
    (spared : posterOnly.contains a.name = true) (idle : a.fallback = none) {posters : List Record}
    (typed : r.Typed) (sources : ∀ p ∈ posters, p.Familiar c) (completes : x.Completes posters r r') :
    r.Keeps a f r' := by
  obtain ⟨m, merged, completed⟩ := completes
  have keeps : r.Keeps a f m := by
    refine foldlM_keeps (fun p listed s s' merged keeps => ?_) merged (.refl typed)
    have source := sources p listed
    refine foldlM_keeps (fun name set t t' done keeps => ?_) merged keeps
    obtain ⟨b, builtin, rfl⟩ := source.known name (List.contains_iff_mem.mpr set)
    by_cases same : b = a
    · subst same
      exact takeOver_spared spared done ▸ keeps
    · exact keeps.trans (takeOver_keeps standard owns keeps.typed source.typed builtin same done)
  exact keeps.trans (applyFallbacks_keeps standard owns keeps.typed (Or.inl idle) completed)

theorem completes_description (standard : x.IsBuiltin c) {posters : List Record} (typed : r.Typed)
    (sources : ∀ p ∈ posters, p.Familiar c) (completes : x.Completes posters r r') :
    r'.groupDescription = r.groupDescription := by
  have owns := Tag.owns_groupDescription c
  exact groupDescription_of_own (completes_spared standard owns rfl rfl typed sources completes).own

theorem find?_group (standard : x.IsBuiltin c) {bs : List Block} {ps : List Record}
    (made : List.Forall₂ (fun b p => (x.extract b file).result = .ok (some p)) bs ps) :
    (ps.find? (·.has "group")).map (·.group) =
      (bs.findSome? x.groupOf?).map fun name => [Text.lowered name] := by
  induction made with
  | nil => rfl
  | @cons b p bs ps done _ ih =>
    obtain ⟨has, group⟩ := group_of_extract standard done
    rw [List.find?_cons, List.findSome?_cons, has]
    cases named : x.groupOf? b with
    | none => exact ih
    | some name => simp [group, named]

theorem read_group (typed : r.Typed) {names : List String} (group : r.group = names) :
    r.read .group = .ok (.texts names) := by
  rw [typed.read, Record.own, group]

theorem decided_group (standard : x.IsBuiltin c) {bs : List Block} {ps : List Record}
    (made : List.Forall₂ (fun b p => (x.extract b file).result = .ok (some p)) bs ps)
    (done : (x.extract b file).result = .ok (some r)) :
    decided c (Tag.group c) .group ps r =
      .ok (.texts [((b :: bs).findSome? x.groupOf?).elim c.defaultGroup Text.lowered]) := by
  have typed : r.Typed := (familiar_extract standard done).typed
  obtain ⟨has, group⟩ := group_of_extract standard done
  have has : r.has (Tag.group c).name = (x.groupOf? b).isSome := has
  rw [decided, has, List.findSome?_cons]
  cases named : x.groupOf? b with
  | some name =>
    rw [named] at group
    exact read_group typed group
  | none =>
    have lacks : r.lacks (Tag.group c) = true := by
      rw [Record.lacks, has, named]
      rfl
    have speaks : speaker (Tag.group c) ps r = ps.find? (·.has "group") := by
      rw [speaker, lacks]
      rfl
    have first := find?_group standard made
    rw [Option.isSome_none, if_neg Bool.false_ne_true, speaks]
    cases spoken : ps.find? (·.has "group") with
    | none =>
      have nobody : bs.findSome? x.groupOf? = none := by simpa [spoken] using first.symm
      rw [nobody]
      rfl
    | some p =>
      have source : p.Typed :=
        (familiar_of_extracts standard made p (List.mem_of_find?_eq_some spoken)).typed
      obtain ⟨name, found, group⟩ := Option.map_eq_some_iff.mp (spoken ▸ first).symm
      simp only [read_group source group.symm, found]
      rfl

/-- A record has one group: what its comment names, else what the first poster that names one does, in
small letters, else the default. -/
theorem completes_groups (standard : x.IsBuiltin c) {bs : List Block} {ps : List Record}
    (made : List.Forall₂ (fun b p => (x.extract b file).result = .ok (some p)) bs ps)
    (done : (x.extract b file).result = .ok (some r)) (completes : x.Completes ps r r') :
    r'.group = [((b :: bs).findSome? x.groupOf?).elim c.defaultGroup Text.lowered] := by
  have plain := Tag.plain_group c
  have stands := stands_extract standard plain done
  have sources : ∀ p ∈ ps, p.Stands c (Tag.group c) .group := by
    intro p member
    obtain ⟨b, _, done⟩ := exists_of_forall₂ made member
    exact stands_extract standard plain done
  have typed : r'.Typed := standard.keepsTypes.maintains.completes (fun p member => (sources p member).typed)
    stands.typed completes
  obtain ⟨_, v, read, decides, _⟩ := completes_decided standard plain stands sources completes
  rw [decided_group standard made done] at decides
  rw [typed.read, ← decides] at read
  exact group_of_own read

theorem completes_group (standard : x.IsBuiltin c) {bs : List Block} {ps : List Record}
    (made : List.Forall₂ (fun b p => (x.extract b file).result = .ok (some p)) bs ps)
    (done : (x.extract b file).result = .ok (some r)) (completes : x.Completes ps r r') :
    r'.primaryGroup c.defaultGroup =
      Text.lowered (((b :: bs).findSome? x.groupOf?).getD c.defaultGroup) := by
  rw [Record.primaryGroup, completes_groups standard made done completes]
  cases (b :: bs).findSome? x.groupOf? with
  | none => rfl
  | some name => exact Text.lowered_lowered name

end Extractor

end SheetDoc
