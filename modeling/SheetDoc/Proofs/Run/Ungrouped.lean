import SheetDoc.Proofs.Run.Descriptions

namespace SheetDoc

/-- The configured groups in small letters, in their order. -/
def Config.groupKeys (c : Config) : List String := c.groups.keys.map Text.lowered

/-- A place among records that belongs to a configured group: in front of every record whose group is not
configured, and beside a record of another configured group as the keys of the two groups stand. -/
structure Config.Ranks (c : Config) (rs : List Record) (group : String) (p : Nat) : Prop where
  ahead : ∀ q r, rs[q]? = some r → r.primaryGroup c.defaultGroup ∉ c.groupKeys → p < q
  among : ∀ q r, rs[q]? = some r → r.primaryGroup c.defaultGroup ∈ c.groupKeys →
    r.primaryGroup c.defaultGroup ≠ group →
    (p < q ↔ c.groupKeys.idxOf group < c.groupKeys.idxOf (r.primaryGroup c.defaultGroup))

/-- Neither the comment of a block nor a poster of its file names a group. -/
def Origin.Ungrouped (x : Extractor) (o : Origin) : Prop :=
  (o.block :: o.posters).findSome? x.groupOf? = none

variable {x : Extractor} {c : Config} {settings : Assoc Scalar Data}

theorem Extractor.Yields.group_of_ungrouped {o : Origin} {r : Record} (standard : x.IsBuiltin c)
    (yields : x.Yields o r) (ungrouped : o.Ungrouped x) : r.group = [c.defaultGroup] := by
  obtain ⟨d, ps, done, made, completes⟩ := yields
  have nobody : (o.block :: o.posters).findSome? x.groupOf? = none := ungrouped
  have group := Extractor.completes_groups standard made done completes
  rwa [nobody, Option.elim_none] at group

namespace Run

/-- What a run gives ranks the records of a configured group by its key. -/
theorem ranks_of_collect {s : Store} {rs : List Record} (typed : ∀ r ∈ s.records, r.Typed)
    (collected : collect c s = .ok rs) {p : Nat} {r : Record} (atP : rs[p]? = some r)
    (listed : r.primaryGroup c.defaultGroup ∈ c.groupKeys) :
    c.Ranks rs (r.primaryGroup c.defaultGroup) p := by
  obtain ⟨levels, _, rfl⟩ := (collect_eq_ok typed).mp collected
  have ranks := ranksGroups_groupRank c.groups.keys c.defaultGroup s.records
  have kept : ((inOrder c.groups.keys c.defaultGroup s.records).filter
      fun r => levels.contains r.accessLevel).Sublist (inOrder c.groups.keys c.defaultGroup s.records) :=
    List.filter_sublist
  constructor
  · intro q other atQ outside
    have shown : other ∈ s.records :=
      inOrder_perm.mem_iff.mp (List.mem_of_mem_filter (List.mem_of_getElem? atQ))
    exact lt_of_rank_lt kept atP atQ (ranks.ahead _ listed _ (List.mem_map_of_mem shown) outside)
  · intro q other atQ inside apart
    constructor
    · intro before
      rcases Nat.lt_trichotomy (c.groupKeys.idxOf (r.primaryGroup c.defaultGroup))
        (c.groupKeys.idxOf (other.primaryGroup c.defaultGroup)) with below | same | above
      · exact below
      · exact absurd ((List.idxOf_inj listed).mp same).symm apart
      · have after := lt_of_rank_lt kept atQ atP ((ranks.lt_iff _ inside _ listed).mpr above)
        omega
    · intro below
      exact lt_of_rank_lt kept atP atQ ((ranks.lt_iff _ listed _ inside).mpr below)

/-- Records that no comment and no poster puts into a group are in the default group and rank by its key,
which is one of the configured ones. -/
theorem finish_ranks_ungrouped (built : Config.build settings = .ok c)
    (prepared : prepare c [] none = .ok x) (actions : List Action) :
    let run := ((opened c x).perform actions).finish
    let origins := actions.flatMap (Action.origins x)
    c.defaultGroup ∈ c.groupKeys ∧ run.1.store.Placed ∧
      List.Forall₂ (fun o r => o.Ungrouped x → r.group = [c.defaultGroup]) origins run.1.store.records ∧
      ∀ rs, run.2 = .ok rs → ∀ p r, rs[p]? = some r →
        r ∈ run.1.store.records ∧ ∃ o, origins[r.uid.toNat]? = some o ∧
          (o.Ungrouped x → r.group = [c.defaultGroup] ∧ c.Ranks rs c.defaultGroup p) := by
  intro run origins
  have standard := isBuiltin_of_prepare prepared
  have configured := Config.built_of_build built
  obtain ⟨placed, records⟩ := records_finish standard actions
  have groups : List.Forall₂ (fun o r => o.Ungrouped x → r.group = [c.defaultGroup]) origins
      run.1.store.records := by
    refine records.imp ?_
    rintro o r ⟨r₀, yields, _, _, _, _, _, _, rfl⟩ ungrouped
    have group : r₀.group = [c.defaultGroup] := yields.group_of_ungrouped standard ungrouped
    exact group
  refine ⟨configured.listed, placed, groups, fun rs done p r atP => ?_⟩
  obtain ⟨_, _, _, typed, collected⟩ := endsIn_of_finish standard actions done
  have inside := mem_of_collect typed collected r (List.mem_of_getElem? atP)
  obtain ⟨i, atI⟩ := List.mem_iff_getElem?.mp inside
  have here : r.uid.toNat = i := by
    rw [placed i r atI, Int.toNat_natCast]
  obtain ⟨o, origin, grouped⟩ := getElem?_of_forall₂ groups atI
  refine ⟨inside, o, here ▸ origin, fun ungrouped => ⟨grouped ungrouped, ?_⟩⟩
  have primary : r.primaryGroup c.defaultGroup = c.defaultGroup := by
    rw [Record.primaryGroup, grouped ungrouped]
    exact configured.defaultGroup
  have listed : r.primaryGroup c.defaultGroup ∈ c.groupKeys := by
    rw [primary]
    exact configured.listed
  have ranks := ranks_of_collect typed collected atP listed
  rwa [primary] at ranks

/-- Settings with a default group that is the second of two groups, in other letters. -/
def zetaSettings : Assoc Scalar Data :=
  [(.text "groups", .map [(.text "Zeta", .text "Zeta"), (.text "Misc", .text "Rest")]),
    (.text "default_group", .text "MISC")]

def zeta : Config :=
  { Config.default with
    groups := [("undefined", .text "General"), ("Zeta", .text "Zeta"), ("Misc", .text "Rest")]
    defaultGroup := "misc" }

def zetaExtractor : Extractor :=
  { filling with registry := { Registry.builtin zeta with frozen := true }, defaultGroup := "misc" }

/-- A record without a group between two others, of which only the second group is configured. -/
def zetaActions : List Action :=
  [.call (.source "a.scss" "/// @group other\n$o: 1;\n/// Text\n$u: 1;\n/// @group zeta\n$z: 1;")]

theorem finish_ranks_ungrouped_zeta :
    Config.build zetaSettings = .ok zeta ∧ prepare zeta [] none = .ok zetaExtractor ∧
      ∃ rs p r, ((opened zeta zetaExtractor).perform zetaActions).finish.2 = .ok rs ∧
        rs[p]? = some r ∧ r.name = "u" ∧ zeta.Ranks rs "misc" p := by
  have built : Config.build zetaSettings = .ok zeta := rfl
  have prepared : prepare zeta [] none = .ok zetaExtractor := by
    rw [prepare, Registry.standard_nil]
    rfl
  have listed : accessLevels zeta.access = .ok ["public", "private"] :=
    accessLevels_texts ["public", "private"]
  have done := finish_total (isBuiltin_of_prepare prepared) rfl listed zetaActions
  have second : (((opened zeta zetaExtractor).perform zetaActions).finish.1.store.records[1]?.map
      fun r => (r.name, r.uid, r.accessLevel)) = some ("u", 1, "public") := by decide +kernel
  have ungrouped : ((zetaActions.flatMap (Action.origins zetaExtractor))[1]?.map fun o =>
      (o.block :: o.posters).findSome? zetaExtractor.groupOf?) = some none := by decide +kernel
  obtain ⟨r, atOne, same⟩ := Option.map_eq_some_iff.mp second
  obtain ⟨name, place, level⟩ : r.name = "u" ∧ r.uid = 1 ∧ r.accessLevel = "public" := by
    simpa using same
  have kept : ["public", "private"].contains r.accessLevel = true := by
    rw [level]
    rfl
  have member : r ∈ (inOrder zeta.groups.keys zeta.defaultGroup
      ((opened zeta zetaExtractor).perform zetaActions).finish.1.store.records).filter
        fun r => ["public", "private"].contains r.accessLevel :=
    List.mem_filter.mpr ⟨inOrder_perm.mem_iff.mpr (List.mem_of_getElem? atOne), kept⟩
  obtain ⟨p, atP⟩ := List.mem_iff_getElem?.mp member
  obtain ⟨_, _, _, each⟩ := finish_ranks_ungrouped built prepared zetaActions
  obtain ⟨_, o, origin, ranks⟩ := each _ done p r atP
  rw [place] at origin
  have origin : (zetaActions.flatMap (Action.origins zetaExtractor))[1]? = some o := origin
  rw [origin] at ungrouped
  exact ⟨built, prepared, _, p, r, done, atP, name, (ranks (Option.some.inj ungrouped)).2⟩

end Run

end SheetDoc
