import SheetDoc.Proofs.Extraction.Names
import SheetDoc.Proofs.Run.Origins
import SheetDoc.Proofs.Run.Prepared

namespace SheetDoc

theorem Context.ofBlock_code (b : Block) :
    (ofBlock b).code = b.code ∧ (ofBlock b).lineStart = b.codeStart ∧
      (ofBlock b).lineEnd = b.codeEnd := by
  unfold ofBlock
  simp only
  split
  · exact ⟨rfl, rfl, rfl⟩
  · split
    · exact ⟨rfl, rfl, rfl⟩
    · split
      · exact ⟨rfl, rfl, rfl⟩
      · split
        · exact ⟨rfl, rfl, rfl⟩
        · split <;> exact ⟨rfl, rfl, rfl⟩

/-- Whether a block is documented: it is no poster, and its code declares something, unless whatever has a
comment is asked for. -/
def Block.documented (everything : Bool) (b : Block) : Bool :=
  !b.poster && (everything || (Context.ofBlock b).kind ≠ .unknown)

/-- The documented blocks of a file that could be added, with the file. -/
def Action.documented (x : Extractor) (c : Config) : Action → List (FileRef × Block)
  | call k => ((k.blocks x).filter (Block.documented c.includesUnknown)).map (.ofPath k.path, ·)
  | fail _ _ => []

/-- A record of the construct that a block documents, under the name of the code unless the comment gives
another one. -/
structure Record.Documents (x : Extractor) (d : FileRef × Block) (r : Record) : Prop where
  file : r.file = d.1
  kind : r.kind = (Context.ofBlock d.2).kind
  name : r.name = (x.nameOf? d.2).getD (Context.ofBlock d.2).name
  code : r.context.code = d.2.code
  lineStart : r.context.lineStart = d.2.codeStart
  lineEnd : r.context.lineEnd = d.2.codeEnd

theorem Record.Filed.documents {x : Extractor} {d : FileRef × Block} {r r' : Record}
    (filed : r.Filed r') (documents : r.Documents x d) : r'.Documents x d := by
  obtain ⟨_, _, _, _, _, _, rfl⟩ := filed
  exact ⟨documents.file, documents.kind, documents.name, documents.code, documents.lineStart,
    documents.lineEnd⟩

variable {x : Extractor} {c : Config}

theorem Extractor.Yields.documents {o : Origin} {r : Record} (standard : x.IsBuiltin c)
    (own : o.block.poster = false) (yields : x.Yields o r) : r.Documents x (o.file, o.block) := by
  obtain ⟨d, ps, done, made, completes⟩ := yields
  obtain ⟨file, context⟩ := completes_context standard made done completes
  have blank : (blank o.block o.file).context = Context.ofBlock o.block := by
    simp [Extractor.blank, own]
  obtain ⟨code, lineStart, lineEnd⟩ := Context.ofBlock_code o.block
  rw [blank] at context
  refine ⟨file, ?_, ?_, ?_, ?_, ?_⟩
  · rw [Record.kind, context]
  · rw [Record.name, context]
  · rw [context, ← code]
  · rw [context, ← lineStart]
  · rw [context, ← lineEnd]

/-- A block that is no poster is documented unless it is skipped. -/
theorem Block.documented_eq (unknown : x.includeUnknown = c.includesUnknown) (b : Block)
    (file : FileRef) : b.documented c.includesUnknown = (!b.poster && !x.skips b file) := by
  cases poster : b.poster with
  | true => simp [documented, poster]
  | false =>
    cases wanted : c.includesUnknown <;>
      simp [documented, Extractor.skips, Extractor.blank, poster, unknown, wanted, Bool.beq_eq_decide_eq]

namespace Action

/-- Records come from the documented blocks. -/
theorem map_origins (unknown : x.includeUnknown = c.includesUnknown) (action : Action) :
    (action.origins x).map (fun o => (o.file, o.block)) = action.documented x c := by
  cases action with
  | fail path words => rfl
  | call k =>
    have kept : ((k.blocks x).filter fun b => !b.poster && !x.skips b (.ofPath k.path)) =
        (k.blocks x).filter (Block.documented c.includesUnknown) :=
      List.filter_congr fun b _ => (b.documented_eq unknown _).symm
    rw [origins, Call.origins, kept, List.map_map]
    rfl

theorem own_of_origins {action : Action} {o : Origin} (member : o ∈ action.origins x) :
    o.block.poster = false := by
  cases action with
  | fail path words => cases member
  | call k =>
    obtain ⟨b, kept, rfl⟩ := List.mem_map.mp member
    have own := List.of_mem_filter kept
    simp only [Bool.and_eq_true, Bool.not_eq_true'] at own
    exact own.1

end Action

namespace Run

/-- What a run documents is neither lost nor doubled. However the run ends, its store holds one record for
each documented block, in order; a run that is not strict gives those of the listed access levels, each
once, and nothing only where the setting for access lists none. -/
theorem finish_collects (prepared : prepare c [] none = .ok x) (lenient : c.isStrict = false)
    (actions : List Action) :
    let run := ((opened c x).perform actions).finish
    run.1.store.Placed ∧
      List.Forall₂ (Record.Documents x) (actions.flatMap (Action.documented x c))
        run.1.store.records ∧
      match accessLevels c.access with
      | .ok levels => ∃ rs, run.2 = .ok rs ∧ (rs.map (·.uid)).Nodup ∧
          rs.Perm (run.1.store.records.filter fun r => levels.contains r.accessLevel)
      | .error fault => run.2 = .error (.misuse fault) := by
  intro run
  have standard := isBuiltin_of_prepare prepared
  obtain ⟨placed, records⟩ := records_finish standard actions
  obtain ⟨typed, given⟩ := finish_collect standard lenient actions
  refine ⟨placed, ?_, ?_⟩
  · have unknown := (settings_of_prepare prepared).1
    have documented : actions.flatMap (Action.documented x c) =
        (actions.flatMap (Action.origins x)).map fun o => (o.file, o.block) := by
      rw [List.map_flatMap]
      exact List.flatMap_congr fun action _ => (Action.map_origins unknown action).symm
    rw [documented, List.forall₂_map_left_iff]
    have own : ∀ o ∈ actions.flatMap (Action.origins x), o.block.poster = false := by
      intro o member
      obtain ⟨action, _, member⟩ := List.mem_flatMap.mp member
      exact Action.own_of_origins member
    refine ((List.forall₂_and_left _ _ ).mpr ⟨own, records⟩).imp ?_
    rintro o r ⟨own, r₀, yields, filed⟩
    exact filed.documents (yields.documents standard own)
  · cases listed : accessLevels c.access with
    | error fault => exact given.trans (collect_of_unlisted typed listed)
    | ok levels =>
      have perm : ((inOrder c.groups.keys c.defaultGroup run.1.store.records).filter
          fun r => levels.contains r.accessLevel).Perm
          (run.1.store.records.filter fun r => levels.contains r.accessLevel) := inOrder_perm.filter _
      refine ⟨_, finish_total standard lenient listed actions, ?_, perm⟩
      refine (perm.map (·.uid)).nodup_iff.mpr ?_
      exact placed.nodup_uids.sublist (List.filter_sublist.map _)

/-- Settings under which only public records are wanted. -/
def publicOnly : Config := { Config.default with access := .texts ["public"] }

def publicExtractor : Extractor :=
  { filling with registry := { Registry.builtin publicOnly with frozen := true } }

/-- Two files, the first with a poster, another name, a private variable and a comment over nothing, and
between them one that cannot be read. -/
def mixedActions : List Action :=
  [.call (.source "a.scss" "////\n/// @group forms\n////\n\n/// @name other\n$a: 1;\n\n/// @access private\n$b: 2;\n\n/// End"),
    .call (.file "broken.scss" [255]),
    .call (.source "c.scss" "/// Text\n$c: 3;")]

theorem finish_collects_mixed :
    let run := ((opened publicOnly publicExtractor).perform mixedActions).finish
    prepare publicOnly [] none = .ok publicExtractor ∧
      run.1.store.records.map (fun r => (r.name, r.context.code, r.accessLevel)) =
        [("other", "$a: 1;", "public"), ("b", "$b: 2;", "private"), ("c", "$c: 3;", "public")] ∧
      ∃ rs, run.2 = .ok rs ∧ (rs.map (·.name)).Perm ["other", "c"] := by
  intro run
  have prepared : prepare publicOnly [] none = .ok publicExtractor := by
    rw [prepare, Registry.standard_nil]
    rfl
  have listed : accessLevels publicOnly.access = .ok ["public"] := accessLevels_texts ["public"]
  have stored : run.1.store.records.map (fun r => (r.name, r.context.code, r.accessLevel)) =
      [("other", "$a: 1;", "public"), ("b", "$b: 2;", "private"), ("c", "$c: 3;", "public")] := by
    decide +kernel
  have wanted : (run.1.store.records.filter fun r => ["public"].contains r.accessLevel).map (·.name) =
      ["other", "c"] := by
    have kept := congrArg (fun l => (l.filter fun t => ["public"].contains t.2.2).map (·.1)) stored
    simpa [List.filter_map, Function.comp_def] using kept
  obtain ⟨_, _, collects⟩ := finish_collects prepared rfl mixedActions
  rw [listed] at collects
  obtain ⟨rs, done, _, perm⟩ := collects
  exact ⟨prepared, stored, rs, done, wanted ▸ perm.map (·.name)⟩

end Run

end SheetDoc
