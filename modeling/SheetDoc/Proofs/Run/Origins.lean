import SheetDoc.Proofs.Run.Ending

namespace SheetDoc

/-- A block of which a run keeps a record, with its file and the posters that stand there. -/
structure Origin where
  file : FileRef
  block : Block
  posters : List Block

/-- A record that a block comes to, with the posters of its file. -/
def Extractor.Yields (x : Extractor) (o : Origin) (r : Record) : Prop :=
  ∃ d ps, (x.extract o.block o.file).result = .ok (some d) ∧
    List.Forall₂ (fun b p => (x.extract b o.file).result = .ok (some p)) o.posters ps ∧
    x.Completes ps d r

namespace Call

/-- The blocks of a file, where the call succeeds. -/
def blocks (x : Extractor) (c : Call) : List Block :=
  if c.succeeds x then (c.text.toOption.map scanBlocks).getD [] else []

def posters (x : Extractor) (c : Call) : List Block := (c.blocks x).filter (·.poster)

def origins (x : Extractor) (c : Call) : List Origin :=
  ((c.blocks x).filter fun b => !b.poster && !x.skips b (.ofPath c.path)).map fun b =>
    ⟨.ofPath c.path, b, c.posters x⟩

end Call

namespace Action

def posters (x : Extractor) : Action → List Block
  | call c => c.posters x
  | fail _ _ => []

def origins (x : Extractor) : Action → List Origin
  | call c => c.origins x
  | fail _ _ => []

theorem poster_of_origins {x : Extractor} {action : Action} {o : Origin}
    (member : o ∈ action.origins x) : ∀ b ∈ o.posters, b.poster = true := by
  cases action with
  | fail path words => cases member
  | call c =>
    obtain ⟨b, _, rfl⟩ := List.mem_map.mp member
    exact fun b inside => List.of_mem_filter inside

/-- What a run takes in by an action. -/
def found? (x : Extractor) : Action → Option Extractor.FileRecords
  | call c => c.found? x
  | fail _ _ => none

end Action

namespace Call

variable {x : Extractor} {c : Call} {found : Extractor.FileRecords}

theorem blocks_of_failed {failure : Failure} (failed : c.parsed x = .error failure) :
    c.blocks x = [] := by
  have unsuccessful : c.succeeds x = false := by
    rw [succeeds, failed]
    rfl
  simp [blocks, unsuccessful]

theorem blocks_of_parsed {text : String} (read : c.text = .ok text) (parsed : c.parsed x = .ok found) :
    c.blocks x = scanBlocks text := by
  have successful : c.succeeds x = true := by
    rw [succeeds, parsed]
    rfl
  simp [blocks, successful, read, Except.toOption]

/-- The records of a file are those that its blocks come to. -/
theorem yields_of_parsed (parsed : c.parsed x = .ok found) :
    List.Forall₂ x.Yields (c.origins x) found.records ∧
      ∃ ps, List.Forall₂ (fun b p => (x.extract b (.ofPath c.path)).result = .ok (some p)) (c.posters x) ps ∧
        found.groupDescriptions = x.describedGroups ps := by
  obtain ⟨text, read, given⟩ := bind_eq_ok.mp parsed
  obtain ⟨ds, drafts, completed, described⟩ := Extractor.parseSource_ok given
  obtain ⟨posters, own⟩ := drafts.sides
  rw [origins, Call.posters, blocks_of_parsed read parsed]
  refine ⟨List.forall₂_map_left_iff.mpr ((forall₂_comp own completed).imp ?_), _, posters, described⟩
  rintro b r ⟨d, made, completes⟩
  exact ⟨d, _, made, posters, completes⟩

end Call

/-- A record with the place in a store that it has been given. -/
def Record.Stored (r r' : Record) : Prop := ∃ uid, r' = { r with uid := uid }

theorem Store.stored_numbered (start : Nat) (rs : List Record) :
    List.Forall₂ Record.Stored rs (numbered start rs) := by
  induction rs generalizing start with
  | nil => exact .nil
  | cons r rest ih => exact .cons ⟨_, rfl⟩ (ih (start + 1))

namespace Run

variable {run : Run} {c : Config} {x : Extractor}

theorem store_apply (keeps : x.KeepsTypes) (underway : run.Underway c x) (action : Action) :
    (action.apply run).store = (action.found? x).toList.foldl Store.absorb run.store := by
  cases action with
  | fail path words => rfl
  | call call =>
    obtain ⟨events, applied⟩ := apply_eq underway.isOpen (underway.extractor ▸ keeps) call
    rw [Action.apply, applied, outcome, underway.extractor, Action.found?, Call.found?]
    cases call.parsed x <;> rfl

/-- A run takes in what its files give, one after another. -/
theorem store_perform (keeps : x.KeepsTypes) (underway : run.Underway c x) (actions : List Action) :
    (run.perform actions).store = (actions.filterMap (·.found? x)).foldl Store.absorb run.store := by
  induction actions generalizing run with
  | nil => rfl
  | cons action rest ih =>
    rw [perform, List.foldl_cons]
    refine (ih (underway.apply keeps action)).trans ?_
    rw [store_apply keeps underway, List.filterMap_cons]
    cases action.found? x <;> rfl

end Run

namespace Action

variable {x : Extractor}

theorem of_found? {action : Action} {found : Extractor.FileRecords} (taken : action.found? x = some found) :
    ∃ c, action = .call c ∧ c.parsed x = .ok found := by
  cases action with
  | fail path words => cases taken
  | call c =>
    refine ⟨c, rfl, ?_⟩
    rw [found?, Call.found?] at taken
    cases parsed : c.parsed x <;> simp_all [Except.toOption]

theorem of_not_found? {action : Action} (none : action.found? x = none) :
    action.origins x = [] ∧ action.posters x = [] := by
  cases action with
  | fail path words => exact ⟨rfl, rfl⟩
  | call c =>
    rw [found?, Call.found?] at none
    cases parsed : c.parsed x with
    | ok found => simp [parsed, Except.toOption] at none
    | error failure => simp [origins, posters, Call.origins, Call.posters, Call.blocks_of_failed parsed]

/-- The records that actions add to a store, and where they come from. -/
theorem records_absorbed (keeps : x.KeepsTypes) (actions : List Action) (s : Store) :
    ∃ rs, ((actions.filterMap (·.found? x)).foldl Store.absorb s).records = s.records ++ rs ∧
      List.Forall₂ (fun o r => ∃ r₀, x.Yields o r₀ ∧ r₀.Stored r) (actions.flatMap (·.origins x)) rs := by
  induction actions generalizing s with
  | nil => exact ⟨[], (List.append_nil _).symm, .nil⟩
  | cons action rest ih =>
    rw [List.filterMap_cons, List.flatMap_cons]
    cases taken : action.found? x with
    | none =>
      rw [(of_not_found? taken).1]
      exact ih s
    | some found =>
      obtain ⟨c, rfl, parsed⟩ := of_found? taken
      obtain ⟨text, _, given⟩ := bind_eq_ok.mp parsed
      have typed := Extractor.typed_parseSource keeps given
      obtain ⟨rs, records, later⟩ := ih (s.absorb found)
      have here := forall₂_comp (Call.yields_of_parsed parsed).1
        (Store.stored_numbered s.size found.records)
      refine ⟨Store.numbered s.size found.records ++ rs, ?_, List.rel_append here later⟩
      rw [List.foldl_cons, records, Store.records_absorb typed, List.append_assoc]

end Action

/-- A record as a run ends with it, in its place, with its links and the description of its group. -/
def Record.Filed (r r' : Record) : Prop :=
  ∃ uid aliased usedBy requires sees words, r' = { r with
    uid := uid
    aliased := aliased
    usedBy := usedBy
    requires := requires
    sees := sees
    groupDescription := words }

namespace Run

variable {c : Config} {x : Extractor}

/-- The records of a run on the way are those that the blocks of its files come to. -/
theorem records_perform (keeps : x.KeepsTypes) (actions : List Action) :
    List.Forall₂ (fun o r => ∃ r₀, x.Yields o r₀ ∧ r₀.Stored r) (actions.flatMap (·.origins x))
      ((opened c x).perform actions).store.records := by
  have start : (opened c x).Underway c x := underway_perform keeps c []
  rw [store_perform keeps start]
  obtain ⟨rs, records, origins⟩ := Action.records_absorbed keeps actions (opened c x).store
  rw [records]
  exact origins

/-- However a run ends, its records are those that the blocks of its files come to. -/
theorem records_finish (standard : x.IsBuiltin c) (actions : List Action) :
    ((opened c x).perform actions).finish.1.store.Placed ∧
      List.Forall₂ (fun o r => ∃ r₀, x.Yields o r₀ ∧ r₀.Filed r) (actions.flatMap (·.origins x))
        ((opened c x).perform actions).finish.1.store.records := by
  have underway := underway_perform standard.keepsTypes c actions
  have fresh := fresh_perform standard actions
  have origins := records_perform (c := c) standard.keepsTypes actions
  by_cases calm : ((opened c x).perform actions).Calm
  · obtain ⟨l, ends⟩ := finish_endsIn standard underway fresh calm
    have linked := ends.linked.forall₂.imp fun _ _ both => both.2
    have described := ends.described.forall₂.imp fun _ _ both => both.2
    constructor
    · refine ends.described.placed (fun _ _ described => described.counterpart.2) ?_
      exact ends.linked.placed (fun _ _ linked => linked.unmoved.1.1.2) fresh.placed
    · refine (forall₂_comp (forall₂_comp origins linked) described).imp ?_
      rintro o _ ⟨_, ⟨_, ⟨r, yields, _, rfl⟩, _, _, rfl⟩, _, rfl⟩
      exact ⟨r, yields, _, _, _, _, _, _, rfl⟩
  · rw [(finish_of_not_calm underway.isOpen calm).1]
    refine ⟨fresh.placed, origins.imp ?_⟩
    rintro o _ ⟨r, yields, uid, rfl⟩
    exact ⟨r, yields, uid, r.aliased, r.usedBy, r.requires, r.sees, r.groupDescription, rfl⟩

end Run

end SheetDoc
