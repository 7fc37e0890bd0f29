import SheetDoc.Proofs.Steps
import SheetDoc.Proofs.Record.Typed

namespace SheetDoc

/-- Whether a value can stand in a list field; other fields have no entries. -/
def Field.entry? : Field → Option (Item → Bool)
  | .group | .author | .todo | .type | .ignore | .throw | .aliasOf | .tags =>
    some (·.text?.isSome)
  | .since => some (·.since?.isSome)
  | .link => some (·.link?.isSome)
  | .see => some (·.see?.isSome)
  | .parameter => some (·.parameter?.isSome)
  | .property => some (·.property?.isSome)
  | .sample => some (·.sample?.isSome)
  | .aliased => some (·.reference?.isSome)
  | .require => some (·.require?.isSome)
  | .usedBy => some (·.usage?.isSome)
  | _ => none

/-- Whether a value can stand in a field of one value that may be missing. -/
def Field.option : Field → Value → Bool
  | .groupDescription, .data (.scalar (.text _)) | .access, .data (.scalar (.text _))
  | .deprecated, .data (.scalar (.text _)) | .content, .data (.scalar (.text _))
  | .output, .data (.scalar (.text _)) | .returns, .returns _ => true
  | .groupDescription, .data (.scalar .null) | .access, .data (.scalar .null)
  | .deprecated, .data (.scalar .null) | .content, .data (.scalar .null)
  | .output, .data (.scalar .null) | .returns, .data (.scalar .null) => true
  | _, _ => false

theorem Field.option_null {f : Field} {v : Value} (option : f.option v = true) :
    f.option .null = true := by
  unfold Field.option at option
  split at option <;> first | rfl | cases option

/-- Whether a value is of the type of a field that can be merged into. -/
def Field.takes (f : Field) (v : Value) : Bool :=
  match f.entry?, v with
  | some own, .list items => items.all own
  | some _, _ => false
  | none, v => f.option v

/-- Whether a field can be merged into. The others always hold something. -/
def Field.merges (f : Field) : Bool := f.entry?.isSome || f.option .null

theorem Field.merges_of_takes {f : Field} {v : Value} (takes : f.takes v = true) :
    f.merges = true := by
  unfold Field.takes at takes
  unfold Field.merges
  cases entry : f.entry? with
  | some own => rfl
  | none =>
    rw [entry] at takes
    simp [f.option_null takes]

/-- What a field holds when a value is merged into it. -/
def Value.merged : Value → Value → Value
  | .list items, .list new => .list (mergeNew Item.same items new)
  | .data (.scalar .null), v => v
  | current, _ => current

/-- A value that neither is a list nor is missing. -/
def Value.IsSolid (v : Value) : Prop := v ≠ .null ∧ ∀ items, v ≠ .list items

theorem forall_mem_mergeNew {α : Type} {same : α → α → Bool} {P : α → Prop} {current new : List α}
    (old : ∀ a ∈ current, P a) (more : ∀ a ∈ new, P a) : ∀ a ∈ mergeNew same current new, P a := by
  unfold mergeNew
  induction new generalizing current with
  | nil => exact old
  | cons b rest ih =>
    obtain ⟨first, rest⟩ := List.forall_mem_cons.mp more
    have grown : ∀ a ∈ current ++ [b], P a := by
      intro a member
      rcases List.mem_append.mp member with before | last
      · exact old a before
      · exact List.mem_singleton.mp last ▸ first
    rw [List.foldl_cons]
    by_cases known : current.any (same b) = true
    · rw [if_pos known]
      exact ih old rest
    · rw [if_neg known]
      exact ih grown rest

/-- What a field holds after a value is merged into it was there or is of the value. -/
theorem Value.mem_merged {current v : Value} {items : List Item}
    (merged : current.merged v = .list items) {i : Item} (member : i ∈ items) :
    (∃ own, current = .list own ∧ i ∈ own) ∨ ∃ more, v = .list more ∧ i ∈ more := by
  unfold Value.merged at merged
  split at merged
  · rename_i own more
    cases merged
    have each : ∀ a ∈ mergeNew Item.same own more, a ∈ own ∨ a ∈ more :=
      forall_mem_mergeNew (fun _ => Or.inl) fun _ => Or.inr
    exact (each i member).imp (⟨own, rfl, ·⟩) (⟨more, rfl, ·⟩)
  · exact Or.inr ⟨items, merged, member⟩
  · exact Or.inl ⟨items, merged, member⟩

namespace Record

/-- Every field but one holds what it held. What follows from fields is not looked at. -/
def AgreesOff (f : Field) (r r' : Record) : Prop :=
  ∀ f', f' ≠ f → (∀ name, f' ≠ .other name) → r'.own f' = r.own f'

theorem agreesOff_refl (f : Field) (r : Record) : AgreesOff f r r := fun _ _ _ => rfl

theorem Typed.settle_eq {r : Record} (typed : r.Typed) (f : Field) : r.settle f = r := by
  obtain ⟨⟩ := r
  simp only [Typed] at typed
  simp only [Record.settle, typed]
  rfl

theorem span_of_all {α : Type} {own? : Item → Option α} {item : α → Item}
    (faithful : ∀ i a, own? i = some a → item a = i) {items : List Item}
    (all : items.all fun i => (own? i).isSome) :
    ∃ found, Item.span own? items = (found, []) ∧ found.map item = items := by
  induction items with
  | nil => exact ⟨[], rfl, rfl⟩
  | cons i rest ih =>
    obtain ⟨first, rest⟩ := Bool.and_eq_true_iff.mp (List.all_cons ▸ all)
    obtain ⟨a, own⟩ := Option.isSome_iff_exists.mp first
    obtain ⟨found, spans, same⟩ := ih rest
    refine ⟨a :: found, ?_, ?_⟩
    · simp only [Item.span, own, spans]
    · rw [List.map_cons, faithful i a own, same]

/-- What every list field is like, by how a list of entries is put into it. -/
theorem assign_list {α : Type} {f : Field} {own? : Item → Option α} (item : α → Item)
    (put : List α → Record → Record) {r : Record} (before : r.Typed) {items : List Item}
    (all : items.all fun i => (own? i).isSome)
    (faithful : ∀ i a, own? i = some a → item a = i := by
      intro i a own; cases i <;> cases own; rfl)
    (assigns : ∀ items (r : Record),
      r.assign f (.list items) = .ok (setList f own? put items r) := by intros; rfl)
    (reads : ∀ l r, (put l r).own f = .ok (.list (l.map item)) := by intros; rfl)
    (strays : ∀ l r, (put l r).strays = r.strays := by intros; rfl)
    (frame : ∀ l r, AgreesOff f r (put l r) := by
      intro l r f' other _; cases f' <;> first | rfl | exact absurd rfl other) :
    ∃ r', r.assign f (.list items) = .ok r' ∧ r'.Typed ∧ r'.own f = .ok (.list items) ∧
      AgreesOff f r r' := by
  obtain ⟨found, spans, rfl⟩ := span_of_all faithful all
  have after : (put found r).Typed := (strays found r).trans before
  refine ⟨put found r, ?_, after, reads found r, frame found r⟩
  rw [assigns, setList, spans]
  exact congrArg Except.ok (after.settle_eq f)

/-- What every field of one value is like, by how the value is put into it. -/
theorem assign_one {f : Field} (put : Record → Record) {v : Value} {r : Record}
    (before : r.Typed)
    (assigns : r.assign f v = .ok ((put r).settle f) := by intros; rfl)
    (reads : (put r).own f = .ok v := by intros; rfl)
    (strays : (put r).strays = r.strays := by intros; rfl)
    (frame : AgreesOff f r (put r) := by
      intro f' other _; cases f' <;> first | rfl | exact absurd rfl other) :
    ∃ r', r.assign f v = .ok r' ∧ r'.Typed ∧ r'.own f = .ok v ∧ AgreesOff f r r' := by
  have after : (put r).Typed := strays.trans before
  refine ⟨put r, ?_, after, reads, frame⟩
  rw [assigns]
  exact congrArg Except.ok (after.settle_eq f)

theorem text_of_text? (i : Item) (s : String) (own : i.text? = some s) : Item.text s = i := by
  unfold Item.text? at own
  split at own <;> cases own
  rfl

theorem usage_of_usage? (i : Item) (u : Usage) (own : i.usage? = some u) : Item.ofUsage u = i := by
  unfold Item.usage? at own
  split at own
  · cases own
    rfl
  · split at own <;> cases own
    rename_i s same
    rw [same, Item.ofUsage]
  · cases own

theorem list_of_takes {f : Field} {v : Value} {own : Item → Bool} (entry : f.entry? = some own)
    (takes : f.takes v = true) : ∃ items, v = .list items ∧ items.all own = true := by
  unfold Field.takes at takes
  rw [entry] at takes
  cases v with
  | list items => exact ⟨items, rfl, takes⟩
  | _ => cases takes

/-- Entries of the type of a list field can be put into it, and nothing else changes. -/
theorem assign_entries {r : Record} (typed : r.Typed) {f : Field} {own : Item → Bool}
    (entry : f.entry? = some own) {items : List Item} (all : items.all own = true) :
    ∃ r', r.assign f (.list items) = .ok r' ∧ r'.Typed ∧ r'.own f = .ok (.list items) ∧
      AgreesOff f r r' := by
  cases f <;> cases entry
  case group =>
    exact assign_list .text (fun l r => { r with group := l }) typed all text_of_text?
  case author =>
    exact assign_list .text (fun l r => { r with authors := l }) typed all text_of_text?
  case todo =>
    exact assign_list .text (fun l r => { r with todos := l }) typed all text_of_text?
  case type =>
    exact assign_list .text (fun l r => { r with types := l }) typed all text_of_text?
  case ignore =>
    exact assign_list .text (fun l r => { r with ignored := l }) typed all text_of_text?
  case throw =>
    exact assign_list .text (fun l r => { r with throws := l }) typed all text_of_text?
  case aliasOf =>
    exact assign_list .text (fun l r => { r with aliases := l }) typed all text_of_text?
  case tags =>
    exact assign_list .text (fun l r => { r with tags := l }) typed all text_of_text?
  case since => exact assign_list .since (fun l r => { r with since := l }) typed all
  case link => exact assign_list .link (fun l r => { r with links := l }) typed all
  case see => exact assign_list .see (fun l r => { r with sees := l }) typed all
  case parameter => exact assign_list .parameter (fun l r => { r with parameters := l }) typed all
  case property => exact assign_list .property (fun l r => { r with properties := l }) typed all
  case sample => exact assign_list .sample (fun l r => { r with examples := l }) typed all
  case aliased => exact assign_list .reference (fun l r => { r with aliased := l }) typed all
  case require => exact assign_list .require (fun l r => { r with requires := l }) typed all
  case usedBy =>
    exact assign_list .ofUsage (fun l r => { r with usedBy := l }) typed all usage_of_usage?

/-- A value of the type of a field of one value can be put into it, and nothing else changes. -/
theorem assign_option {r : Record} (typed : r.Typed) {f : Field} {v : Value}
    (option : f.option v = true) :
    ∃ r', r.assign f v = .ok r' ∧ r'.Typed ∧ r'.own f = .ok v ∧ AgreesOff f r r' := by
  unfold Field.option at option
  split at option
  case h_1 s => exact assign_one (fun r => { r with groupDescription := some s }) typed
  case h_2 s => exact assign_one (fun r => { r with access := some s }) typed
  case h_3 s => exact assign_one (fun r => { r with deprecated := some s }) typed
  case h_4 s => exact assign_one (fun r => { r with content := some s }) typed
  case h_5 s => exact assign_one (fun r => { r with output := some s }) typed
  case h_6 e => exact assign_one (fun r => { r with returns := some e }) typed
  case h_7 => exact assign_one (fun r => { r with groupDescription := none }) typed
  case h_8 => exact assign_one (fun r => { r with access := none }) typed
  case h_9 => exact assign_one (fun r => { r with deprecated := none }) typed
  case h_10 => exact assign_one (fun r => { r with content := none }) typed
  case h_11 => exact assign_one (fun r => { r with output := none }) typed
  case h_12 => exact assign_one (fun r => { r with returns := none }) typed
  case h_13 => cases option

/-- A value of the type of a field can be put into it, and nothing else changes. -/
theorem assign_of_takes {r : Record} (typed : r.Typed) {f : Field} {v : Value}
    (takes : f.takes v = true) :
    ∃ r', r.assign f v = .ok r' ∧ r'.Typed ∧ r'.own f = .ok v ∧ AgreesOff f r r' := by
  cases entry : f.entry? with
  | some own =>
    obtain ⟨items, rfl, all⟩ := list_of_takes entry takes
    exact assign_entries typed entry all
  | none =>
    unfold Field.takes at takes
    rw [entry] at takes
    exact assign_option typed takes

theorem usage?_ofUsage (u : Usage) : (Item.ofUsage u).usage? = some u := by
  cases u <;> rfl

theorem own_entries (r : Record) {f : Field} {own : Item → Bool} (entry : f.entry? = some own) :
    ∃ items, r.own f = .ok (.list items) ∧ items.all own = true := by
  cases f <;> cases entry <;>
    exact ⟨_, rfl, by simp [Item.text?, Item.since?, Item.link?, Item.see?, Item.parameter?,
      Item.property?, Item.sample?, Item.reference?, Item.require?, usage?_ofUsage]⟩

theorem option_ofOption {f : Field} (missing : f.option .null = true)
    (text : ∀ s, f.option (.text s) = true) (o : Option String) :
    f.option (.ofOption o) = true := by
  cases o with
  | none => exact missing
  | some s => exact text s

theorem own_option (r : Record) {f : Field} (option : f.option .null = true) :
    ∃ v, r.own f = .ok v ∧ f.option v = true := by
  cases f
  case groupDescription => exact ⟨_, rfl, option_ofOption rfl (fun _ => rfl) r.groupDescription⟩
  case access => exact ⟨_, rfl, option_ofOption rfl (fun _ => rfl) r.access⟩
  case deprecated => exact ⟨_, rfl, option_ofOption rfl (fun _ => rfl) r.deprecated⟩
  case content => exact ⟨_, rfl, option_ofOption rfl (fun _ => rfl) r.content⟩
  case output => exact ⟨_, rfl, option_ofOption rfl (fun _ => rfl) r.output⟩
  case returns =>
    refine ⟨_, rfl, ?_⟩
    cases r.returns <;> rfl
  all_goals cases option

theorem option_cases {f : Field} {v : Value} (option : f.option v = true) :
    v = .null ∨ (∃ s, v = .text s) ∨ ∃ e, v = .returns e := by
  unfold Field.option at option
  split at option
  case h_6 e => exact Or.inr (Or.inr ⟨e, rfl⟩)
  case h_13 => cases option
  all_goals first | exact Or.inl rfl | exact Or.inr (Or.inl ⟨_, rfl⟩)

/-- A value of the type of a field is merged into it, and nothing else changes. -/
theorem fill_of_takes {r : Record} (typed : r.Typed) {f : Field} {v : Value}
    (takes : f.takes v = true) :
    ∃ current r', r.own f = .ok current ∧ r.fill f v = .ok r' ∧ r'.Typed ∧
      r'.own f = .ok (current.merged v) ∧ AgreesOff f r r' := by
  cases entry : f.entry? with
  | some own =>
    obtain ⟨new, rfl, all⟩ := list_of_takes entry takes
    obtain ⟨items, holds, before⟩ := r.own_entries entry
    have merged : (mergeNew Item.same items new).all own = true := by
      rw [List.all_eq_true] at *
      exact forall_mem_mergeNew before all
    obtain ⟨r', assigned, typed', reads, frame⟩ := assign_entries typed entry merged
    refine ⟨_, r', holds, ?_, typed', reads, frame⟩
    rw [fill, typed.read, holds]
    exact assigned
  | none =>
    unfold Field.takes at takes
    rw [entry] at takes
    obtain ⟨current, holds, option⟩ := r.own_option (f.option_null takes)
    obtain ⟨r', assigned, typed', reads, frame⟩ := assign_option typed takes
    rcases option_cases option with rfl | ⟨s, rfl⟩ | ⟨e, rfl⟩
    · refine ⟨_, r', holds, ?_, typed', reads, frame⟩
      rw [fill, typed.read, holds]
      exact assigned
    · refine ⟨_, r, holds, ?_, typed, holds, agreesOff_refl f r⟩
      rw [fill, typed.read, holds]
      rfl
    · refine ⟨_, r, holds, ?_, typed, holds, agreesOff_refl f r⟩
      rw [fill, typed.read, holds]
      rfl

theorem own_takes (r : Record) {f : Field} (merges : f.merges = true) :
    ∃ v, r.own f = .ok v ∧ f.takes v = true := by
  cases entry : f.entry? with
  | some own =>
    obtain ⟨items, holds, all⟩ := r.own_entries entry
    exact ⟨_, holds, by simpa only [Field.takes, entry] using all⟩
  | none =>
    have option : f.option .null = true := by simpa [Field.merges, entry] using merges
    obtain ⟨v, holds, option⟩ := r.own_option option
    exact ⟨v, holds, by simpa only [Field.takes, entry] using option⟩

/-- What carries nothing adds nothing. -/
theorem merged_of_void {f : Field} {current v : Value} (before : f.takes current = true)
    (takes : f.takes v = true) (void : v.isVoid = true) : current.merged v = current := by
  cases entry : f.entry? with
  | some own =>
    obtain ⟨items, rfl, _⟩ := list_of_takes entry before
    obtain ⟨new, rfl, _⟩ := list_of_takes entry takes
    cases new with
    | nil => rfl
    | cons => cases void
  | none =>
    simp only [Field.takes, entry] at before takes
    rcases option_cases takes with rfl | ⟨s, rfl⟩ | ⟨e, rfl⟩
    · rcases option_cases before with rfl | ⟨s, rfl⟩ | ⟨e, rfl⟩ <;> rfl
    · cases void
    · cases void

/-- A field is taken over from another record by merging its value, and nothing else changes. -/
theorem inherit_of_merges {r p : Record} (typed : r.Typed) (source : p.Typed) {f : Field}
    (merges : f.merges = true) :
    ∃ current v r', r.own f = .ok current ∧ p.own f = .ok v ∧ r.inherit f p = .ok r' ∧ r'.Typed ∧
      r'.own f = .ok (current.merged v) ∧ AgreesOff f r r' := by
  obtain ⟨v, offered, takes⟩ := p.own_takes merges
  obtain ⟨current, r', holds, filled, typed', reads, frame⟩ := fill_of_takes typed takes
  by_cases void : v.isVoid = true
  · obtain ⟨held, holds', before⟩ := r.own_takes merges
    cases Except.ok.inj (holds.symm.trans holds')
    refine ⟨current, v, r, holds, offered, ?_, typed, ?_, agreesOff_refl f r⟩
    · rw [inherit, source.read, offered]
      exact if_pos void
    · rw [merged_of_void before takes void, holds]
  · refine ⟨current, v, r', holds, offered, ?_, typed', reads, frame⟩
    rw [inherit, source.read, offered]
    exact (if_neg void).trans filled

theorem solid_of_not_merges {r : Record} (typed : r.Typed) {f : Field} (other : f.merges = false)
    {v : Value} (holds : r.own f = .ok v) : v.IsSolid := by
  cases f
  case other name =>
    simp only [own, readOther] at holds
    split at holds
    · obtain ⟨s, _, holds⟩ := bind_eq_ok.mp holds
      cases holds
      exact ⟨nofun, nofun⟩
    · split at holds
      · obtain ⟨kind, _, holds⟩ := bind_eq_ok.mp holds
        cases holds
        exact ⟨nofun, nofun⟩
      · split at holds
        · obtain ⟨context, _, holds⟩ := bind_eq_ok.mp holds
          cases holds
          rw [lineValue, typed.strayValue?]
          cases r.context.lineStart <;> exact ⟨nofun, nofun⟩
        · split at holds
          · cases holds
            exact ⟨nofun, nofun⟩
          · cases holds
  case context | file | description | commentLine | uid | unknown | extra =>
    cases holds
    exact ⟨nofun, nofun⟩
  all_goals cases other

theorem fill_of_solid {r r' : Record} (typed : r.Typed) {f : Field} {current v : Value}
    (holds : r.own f = .ok current) (solid : current.IsSolid) (filled : r.fill f v = .ok r') :
    r' = r := by
  rw [fill, typed.read, holds, bind_eq_ok] at filled
  obtain ⟨held, same, filled⟩ := filled
  cases same
  split at filled
  · exact absurd rfl (solid.2 _)
  · exact absurd rfl solid.1
  · exact (Except.ok.inj filled).symm

/-- Other fields always hold something, so nothing is taken over into them. -/
theorem inherit_of_not_merges {r p r' : Record} (typed : r.Typed) {f : Field}
    (other : f.merges = false) (done : r.inherit f p = .ok r') : r' = r := by
  obtain ⟨v, _, done⟩ := bind_eq_ok.mp done
  split at done
  · exact (Except.ok.inj done).symm
  · obtain ⟨current, holds, _⟩ := bind_eq_ok.mp done
    rw [typed.read] at holds
    exact fill_of_solid typed holds (solid_of_not_merges typed other holds) done

end Record

end SheetDoc
