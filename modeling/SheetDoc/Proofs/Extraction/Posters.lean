import SheetDoc.Proofs.Extraction.Draft

namespace SheetDoc

/-- A list without the entries that are the same as an earlier one; other values stay. -/
def Value.distinct : Value → Value
  | .list items => .list (items.eraseDupsBy Item.same)
  | v => v

theorem mergeNew_eq_loop {α : Type} (same : α → α → Bool) (new found : List α) :
    mergeNew same found.reverse new = List.eraseDupsBy.loop same new found := by
  induction new generalizing found with
  | nil => rfl
  | cons a rest ih =>
    rw [mergeNew, List.foldl_cons, List.any_reverse, List.eraseDupsBy.loop]
    cases found.any (same a) with
    | true => exact ih found
    | false => simpa [mergeNew] using ih (a :: found)

theorem mergeNew_nil {α : Type} (same : α → α → Bool) (new : List α) :
    mergeNew same [] new = new.eraseDupsBy same := mergeNew_eq_loop same new []

/-- What is merged into an empty field has its entries once. -/
theorem merged_empty {f : Field} {v : Value} (takes : f.takes v = true) :
    f.empty.merged v = v.distinct := by
  cases entry : f.entry? with
  | some own =>
    obtain ⟨items, rfl, _⟩ := Record.list_of_takes entry takes
    rw [Field.empty, entry]
    exact congrArg Value.list (mergeNew_nil Item.same items)
  | none =>
    simp only [Field.takes, entry] at takes
    rw [Field.empty, entry]
    rcases Record.option_cases takes with rfl | ⟨s, rfl⟩ | ⟨e, rfl⟩ <;> rfl

theorem Field.fits_distinct {f : Field} {v : Value} (fits : f.fits v) : f.fits v.distinct := by
  cases f
  case group =>
    obtain ⟨name, rfl⟩ := fits
    exact ⟨name, rfl⟩
  case access =>
    rcases fits with rfl | rfl
    · exact Or.inl rfl
    · exact Or.inr rfl
  all_goals trivial

/-- What is only said of a poster itself is never taken over. -/
theorem Tag.Shared.aloud {c : Config} {a : Tag} {f : Field} (shared : a.Shared c f) :
    Extractor.posterOnly.contains a.name = false := by
  by_contra spoken
  simp only [Extractor.posterOnly, List.contains_cons, List.contains_nil, Bool.or_false,
    Bool.not_eq_false, Bool.or_eq_true, beq_iff_eq] at spoken
  rcases spoken with same | same
  · have same : a = groupDescription :=
      Registry.eq_of_name shared.builtin (by simp [builtins]) same
    rw [same] at shared
    exact shared.shared (Option.some.inj shared.field).symm
  · have same : a = rename := Registry.eq_of_name shared.builtin rename_mem same
    rw [same] at shared
    cases shared.field

/-- A step that sets a tag and merges the value of a poster into its field. -/
structure Record.Adopts (a : Tag) (f : Field) (poster r r' : Record) : Prop where
  typed : r'.Typed
  kind : r'.kind = r.kind
  has : r'.has a.name = true
  own : ∃ current v, r.own f = .ok current ∧ poster.own f = .ok v ∧ r'.own f = .ok (current.merged v)

/-- What a step does to a tag and its field, by the poster that it takes them over from. -/
def Record.Follows (a : Tag) (f : Field) : Option Record → Record → Record → Prop
  | none => Record.Keeps a f
  | some poster => Record.Adopts a f poster

namespace Record

variable {a : Tag} {f : Field} {p r m r' : Record}

theorem Keeps.adopts (first : r.Keeps a f m) (second : p.Adopts a f m r') : p.Adopts a f r r' :=
  ⟨second.typed, second.kind.trans first.kind, second.has, first.own ▸ second.own⟩

theorem Adopts.keeps (first : p.Adopts a f r m) (second : m.Keeps a f r') : p.Adopts a f r r' :=
  ⟨second.typed, second.kind.trans first.kind, second.has.trans first.has, second.own ▸ first.own⟩

theorem Follows.typed {source : Option Record} (follows : Follows a f source r r') : r'.Typed := by
  cases source with
  | none => exact Keeps.typed follows
  | some poster => exact Adopts.typed follows

/-- Whether a tag may still be taken over from a poster. -/
def lacks (a : Tag) (r : Record) : Bool := !r.has a.name && a.allowsKind r.kind

theorem Keeps.lacks (keeps : r.Keeps a f r') : r'.lacks a = r.lacks a := by
  rw [Record.lacks, keeps.has, keeps.kind, Record.lacks]

theorem Adopts.lacks (adopts : p.Adopts a f r r') : r'.lacks a = false := by
  rw [Record.lacks, adopts.has]
  rfl

/-- Who speaks first, speaks alone: what is taken over once is not taken over again. -/
theorem Follows.trans {first second : Option Record}
    (here : Follows a f (if r.lacks a then first else none) r m)
    (there : Follows a f (if m.lacks a then second else none) m r') :
    Follows a f (if r.lacks a then first.or second else none) r r' := by
  cases open' : r.lacks a with
  | false =>
    rw [open', if_neg Bool.false_ne_true] at here
    rw [Keeps.lacks here, open'] at there
    exact Keeps.trans here there
  | true =>
    rw [open', if_pos rfl] at here
    cases first with
    | none =>
      rw [Keeps.lacks here, open', if_pos rfl] at there
      cases second with
      | none => exact Keeps.trans here there
      | some poster => exact Keeps.adopts here there
    | some poster =>
      rw [Adopts.lacks here] at there
      exact Adopts.keeps here there

end Record

namespace Extractor

variable {x : Extractor} {c : Config} {a : Tag} {f : Field} {p r r' : Record}

/-- The poster whose word counts for a tag that a comment leaves out: the first that sets the tag,
where the tag may stand. -/
def speaker (a : Tag) (posters : List Record) (r : Record) : Option Record :=
  if r.lacks a then posters.find? (·.has a.name) else none

theorem speaker_spec {posters : List Record} (speaks : speaker a posters r = some p) :
    p ∈ posters ∧ p.has a.name = true := by
  rw [speaker] at speaks
  split at speaks
  · exact ⟨List.mem_of_find?_eq_some speaks, List.find?_some (p := fun q : Record => q.has a.name) speaks⟩
  · cases speaks

theorem takeOver_self (standard : x.IsBuiltin c) (shared : a.Shared c f) (typed : r.Typed) :
    x.takeOver p r a.name =
      if r.lacks a then r.inherit f p >>= (addTag · a.name) else .ok r := by
  simp only [takeOver, standard.named a shared.builtin, bind, Except.bind, shared.field, shared.aloud,
    typed.sets, typed.readKind]
  rw [if_neg Bool.false_ne_true]
  by_cases set : r.has a.name = true
  · have lacks : r.lacks a = false := by simp [Record.lacks, set]
    rw [if_pos set, lacks]
    rfl
  · have lacks : r.lacks a = a.allowsKind r.kind := by simp [Record.lacks, set]
    rw [if_neg set, lacks]
    rfl

/-- A poster gives its value to a record that lacks the tag. -/
theorem takeOver_adopts (standard : x.IsBuiltin c) (shared : a.Shared c f) (typed : r.Typed)
    (source : p.Typed) (lacks : r.lacks a = true) (done : x.takeOver p r a.name = .ok r') :
    p.Adopts a f r r' := by
  rw [takeOver_self standard shared typed, lacks, if_pos rfl] at done
  obtain ⟨m, inherits, added⟩ := bind_eq_ok.mp done
  obtain ⟨wrote, current, v, holds, offered, merged⟩ :=
    Record.wrote_inherit typed source shared.merges inherits
  obtain ⟨tagged, has⟩ := Record.wrote_addTag wrote.typed added
  refine ⟨tagged.typed, tagged.kind.trans wrote.kind, by simp [has], current, v, holds, offered, ?_⟩
  rw [tagged.own shared.not_tags shared.stored, merged]

/-- What a poster says about another tag is not for this one. -/
theorem takeOver_keeps (standard : x.IsBuiltin c) (owns : a.Owns c f) (typed : r.Typed)
    (source : p.Typed) {b : Tag} (inside : b ∈ Tag.builtins c) (apart : b ≠ a)
    (done : x.takeOver p r b.name = .ok r') : r.Keeps a f r' := by
  rcases takeOver_ok done with rfl | ⟨b', f', m, found, field, _, _, inherits, added⟩
  · exact Record.Keeps.refl typed
  · cases (standard.named b inside).symm.trans found
    obtain ⟨merges, other⟩ := Tag.merges_builtins c b inside f' field
    obtain ⟨wrote, _⟩ := Record.wrote_inherit typed source merges inherits
    obtain ⟨tagged, has⟩ := Record.wrote_addTag wrote.typed added
    have place : b.place = f' := by rw [Tag.place, field, Option.getD_some]
    have elsewhere : f ≠ f' := place ▸ owns.ne_place inside apart
    refine ⟨tagged.typed, tagged.kind.trans wrote.kind, ?_, ?_⟩
    · rw [has, wrote.has other, decide_eq_false (owns.ne_name inside apart), Bool.or_false]
    · rw [tagged.own owns.not_tags owns.stored, wrote.own elsewhere owns.stored]

theorem takeOver_follows (standard : x.IsBuiltin c) (shared : a.Shared c f) (typed : r.Typed)
    (source : p.Typed) {name : String} (known : ∃ b ∈ Tag.builtins c, b.name = name)
    (done : x.takeOver p r name = .ok r') :
    Record.Follows a f (if r.lacks a then if name = a.name then some p else none else none) r r' := by
  obtain ⟨b, inside, rfl⟩ := known
  by_cases same : b = a
  · subst same
    rw [if_pos rfl]
    cases lacks : r.lacks b with
    | true => exact takeOver_adopts standard shared typed source lacks done
    | false =>
      rw [takeOver_self standard shared typed, lacks] at done
      cases done
      exact Record.Keeps.refl typed
  · rw [if_neg (shared.ne_name inside same).symm, ite_self]
    exact takeOver_keeps standard shared.toOwns typed source inside same done

theorem takeOverAll_follows (standard : x.IsBuiltin c) (shared : a.Shared c f) (typed : r.Typed)
    (source : p.Typed) {names : List String}
    (known : ∀ n ∈ names, ∃ b ∈ Tag.builtins c, b.name = n)
    (done : names.foldlM (x.takeOver p) r = .ok r') :
    Record.Follows a f
      (if r.lacks a then if names.contains a.name then some p else none else none) r r' := by
  induction names generalizing r with
  | nil =>
    cases done
    have nobody : (if r'.lacks a then (none : Option Record) else none) = none := ite_self none
    exact nobody.symm ▸ Record.Keeps.refl typed
  | cons name rest ih =>
    obtain ⟨here, later⟩ := List.forall_mem_cons.mp known
    obtain ⟨m, first, others⟩ := foldlM_cons_eq_ok.mp done
    have step := takeOver_follows standard shared typed source here first
    have follows := step.trans (ih step.typed later others)
    have split : (if (name :: rest).contains a.name then some p else none) =
        (if name = a.name then some p else none).or
          (if rest.contains a.name then some p else none) := by
      by_cases same : name = a.name
      · simp [same]
      · simp [same, Ne.symm same]
    rw [split]
    exact follows

theorem mergePosters_follows (standard : x.IsBuiltin c) (shared : a.Shared c f) (typed : r.Typed)
    {posters : List Record} (sources : ∀ p ∈ posters, p.Familiar c)
    (done : posters.foldlM (fun r p => x.mergePoster p r) r = .ok r') :
    Record.Follows a f (speaker a posters r) r r' := by
  unfold speaker
  induction posters generalizing r with
  | nil =>
    cases done
    have nobody : (if r'.lacks a then (none : Option Record) else none) = none := ite_self none
    exact nobody.symm ▸ Record.Keeps.refl typed
  | cons p rest ih =>
    obtain ⟨here, later⟩ := List.forall_mem_cons.mp sources
    obtain ⟨m, first, others⟩ := foldlM_cons_eq_ok.mp done
    have known : ∀ n ∈ p.tags, ∃ b ∈ Tag.builtins c, b.name = n :=
      fun n member => here.known n (List.contains_iff_mem.mpr member)
    have step := takeOverAll_follows standard shared typed here.typed known first
    have follows := step.trans (ih step.typed later others)
    have split : (p :: rest).find? (·.has a.name) =
        (if p.tags.contains a.name then some p else none).or (rest.find? (·.has a.name)) := by
      rw [List.find?_cons, Record.has]
      cases p.tags.contains a.name <;> rfl
    rw [split]
    exact follows

/-- What a record without the tag takes over is the value of the poster, with its entries once. -/
theorem adopts_distinct (plain : a.Plain c f) (empty : r.own f = .ok f.empty) (source : p.Stands c a f)
    (set : p.has a.name = true) (adopts : p.Adopts a f r r') :
    ∃ v, p.read f = .ok v ∧ f.fits v ∧ r'.read f = .ok v.distinct := by
  obtain ⟨current, v, before, offered, merged⟩ := adopts.own
  cases Except.ok.inj (before.symm.trans empty)
  obtain ⟨v', offered', takes⟩ := p.own_takes plain.merges
  cases Except.ok.inj (offered.symm.trans offered')
  obtain ⟨v', offered', fits⟩ := source.value
  cases Except.ok.inj (offered.symm.trans offered')
  rw [set, if_pos rfl] at fits
  rw [source.typed.read, adopts.typed.read, merged, merged_empty takes]
  exact ⟨v, offered, fits, rfl⟩

end Extractor

end SheetDoc
