import SheetDoc.Proofs.Extraction.Precedence
import SheetDoc.Proofs.Extraction.Totality

namespace SheetDoc

/-- A parser takes a value on every typed record or on none. -/
def TakesAlike (parse : String → Record → Except Failure Record) : Prop :=
  ∀ raw r r', r.Typed → r'.Typed → (∃ m, parse raw r = .ok m) → ∃ m, parse raw r' = .ok m

theorem takesAlike_storing {α : Type} {read : String → Except TagFault α}
    {put : α → Record → Except Misuse Record} (takes : ∀ v r, r.Typed → ∃ r', put v r = .ok r') :
    TakesAlike (storing read put) := by
  rintro raw r r' _ typed ⟨m, done⟩
  obtain ⟨v, given, _⟩ := storing_ok done
  obtain ⟨m', puts⟩ := takes v r' typed
  exact ⟨m', by simp only [storing, given, puts, Except.mapError]⟩

theorem takesAlike_setting {α : Type} {read : String → Except TagFault α} {f : Field}
    (put : α → Record → Record) : TakesAlike (storing read (setting f put)) :=
  takesAlike_storing fun _ _ _ => ⟨_, rfl⟩

namespace Tag

variable {c : Config} {a : Tag} {raw : String} {r r' : Record}

theorem takesAlike_access (text : c.HasTextPrefix) :
    TakesAlike fun raw r => do
      let level ← accessLevel c.privatePrefix raw r
      return ({ r with access := some level }).settle .access := by
  rintro raw r r' _ typed ⟨m, done⟩
  obtain ⟨hidden, found⟩ := isPrivateName_total text typed
  obtain ⟨level, told, _⟩ := bind_eq_ok.mp done
  simp only [accessLevel, found]
  simp only [accessLevel] at told
  split_ifs at told ⊢
  · exact ⟨_, rfl⟩
  · exact ⟨_, rfl⟩

/-- The tag takes a value on a record. -/
def Takes (a : Tag) (raw : String) (r : Record) : Prop :=
  ∃ step m, a.parse = some step ∧ step raw r = .ok m

/-- What the tag takes does not depend on the record. -/
def Alike (a : Tag) : Prop := ∀ step, a.parse = some step → TakesAlike step

theorem alike_of {step : String → Record → Except Failure Record} (parses : a.parse = some step)
    (alike : TakesAlike step) : a.Alike := by
  intro step' parses'
  cases Option.some.inj (parses.symm.trans parses')
  exact alike

theorem alike_rename : rename.Alike := by
  refine alike_of rfl (takesAlike_storing fun name r typed => ?_)
  simp only [typed.contextFor]
  exact ⟨_, rfl⟩

theorem alike_builtins (text : c.HasTextPrefix) : ∀ a ∈ builtins c, a.multiple = false → a.Alike := by
  unfold builtins
  simp only [List.forall_mem_cons]
  refine ⟨?access, ?aliasOf, ?author, ?content, ?deprecated, ?sample, ?group, ?groupDescription,
    ?ignore, ?link, fun _ => alike_rename, ?output, ?parameter, ?property, ?require, ?returns, ?see,
    ?since, ?throw, ?todo, ?type, List.forall_mem_nil _⟩
  case access => exact fun _ => alike_of rfl (takesAlike_access text)
  case content | deprecated | group | groupDescription | output | returns | type =>
    exact fun _ => alike_of rfl (takesAlike_setting _)
  all_goals
    intro once
    cases once

theorem parses_builtins (c : Config) : ∀ a ∈ builtins c, ∃ step, a.parse = some step := by
  have parsing : (builtins c).all (·.parse.isSome) = true := rfl
  intro a member
  exact Option.isSome_iff_exists.mp (List.all_eq_true.mp parsing a member)

/-- What a tag that stands once takes does not depend on the record. -/
theorem Takes.anywhere (text : c.HasTextPrefix) (member : a ∈ builtins c) (once : a.multiple = false)
    (typed : r.Typed) (typed' : r'.Typed) (takes : a.Takes raw r) : a.Takes raw r' := by
  obtain ⟨step, m, parses, taken⟩ := takes
  obtain ⟨m', taken'⟩ :=
    alike_builtins text a member once step parses raw r r' typed typed' ⟨m, taken⟩
  exact ⟨step, m', parses, taken'⟩

end Tag

namespace Extractor

/-- An item of a comment on its turn: the record that it is applied to, what is said about it, and the
record that it leaves. -/
structure Turn where
  item : Tagged
  before : Record
  events : List Event
  after : Record

namespace Turn

/-- The word of the item means the tag. -/
def Means (x : Extractor) (a : Tag) (t : Turn) : Prop := x.registry.get? t.item.tag = .ok (some a)

/-- The item means the tag, which may stand on the record and takes the value. -/
def Speaks (x : Extractor) (a : Tag) (r : Record) (t : Turn) : Prop :=
  t.Means x a ∧ a.allowsKind r.kind = true ∧ a.Takes t.item.raw r

/-- The item is warned of and leaves no trace. -/
def Refused (start : Int) (message : String) (t : Turn) : Prop :=
  t.events = [refusal t.before (start + t.item.offset) message] ∧ t.after = t.before

/-- The value of the item is put on the record, and the tag is noted. -/
def Applied (a : Tag) (t : Turn) : Prop :=
  t.events = [] ∧ ∃ step m, a.parse = some step ∧ step t.item.raw t.before = .ok m ∧
    mark m a.name = .ok t.after

theorem Refused.not_applied {start : Int} {message : String} {a : Tag} {t : Turn}
    (refused : t.Refused start message) : ¬t.Applied a := by
  rintro ⟨silent, _⟩
  cases refused.1.symm.trans silent

end Turn

/-- The turns of items on a record, up to the record that they make. -/
inductive Turns (x : Extractor) (start : Int) : Record → List Turn → Record → Prop
  | done {r} : Turns x start r [] r
  | next {r t turns r'} : t.before = r →
      x.applyTag false (start + t.item.offset) t.before t.item = ⟨t.events, .ok t.after⟩ →
      Turns x start t.after turns r' → Turns x start r (t :: turns) r'

variable {x : Extractor} {c : Config} {start : Int} {a : Tag} {r r' : Record} {t : Turn}
  {turns front rest : List Turn}

theorem Turns.split (turned : x.Turns start r (front ++ t :: rest) r') :
    x.Turns start r front t.before ∧
      x.applyTag false (start + t.item.offset) t.before t.item = ⟨t.events, .ok t.after⟩ := by
  induction front generalizing r with
  | nil =>
    cases turned with
    | next same applied _ => exact ⟨same ▸ .done, applied⟩
  | cons u front ih =>
    cases turned with
    | next same applied later =>
      obtain ⟨reached, here⟩ := ih later
      exact ⟨.next same applied reached, here⟩

/-- To apply items is to give each of them its turn. -/
theorem Turns.applyTags (turned : x.Turns start r turns r') :
    x.applyTags false start r (turns.map (·.item)) = ⟨turns.flatMap (·.events), .ok r'⟩ := by
  induction turned with
  | done => rfl
  | next same applied _ ih =>
    subst same
    rw [Extractor.applyTags] at ih
    rw [Extractor.applyTags, List.map_cons, Report.foldl, applied]
    simp only [Report.andThen, ih, List.flatMap_cons]

/-- Refused items leave no trace: without them the others make the same record, in silence. -/
theorem Turns.quiet (turned : x.Turns start r turns r')
    (traceless : ∀ t ∈ turns, t.events ≠ [] → t.after = t.before) :
    x.applyTags false start r ((turns.filter (·.events.isEmpty)).map (·.item)) = .done r' := by
  induction turned with
  | done => rfl
  | @next r t turns r' same applied _ ih =>
    subst same
    obtain ⟨here, later⟩ := List.forall_mem_cons.mp traceless
    rw [Extractor.applyTags] at ih ⊢
    by_cases silent : t.events = []
    · rw [List.filter_cons_of_pos (by simpa using silent), List.map_cons, Report.foldl, applied, silent]
      simp only [Report.andThen, ih later]
      rfl
    · rw [List.filter_cons_of_neg (by simpa using silent), ← here silent]
      exact ih later

/-- An item is warned of, and then the record stays, or nothing is said. -/
theorem events_applyTag (typed : r.Typed) (poster : Bool) (line : Int) (item : Tagged) :
    (x.applyTag poster line r item).events = [] ∨
      ∃ message, x.applyTag poster line r item = .tell (refusal r line message) r := by
  cases found : x.registry.get? item.tag with
  | error fault => exact Or.inl (by simp only [applyTag, found]; rfl)
  | ok entry =>
    cases entry with
    | none =>
      refine Or.inl ?_
      simp only [applyTag, found]
      split <;> rfl
    | some a =>
      cases parses : a.parse with
      | none => exact Or.inl (by simp only [applyTag, found, parses]; rfl)
      | some parse =>
        rw [applyTag_of_typed found parses poster line typed]
        split_ifs
        · exact Or.inr ⟨_, rfl⟩
        · exact Or.inr ⟨_, rfl⟩
        · split
          · exact Or.inl rfl
          · exact Or.inr ⟨_, rfl⟩
          · exact Or.inl rfl

theorem kind_applyTag (standard : x.IsBuiltin c) (typed : r.Typed) {poster : Bool} {line : Int}
    {item : Tagged} (done : (x.applyTag poster line r item).result = .ok r') : r'.kind = r.kind := by
  rcases applyTag_ok done with rfl | kept | ⟨a, step, m, found, _, parses, parsed, marked⟩
  · rfl
  · exact (wrote_keepUnknown typed kept).kind
  · have member : a ∈ Tag.builtins c := standard.listed ▸ Registry.mem_of_get? found
    have wrote := (Tag.confined_builtins c a member).parse step parses _ r m typed parsed
    exact (Record.wrote_mark wrote.typed marked).1.kind.trans wrote.kind

/-- An item of a builtin tag is refused where the tag may not stand, and then where it stands once and
is set; any other is applied if its value can be read. -/
theorem turn_of_means (text : c.HasTextPrefix) (member : a ∈ Tag.builtins c) (once : a.multiple = false)
    (typed : t.before.Typed) (means : t.Means x a)
    (applied : x.applyTag false (start + t.item.offset) t.before t.item = ⟨t.events, .ok t.after⟩) :
    if a.allowsKind t.before.kind = false then t.Refused start (notAllowed a.name t.before.kind)
    else if t.before.has a.name = true then t.Refused start (onlyOnce a.name)
    else (a.Takes t.item.raw t.before ∧ t.Applied a) ∨
      ¬a.Takes t.item.raw t.before ∧ ∃ fault : TagFault, t.Refused start fault.message := by
  have refused : ∀ message, Report.tell (refusal t.before (start + t.item.offset) message) t.before =
      ⟨t.events, .ok t.after⟩ → t.Refused start message := by
    intro message told
    exact ⟨(congrArg Report.events told).symm, (Except.ok.inj (congrArg Report.result told)).symm⟩
  obtain ⟨step, parses⟩ := Tag.parses_builtins c a member
  rw [applyTag_of_typed means parses false _ typed, once] at applied
  cases allowed : a.allowsKind t.before.kind with
  | false =>
    rw [if_pos rfl]
    exact refused _ (by simpa [allowed] using applied)
  | true =>
    rw [if_neg Bool.noConfusion]
    cases set : t.before.has a.name with
    | true =>
      rw [if_pos rfl]
      exact refused _ (by simpa [allowed, set] using applied)
    | false =>
      rw [if_neg Bool.noConfusion]
      simp only [allowed, set, Bool.not_true, Bool.and_false, Bool.false_eq_true, if_false] at applied
      rcases (Tag.answering_builtins text a member).parse step parses t.item.raw t.before typed with
        ⟨m, taken⟩ | ⟨fault, faulty⟩
      · simp only [taken] at applied
        refine Or.inl ⟨⟨step, m, parses, taken⟩, (congrArg Report.events applied).symm, step, m, parses,
          taken, ?_⟩
        exact mapError_eq_ok.mp (congrArg Report.result applied)
      · simp only [faulty] at applied
        refine Or.inr ⟨?_, fault, refused _ applied⟩
        rintro ⟨step', m, parses', taken⟩
        cases Option.some.inj (parses.symm.trans parses')
        cases faulty.symm.trans taken

section

variable (standard : x.IsBuiltin c) (text : c.HasTextPrefix)

include standard

theorem Turns.keeps (turned : x.Turns start r turns r') (typed : r.Typed) :
    r'.Typed ∧ r'.kind = r.kind := by
  induction turned with
  | done => exact ⟨typed, rfl⟩
  | @next r t turns r' same applied _ ih =>
    subst same
    have done : (x.applyTag false (start + t.item.offset) t.before t.item).result = .ok t.after := by
      rw [applied]
    obtain ⟨typed', kind⟩ := ih (typed_applyTag standard.keepsTypes.registered typed done)
    exact ⟨typed', kind.trans (kind_applyTag standard typed done)⟩

include text

/-- Every item has its turn on a typed record. -/
theorem exists_turns (start : Int) (typed : r.Typed) (items : List Tagged) :
    ∃ turns r', x.Turns start r turns r' ∧ turns.map (·.item) = items := by
  induction items generalizing r with
  | nil => exact ⟨[], r, .done, rfl⟩
  | cons item rest ih =>
    obtain ⟨m, done⟩ := applyTag_total standard text false (start + item.offset) typed item
    obtain ⟨turns, r', turned, items⟩ :=
      ih (typed_applyTag standard.keepsTypes.registered typed done)
    refine ⟨⟨item, r, (x.applyTag false (start + item.offset) r item).events, m⟩ :: turns, r',
      .next rfl ?_ turned, congrArg (item :: ·) items⟩
    rw [← done]

/-- A tag that stands once is set from the first turn on that takes its value. -/
theorem has_after (member : a ∈ Tag.builtins c) (once : a.multiple = false) (typed : t.before.Typed)
    (applied : x.applyTag false (start + t.item.offset) t.before t.item = ⟨t.events, .ok t.after⟩) :
    t.after.has a.name = true ↔ t.before.has a.name = true ∨
      t.Means x a ∧ a.allowsKind t.before.kind = true ∧ a.Takes t.item.raw t.before := by
  have done : (x.applyTag false (start + t.item.offset) t.before t.item).result = .ok t.after := by
    rw [applied]
  by_cases means : t.Means x a
  · have fares := turn_of_means text member once typed means applied
    split_ifs at fares with barred set
    · rw [fares.2]
      simp [barred]
    · rw [fares.2]
      simp [set]
    · rcases fares with ⟨takes, _, step, m, parses, parsed, marked⟩ | ⟨refuses, _, _, same⟩
      · have wrote := (Tag.confined_builtins c a member).parse step parses _ _ m typed parsed
        have has := (Record.wrote_mark wrote.typed marked).2 a.name
        rw [has, decide_eq_true rfl, Bool.or_true]
        simp [means, takes, barred]
      · rw [same]
        simp [refuses]
  · have owns : a.Owns c a.place := ⟨member, rfl⟩
    rcases applyTag_keeps standard owns typed done with keeps | ⟨_, _, found, _⟩
    · rw [keeps.has]
      simp [means]
    · exact absurd found means

theorem Turns.has_iff (turned : x.Turns start r turns r') (member : a ∈ Tag.builtins c)
    (once : a.multiple = false) (typed : r.Typed) :
    r'.has a.name = true ↔ r.has a.name = true ∨ ∃ t ∈ turns, t.Speaks x a r := by
  induction turned with
  | done => simp
  | @next r t turns r' same applied _ ih =>
    subst same
    have done : (x.applyTag false (start + t.item.offset) t.before t.item).result = .ok t.after := by
      rw [applied]
    have typed' := typed_applyTag standard.keepsTypes.registered typed done
    have kind := kind_applyTag standard typed done
    have alike : ∀ u : Turn, u.Speaks x a t.after ↔ u.Speaks x a t.before := by
      intro u
      rw [Turn.Speaks, Turn.Speaks, kind]
      exact and_congr_right fun _ => and_congr_right fun _ =>
        ⟨.anywhere text member once typed' typed, .anywhere text member once typed typed'⟩
    rw [ih typed', has_after standard text member once typed applied, List.exists_mem_cons_iff, or_assoc]
    simp only [alike]
    rfl

/-- An item of a tag that stands once on its turn, told by the items before it. -/
theorem Turns.fares (turned : x.Turns start r turns r') (member : a ∈ Tag.builtins c)
    (once : a.multiple = false) (typed : r.Typed) (split : turns = front ++ t :: rest)
    (means : t.Means x a) :
    t.before.Typed ∧ (t.before.has a.name = true ↔ r.has a.name = true ∨ ∃ u ∈ front, u.Speaks x a r) ∧
      if a.allowsKind r.kind = false then t.Refused start (notAllowed a.name r.kind)
      else if t.before.has a.name = true then t.Refused start (onlyOnce a.name)
      else (a.Takes t.item.raw t.before ∧ t.Applied a) ∨
        ¬a.Takes t.item.raw t.before ∧ ∃ fault : TagFault, t.Refused start fault.message := by
  rw [split] at turned
  obtain ⟨reached, applied⟩ := turned.split
  obtain ⟨typed', kind⟩ := reached.keeps standard typed
  refine ⟨typed', reached.has_iff standard text member once typed, ?_⟩
  have fares := turn_of_means text member once typed' means applied
  rwa [kind] at fares

/-- How the items of a tag that stands once fare: those that may not stand on the record are refused, and
of the others the first that the tag takes is applied, if the record has not set the tag before. -/
structure StandsOnce (x : Extractor) (start : Int) (r : Record) (a : Tag) (turns : List Turn) :
    Prop where
  barred : a.allowsKind r.kind = false → ∀ t ∈ turns, t.Means x a →
    t.Refused start (notAllowed a.name r.kind)
  first : r.has a.name = false → ∀ front t rest, turns = front ++ t :: rest →
    (∀ u ∈ front, ¬u.Speaks x a r) → t.Speaks x a r → t.Applied a
  unread : a.allowsKind r.kind = true → r.has a.name = false →
    ∀ front t rest, turns = front ++ t :: rest → (∀ u ∈ front, ¬u.Speaks x a r) → t.Means x a →
      ¬a.Takes t.item.raw r → ∃ fault : TagFault, t.Refused start fault.message
  later : a.allowsKind r.kind = true → ∀ front t rest, turns = front ++ t :: rest →
    (r.has a.name = true ∨ ∃ u ∈ front, u.Speaks x a r) → t.Means x a →
      t.Refused start (onlyOnce a.name)
  single : ∀ front t rest, turns = front ++ t :: rest → t.Means x a → t.Applied a →
    ∀ u ∈ front, u.Means x a → ¬u.Applied a

theorem Turns.standsOnce (turned : x.Turns start r turns r') (member : a ∈ Tag.builtins c)
    (once : a.multiple = false) (typed : r.Typed) : x.StandsOnce start r a turns := by
  have fares := fun front t rest (split : turns = front ++ t :: rest) (means : t.Means x a) =>
    turned.fares standard text member once typed split means
  have again : a.allowsKind r.kind = true → ∀ front t rest, turns = front ++ t :: rest →
      (r.has a.name = true ∨ ∃ u ∈ front, u.Speaks x a r) → t.Means x a →
        t.Refused start (onlyOnce a.name) := by
    intro allowed front t rest split before means
    obtain ⟨_, set, turn⟩ := fares front t rest split means
    rwa [allowed, if_neg Bool.noConfusion, if_pos (set.mpr before)] at turn
  have fresh : a.allowsKind r.kind = true → r.has a.name = false →
      ∀ front t rest, turns = front ++ t :: rest → (∀ u ∈ front, ¬u.Speaks x a r) → t.Means x a →
        (a.Takes t.item.raw r ∧ t.Applied a) ∨
          ¬a.Takes t.item.raw r ∧ ∃ fault : TagFault, t.Refused start fault.message := by
    intro allowed unset front t rest split silent means
    obtain ⟨typed', set, turn⟩ := fares front t rest split means
    have free : ¬t.before.has a.name = true := by
      rw [set, unset]
      simpa using silent
    rw [allowed, if_neg Bool.noConfusion, if_neg free] at turn
    refine turn.imp (.imp_left (.anywhere text member once typed' typed)) (.imp_left ?_)
    exact fun refuses takes => refuses (takes.anywhere text member once typed typed')
  refine ⟨?_, ?_, ?_, again, ?_⟩
  · intro barred t inside means
    obtain ⟨front, rest, split⟩ := List.append_of_mem inside
    obtain ⟨_, _, turn⟩ := fares front t rest split means
    rwa [if_pos barred] at turn
  · rintro unset front t rest split silent ⟨means, allowed, takes⟩
    rcases fresh allowed unset front t rest split silent means with ⟨_, applied⟩ | ⟨refuses, _⟩
    · exact applied
    · exact absurd takes refuses
  · intro allowed unset front t rest split silent means refuses
    rcases fresh allowed unset front t rest split silent means with ⟨takes, _⟩ | ⟨_, faulty⟩
    · exact absurd takes refuses
    · exact faulty
  · rintro front t rest split means applied u inside meansU ⟨silent, step, m, parses, taken, marked⟩
    obtain ⟨front', rest', here⟩ := List.append_of_mem inside
    obtain ⟨typed', _, turn⟩ := fares front' u (rest' ++ t :: rest) (by simp [split, here]) meansU
    -- an item that was applied has a value that the tag takes, so those behind it are refused
    have takes : a.Takes u.item.raw r :=
      .anywhere text member once typed' typed ⟨step, m, parses, taken⟩
    cases allowed : a.allowsKind r.kind with
    | false =>
      rw [if_pos allowed] at turn
      exact turn.not_applied ⟨silent, step, m, parses, taken, marked⟩
    | true =>
      have speaks : u.Speaks x a r := ⟨meansU, allowed, takes⟩
      exact (again allowed front t rest split (Or.inr ⟨u, inside, speaks⟩) means).not_applied applied

end

/-- An item that is refused leaves no trace but its one warning: without the refused items the others
make the same record, in silence. Of a tag that stands once no more than one item is applied. -/
theorem applyTags_turns {g : Registry} {frozen : Bool} (standard : Registry.standard c [] = .ok g)
    (made : make { g with frozen := frozen } c = .ok x) (text : c.HasTextPrefix) (start : Int)
    (typed : r.Typed) (items : List Tagged) :
    ∃ turns r', x.Turns start r turns r' ∧ turns.map (·.item) = items ∧
      x.applyTags false start r items = ⟨turns.flatMap (·.events), .ok r'⟩ ∧
      (∀ t ∈ turns, t.events = [] ∨ ∃ message, t.Refused start message) ∧
      x.applyTags false start r ((turns.filter (·.events.isEmpty)).map (·.item)) = .done r' ∧
      ∀ a ∈ x.registry.toList, a.multiple = false → x.StandsOnce start r a turns := by
  have builtin := isBuiltin_of_make standard made
  obtain ⟨turns, r', turned, rfl⟩ := exists_turns builtin text start typed items
  have told : ∀ t ∈ turns, t.events = [] ∨ ∃ message, t.Refused start message := by
    intro t inside
    obtain ⟨front, rest, split⟩ := List.append_of_mem inside
    obtain ⟨reached, applied⟩ := (split ▸ turned).split
    have typed' := (reached.keeps builtin typed).1
    have either := events_applyTag (x := x) typed' false (start + t.item.offset) t.item
    rw [applied] at either
    refine either.imp_right fun ⟨message, warned⟩ => ⟨message, ?_⟩
    exact ⟨congrArg Report.events warned, Except.ok.inj (congrArg Report.result warned)⟩
  have traceless : ∀ t ∈ turns, t.events ≠ [] → t.after = t.before := by
    intro t inside warned
    rcases told t inside with silent | ⟨_, refused⟩
    · exact absurd silent warned
    · exact refused.2
  refine ⟨turns, r', turned, rfl, turned.applyTags, told, turned.quiet traceless, ?_⟩
  intro a registered once
  exact turned.standsOnce builtin text (builtin.listed ▸ registered) once typed

/-- The tags of a variable: a type that is missing, a tag of functions, and two types. -/
def numberItems : List Tagged :=
  [⟨"type", "", 0⟩, ⟨"return", "\x7bnumber\x7d", 1⟩, ⟨"type", "number", 2⟩, ⟨"type", "string", 3⟩]

def numberDraft : Record := { todoDraft with types := ["number"], tags := ["type"] }

theorem applyTags_turns_number :
    make { Registry.builtin quietConfig with frozen := true } quietConfig = .ok quiet ∧
      quietConfig.HasTextPrefix ∧ todoDraft.Typed ∧
      ∃ turns, quiet.Turns 4 todoDraft turns numberDraft ∧ turns.map (·.item) = numberItems ∧
        turns.flatMap (·.events) = [refusal todoDraft 4 "@type requires a value",
          refusal todoDraft 5 (notAllowed "return" .var), refusal todoDraft 7 (onlyOnce "type")] ∧
        quiet.applyTags false 4 todoDraft ((turns.filter (·.events.isEmpty)).map (·.item)) =
          .done numberDraft ∧
        quiet.StandsOnce 4 todoDraft Tag.type turns := by
  have made : make { Registry.builtin quietConfig with frozen := true } quietConfig = .ok quiet := rfl
  have text : quietConfig.HasTextPrefix := fun _ => ⟨"_", rfl⟩
  have typed : todoDraft.Typed := rfl
  obtain ⟨turns, r', turned, items, applied, _, quieted, once⟩ :=
    applyTags_turns (Registry.standard_nil quietConfig) made text 4 typed numberItems
  have run : quiet.applyTags false 4 todoDraft numberItems =
      ⟨[refusal todoDraft 4 "@type requires a value", refusal todoDraft 5 (notAllowed "return" .var),
        refusal todoDraft 7 (onlyOnce "type")], .ok numberDraft⟩ := rfl
  obtain ⟨events, result⟩ := Report.mk.inj (applied.symm.trans run)
  cases result
  have registered : Tag.type ∈ quiet.registry.toList :=
    (isBuiltin_of_make (Registry.standard_nil quietConfig) made).listed ▸ by simp [Tag.builtins]
  exact ⟨made, text, typed, turns, turned, items, events, quieted, once _ registered rfl⟩

end Extractor

end SheetDoc
