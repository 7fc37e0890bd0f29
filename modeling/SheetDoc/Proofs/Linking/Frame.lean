import SheetDoc.Linking
import SheetDoc.Proofs.Tag.Standard
import SheetDoc.Proofs.Store.Users

namespace SheetDoc

theorem Record.get?_setStray_of_ne {f f' : Field} (other : f' ≠ f) (stray : Stray) (r : Record) :
    (r.setStray f stray).strays.get? f' = r.strays.get? f' := by
  simp [setStray, Assoc.get?_set, Ne.symm other]

theorem Record.get?_settle_of_ne {f f' : Field} (other : f' ≠ f) (r : Record) :
    (r.settle f).strays.get? f' = r.strays.get? f' := by
  simp [settle, Assoc.get?_erase, Ne.symm other]

theorem Record.adding_ok {f : Field} {item : Item} {own : Record → Record} {r r' : Record}
    (done : r.adding f item own = .ok r') :
    r' = own r ∨ ∃ stray, r' = r.setStray f stray := by
  obtain ⟨_, _, done⟩ := bind_eq_ok.mp done
  split at done
  · exact Or.inl (Except.ok.inj done).symm
  · exact Or.inr ⟨_, (Except.ok.inj done).symm⟩

/-- `r'` is `r` but for its back-links. -/
def Record.BackLinked (r r' : Record) : Prop :=
  ∃ aliased strays, r' = { r with aliased := aliased, strays := strays } ∧
    ∀ f ≠ Field.aliased, strays.get? f = r.strays.get? f

/-- `r'` is `r` but for its requirements and its users. -/
def Record.Required (r r' : Record) : Prop :=
  ∃ requires usedBy strays,
    r' = { r with requires := requires, usedBy := usedBy, strays := strays }

/-- `r'` is `r` but for its pointers. -/
def Record.Pointed (r r' : Record) : Prop := ∃ sees, r' = { r with sees := sees }

/-- A way to change records that can be repeated and leaves their index alone. -/
structure Record.Repeatable (rel : Record → Record → Prop) : Prop where
  refl : ∀ r, rel r r
  trans : ∀ a b c, rel a b → rel b c → rel a c
  uid : ∀ r r', rel r r' → r'.uid = r.uid

theorem Record.BackLinked.repeatable : Repeatable BackLinked where
  refl r := ⟨_, _, rfl, fun _ _ => rfl⟩
  trans := by
    rintro a _ _ ⟨_, _, rfl, same⟩ ⟨_, _, rfl, same'⟩
    exact ⟨_, _, rfl, fun f other => (same' f other).trans (same f other)⟩
  uid := by
    rintro r _ ⟨_, _, rfl, _⟩
    rfl

theorem Record.Required.repeatable : Repeatable Required where
  refl r := ⟨_, _, _, rfl⟩
  trans := by
    rintro a _ _ ⟨_, _, _, rfl⟩ ⟨_, _, _, rfl⟩
    exact ⟨_, _, _, rfl⟩
  uid := by
    rintro r _ ⟨_, _, _, rfl⟩
    rfl

theorem Record.Pointed.repeatable : Repeatable Pointed where
  refl r := ⟨_, rfl⟩
  trans := by
    rintro a _ _ ⟨_, rfl⟩ ⟨_, rfl⟩
    exact ⟨_, rfl⟩
  uid := by
    rintro r _ ⟨_, rfl⟩
    rfl

/-- The same construct at the same index, whatever it is linked to. -/
def Record.Counterpart (r r' : Record) : Prop := r'.context = r.context ∧ r'.uid = r.uid

theorem Record.Counterpart.repeatable : Repeatable Counterpart where
  refl _ := ⟨rfl, rfl⟩
  trans := fun _ _ _ first second => ⟨second.1.trans first.1, second.2.trans first.2⟩
  uid := fun _ _ same => same.2

theorem Record.Counterpart.reference {r r' : Record} (same : r.Counterpart r') :
    r'.reference = r.reference := by
  simp only [Record.reference, kind, name, same.1, same.2]

theorem Record.Counterpart.kind {r r' : Record} (same : r.Counterpart r') : r'.kind = r.kind := by
  simp only [Record.kind, same.1]

theorem Record.Counterpart.name {r r' : Record} (same : r.Counterpart r') : r'.name = r.name := by
  simp only [Record.name, same.1]

theorem Record.BackLinked.counterpart {r r' : Record} (linked : r.BackLinked r') :
    r.Counterpart r' := by
  obtain ⟨_, _, rfl, _⟩ := linked
  exact ⟨rfl, rfl⟩

theorem Record.Pointed.counterpart {r r' : Record} (pointed : r.Pointed r') :
    r.Counterpart r' := by
  obtain ⟨_, rfl⟩ := pointed
  exact ⟨rfl, rfl⟩

/-- The same construct at the same place, whatever it is linked to. -/
def Record.Sited (r r' : Record) : Prop :=
  r.Counterpart r' ∧ r'.file = r.file ∧ r'.commentLine = r.commentLine

theorem Record.Sited.repeatable : Repeatable Sited where
  refl _ := ⟨⟨rfl, rfl⟩, rfl, rfl⟩
  trans := by
    rintro a b c ⟨same, file, line⟩ ⟨same', file', line'⟩
    exact ⟨Counterpart.repeatable.trans a b c same same', file'.trans file, line'.trans line⟩
  uid _ _ sited := sited.1.2

theorem Record.BackLinked.sited {r r' : Record} (linked : r.BackLinked r') : r.Sited r' := by
  obtain ⟨_, _, rfl, _⟩ := linked
  exact ⟨⟨rfl, rfl⟩, rfl, rfl⟩

theorem Record.Required.sited {r r' : Record} (required : r.Required r') : r.Sited r' := by
  obtain ⟨_, _, _, rfl⟩ := required
  exact ⟨⟨rfl, rfl⟩, rfl, rfl⟩

/-- The warning about a record with a problem. -/
def Record.complaint (r : Record) (message : String) : Event :=
  .warning "resolution" message (some r.file.path) (some r.line)

/-- What a record notes that is no problem. -/
def Record.remark (r : Record) (message : String) : Event :=
  .notice "cycle" message (some r.file.path) (some r.line)

theorem Record.Sited.complaint {r r' : Record} (sited : r.Sited r') :
    r'.complaint = r.complaint := by
  obtain ⟨⟨context, _⟩, file, line⟩ := sited
  funext message
  rw [Record.complaint, Record.complaint, file, Record.line, Record.line, context, line]

theorem Record.Sited.remark {r r' : Record} (sited : r.Sited r') : r'.remark = r.remark := by
  obtain ⟨⟨context, _⟩, file, line⟩ := sited
  funext message
  rw [Record.remark, Record.remark, file, Record.line, Record.line, context, line]

theorem Record.path_of_read {r : Record} {path : String} (read : r.readPath = .ok path) :
    path = r.file.path := by
  unfold readPath at read
  split at read <;> cases read
  rfl

namespace Linking

variable {l : Linking}

/-- More events were reported, all of a kind. -/
def Reports (P : Event → Prop) (l l' : Linking) : Prop :=
  ∃ more, l'.events = l.events ++ more ∧ ∀ e ∈ more, P e

theorem Reports.refl {P : Event → Prop} (l : Linking) : Reports P l l :=
  ⟨[], by simp, by simp⟩

theorem Reports.trans {P : Event → Prop} {l l' l'' : Linking} (first : Reports P l l')
    (second : Reports P l' l'') : Reports P l l'' := by
  obtain ⟨more, grown, each⟩ := first
  obtain ⟨more', grown', each'⟩ := second
  refine ⟨more ++ more', by rw [grown', grown, List.append_assoc], ?_⟩
  intro e member
  rcases List.mem_append.mp member with old | new
  · exact each e old
  · exact each' e new

/-- What a phase of linking does: records are replaced by related ones, and events of a kind are
reported. -/
structure Phase (rel : Record → Record → Prop) (P : Event → Prop) (l l' : Linking) : Prop where
  store : l.store.Evolves rel l'.store
  events : Reports P l l'

section Phase

variable {rel : Record → Record → Prop} {P : Event → Prop} {l' : Linking}

theorem Phase.refl (repeatable : Record.Repeatable rel) (l : Linking) : Phase rel P l l :=
  ⟨.refl repeatable.refl l.store, .refl l⟩

theorem Phase.trans (repeatable : Record.Repeatable rel) {l'' : Linking}
    (first : Phase rel P l l') (second : Phase rel P l' l'') : Phase rel P l l'' :=
  ⟨first.store.trans repeatable.trans second.store, first.events.trans second.events⟩

/-- A phase that is a pass over a list is what its steps are. -/
theorem Phase.eachUntil {α : Type} (repeatable : Record.Repeatable rel)
    {step : α → Linking → Linking × Option Failure} {as : List α}
    (each : ∀ a ∈ as, ∀ l : Linking, l.store.Placed → Phase rel P l (step a l).1)
    (placed : l.store.Placed) : Phase rel P l (SheetDoc.eachUntil step as l).1 := by
  apply eachUntil_keeps (P := fun l' => Phase rel P l l') _ (Phase.refl repeatable l)
  intro a member l' before
  exact before.trans repeatable (each a member l' (before.store.placed repeatable.uid placed))

theorem phase_problem (repeatable : Record.Repeatable rel) (r : Record) (message : String)
    (allowed : ∀ file line, P (.warning "resolution" message file line)) (l : Linking) :
    Phase rel P l (problem r message l).1 := by
  unfold problem
  split
  · exact .refl repeatable l
  · exact ⟨.refl repeatable.refl l.store, _, rfl, by simpa using allowed _ _⟩

theorem phase_notice (repeatable : Record.Repeatable rel) (r : Record) (message : String)
    (allowed : ∀ file line, P (.notice "cycle" message file line)) (l : Linking) :
    Phase rel P l (notice r message l).1 := by
  unfold notice
  split
  · exact .refl repeatable l
  · exact ⟨.refl repeatable.refl l.store, _, rfl, by simpa using allowed _ _⟩

theorem phase_modify (repeatable : Record.Repeatable rel) {uid : Int} {f : Record → Record}
    (changed : ∀ r, l.store.records[uid.toNat]? = some r → rel r (f r)) :
    Phase rel P l (l.modify uid f) :=
  ⟨.modify repeatable.refl changed, .refl l⟩

theorem phase_change (repeatable : Record.Repeatable rel) {uid : Int} (nonneg : 0 ≤ uid)
    {f : Record → Except Misuse Record} (changed : ∀ r r', f r = .ok r' → rel r r') :
    Phase rel P l (change uid f l).1 := by
  unfold change
  cases atUid : l.store.at? uid with
  | none => exact .refl repeatable l
  | some r =>
    simp only [Option.map_some]
    cases done : f r with
    | error fault => exact .refl repeatable l
    | ok r' =>
      apply phase_modify repeatable
      intro t atT
      rw [Store.at?, if_pos nonneg, atT] at atUid
      cases atUid
      exact changed r r' done

theorem phase_andThen (repeatable : Record.Repeatable rel) {done : Linking × Option Failure}
    {next : Linking → Linking × Option Failure} (first : Phase rel P l done.1)
    (second : Phase rel P done.1 (next done.1).1) : Phase rel P l (andThen done next).1 := by
  obtain ⟨l', _ | failure⟩ := done
  · exact first.trans repeatable second
  · exact first

end Phase

theorem problem_complaint {l' : Linking} {r : Record} {message : String}
    (done : problem r message l = (l', none)) :
    l' = { l with
      events := l.events ++ [r.complaint message]
      problems := l.problems ++ [r.complaint message] } := by
  unfold problem at done
  split at done
  · cases done
  · rename_i path read
    cases Record.path_of_read read
    cases done
    rfl

theorem notice_remark {l' : Linking} {r : Record} {message : String}
    (done : notice r message l = (l', none)) :
    l' = { l with events := l.events ++ [r.remark message] } := by
  unfold notice at done
  split at done
  · cases done
  · rename_i path read
    cases Record.path_of_read read
    cases done
    rfl

theorem change_of_mem (placed : l.store.Placed) {t : Record} (member : t ∈ l.store.records)
    (f : Record → Except Misuse Record) :
    change t.uid f l =
      match f t with
      | .error fault => (l, some (.misuse fault))
      | .ok changed => (l.modify t.uid fun _ => changed, none) := by
  rw [change, placed.at?_uid member]
  simp only [Option.map_some]
  cases f t <;> rfl

theorem addAliased_ok {r t t' : Record} (done : addAliased r t = .ok t') : t.BackLinked t' := by
  obtain ⟨reference, _, done⟩ := bind_eq_ok.mp done
  obtain ⟨inside, _, done⟩ := bind_eq_ok.mp done
  split at done
  · cases done
    exact Record.BackLinked.repeatable.refl t
  · rcases Record.adding_ok done with rfl | ⟨stray, rfl⟩
    · exact ⟨_, _, rfl, fun _ _ => rfl⟩
    · exact ⟨_, _, rfl, fun f other => Record.get?_setStray_of_ne other stray t⟩

/-- The words by which every event of linking begins that does not report a usage cycle. -/
def OpensWithItem (message : String) : Prop := ∃ rest, message = "Item `" ++ rest

theorem phase_linkAlias (placed : l.store.Placed) (r : Record) (name : String) :
    Phase Record.BackLinked (fun e => OpensWithItem e.message) l (linkAlias r name l).1 := by
  unfold linkAlias
  split
  · exact phase_problem Record.BackLinked.repeatable r _
      (fun _ _ => ⟨_, by simp [String.append_assoc]; rfl⟩) l
  · rename_i target found
    split
    · exact phase_notice Record.BackLinked.repeatable r _
        (fun _ _ => ⟨_, by simp [String.append_assoc]; rfl⟩) l
    · rw [change_of_mem placed (Store.find?_mem found)]
      split
      · exact .refl Record.BackLinked.repeatable l
      · rename_i changed done
        apply phase_modify Record.BackLinked.repeatable
        intro t atUid
        rw [placed.records_uid (Store.find?_mem found)] at atUid
        cases atUid
        exact addAliased_ok done

theorem phase_linkAliases (placed : l.store.Placed) (rs : List Record) :
    Phase Record.BackLinked (fun e => OpensWithItem e.message) l (linkAliases rs l).1 := by
  apply Phase.eachUntil Record.BackLinked.repeatable _ placed
  intro r _ l placed
  unfold linkRecordAliases
  split
  · split
    · exact .refl Record.BackLinked.repeatable l
    · exact Phase.eachUntil Record.BackLinked.repeatable
        (fun name _ l placed => phase_linkAlias placed r name) placed
  · exact Phase.eachUntil Record.BackLinked.repeatable
      (fun name _ l placed => phase_linkAlias placed r name) placed

theorem addCircular_ok {t t' : Record} (done : addCircular t = .ok t') : t.Required t' := by
  rcases Record.adding_ok done with rfl | ⟨stray, rfl⟩ <;> exact ⟨_, _, _, rfl⟩

theorem addUser_ok {r t t' : Record} (done : addUser r t = .ok t') : t.Required t' := by
  obtain ⟨user, _, done⟩ := bind_eq_ok.mp done
  obtain ⟨inside, _, done⟩ := bind_eq_ok.mp done
  split at done
  · cases done
    exact Record.Required.repeatable.refl t
  · rcases Record.adding_ok done with rfl | ⟨stray, rfl⟩ <;> exact ⟨_, _, _, rfl⟩

theorem phase_linkTarget (r : Record) {t : Record} (nonneg : 0 ≤ t.uid) :
    Phase Record.Required (fun _ => True) l (linkTarget r t l).1 := by
  have repeatable := Record.Required.repeatable
  unfold linkTarget
  split
  · exact .refl repeatable l
  · exact phase_andThen repeatable (phase_change repeatable nonneg fun _ _ => addCircular_ok)
      (phase_notice repeatable r _ (fun _ _ => trivial) _)
  · exact phase_change repeatable nonneg fun _ _ => addUser_ok

theorem phase_linkRequire (placed : l.store.Placed) (r : Record) (entry : Require × Nat) :
    Phase Record.Required (fun _ => True) l (linkRequire r entry l).1 := by
  have repeatable := Record.Required.repeatable
  unfold linkRequire
  simp only
  split
  · split
    · exact .refl repeatable l
    · exact phase_problem repeatable r _ (fun _ _ => trivial) l
  · rename_i t found
    split
    · exact .refl repeatable l
    · rename_i reference _
      have marked : Phase Record.Required (fun _ => True) l
          (l.modify r.uid (setItem entry.2 reference)) :=
        phase_modify repeatable fun _ _ => ⟨_, _, _, rfl⟩
      exact marked.trans repeatable
        (phase_linkTarget r (placed.uid_nonneg (Store.find?_mem found)))

theorem phase_linkRecord (placed : l.store.Placed) (r : Record) :
    Phase Record.Required (fun _ => True) l (linkRecord r l).1 := by
  have repeatable := Record.Required.repeatable
  refine phase_andThen repeatable
    (Phase.eachUntil repeatable (fun entry _ l placed => phase_linkRequire placed r entry) placed) ?_
  split
  · exact .refl repeatable _
  · exact phase_modify repeatable fun _ _ => ⟨_, _, _, rfl⟩

theorem phase_linkRequires (placed : l.store.Placed) (rs : List Record) :
    Phase Record.Required (fun _ => True) l (linkRequires rs l).1 :=
  Phase.eachUntil Record.Required.repeatable (fun r _ _ placed => phase_linkRecord placed r) placed

/-- The pointers are the only thing that a resolve step of the registry works on. -/
def ResolvesPointers (g : Registry) : Prop :=
  ∀ a ∈ g.toList, ∀ step, a.resolve = some step → step = Tag.resolveSees

/-- What every resolve step of a registry does to a record, all of them do. -/
theorem phase_resolve {rel : Record → Record → Prop} {P : Event → Prop}
    (repeatable : Record.Repeatable rel)
    (allowed : ∀ message file line, P (.warning "resolution" message file line)) {g : Registry}
    (steps : ∀ a ∈ g.toList, ∀ step, a.resolve = some step → ∀ s r, rel r (step s r).1)
    {uids : List Int} (nonneg : ∀ uid ∈ uids, 0 ≤ uid) (placed : l.store.Placed) :
    Phase rel P l (resolveAll g uids l).1 := by
  apply Phase.eachUntil repeatable _ placed
  intro a member l placed
  unfold resolveTag
  split
  · exact .refl repeatable l
  · rename_i step resolves
    apply Phase.eachUntil repeatable _ placed
    intro uid listed l placed
    unfold resolveRecord
    cases atUid : l.store.at? uid with
    | none => exact .refl repeatable l
    | some r =>
      have changed : Phase rel P l (l.modify uid fun _ => (step l.store r).1) := by
        apply phase_modify repeatable
        intro t atT
        rw [Store.at?, if_pos (nonneg uid listed), atT] at atUid
        cases atUid
        exact steps a member step resolves l.store r
      have placed' := changed.store.placed repeatable.uid placed
      simp only
      split
      · exact changed.trans repeatable (phase_problem repeatable _ _ (allowed _) _)
      · exact changed.trans repeatable
          (Phase.eachUntil repeatable
            (fun message _ l _ => phase_problem repeatable _ message (allowed message) l) placed')

theorem phase_resolveAll {g : Registry} (pointers : ResolvesPointers g) {uids : List Int}
    (nonneg : ∀ uid ∈ uids, 0 ≤ uid) (placed : l.store.Placed) :
    Phase Record.Pointed (fun e => e.level = .warning) l (resolveAll g uids l).1 := by
  refine phase_resolve Record.Pointed.repeatable (fun _ _ _ => rfl) ?_ nonneg placed
  intro a member step resolves s r
  cases pointers a member step resolves
  exact ⟨_, rfl⟩

theorem resolvesPointers_builtin (c : Config) : ResolvesPointers (.builtin c) := by
  intro a member step resolves
  simp [Registry.builtin, Registry.toList, Registry.entriesOf, Tag.builtins] at member
  rcases member with rfl | rfl | rfl | rfl | rfl | rfl | rfl | rfl | rfl | rfl | rfl | rfl | rfl |
    rfl | rfl | rfl | rfl | rfl | rfl | rfl | rfl <;> cases resolves
  rfl

end Linking

end SheetDoc
