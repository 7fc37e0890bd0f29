import SheetDoc.Proofs.Linking.Outcome
import SheetDoc.Proofs.Record.Typed

namespace SheetDoc

/-- The record is typed, and its users are among so many records. -/
structure Record.Sound (size : Nat) (r : Record) : Prop where
  typed : r.Typed
  users : ∀ u : Reference, .user u ∈ r.usedBy → -(size : Int) ≤ u.uid ∧ u.uid < size

namespace Store

/-- The records are typed and refer to users that the store has. -/
def Sound (s : Store) : Prop := ∀ r ∈ s.records, r.Sound s.size

variable {s : Store}

theorem exists_at? {uid : Int} (inside : -(s.size : Int) ≤ uid ∧ uid < s.size) :
    ∃ r, s.at? uid = some r := by
  unfold at?
  split
  · exact ⟨_, List.getElem?_eq_getElem (by simp only [size] at inside; omega)⟩
  · rw [if_pos (by omega)]
    exact ⟨_, List.getElem?_eq_getElem (by simp only [size] at inside ⊢; omega)⟩

/-- The search along users ends well. -/
theorem Sound.search (sound : s.Sound) (target : Int) (seen : List Int) {stack : List Int}
    (waiting : ∀ uid ∈ stack, -(s.size : Int) ≤ uid ∧ uid < s.size) :
    ∃ found, s.search target seen stack = .ok found := by
  fun_induction Store.search s target seen stack with
  | case1 => exact ⟨false, rfl⟩
  | case2 => exact ⟨true, rfl⟩
  | case3 _ _ _ _ _ ih => exact ih fun v later => waiting v (List.mem_cons_of_mem _ later)
  | case4 seen uid stack different new missing =>
    obtain ⟨r, atUid⟩ := exists_at? (waiting uid List.mem_cons_self)
    rw [missing] at atUid
    cases atUid
  | case5 seen uid stack different new r atUid fault failed =>
    rw [Record.users_of_clean ((sound r (at?_mem atUid)).typed.get? _)] at failed
    cases failed
  | case6 seen uid stack different new r atUid users listed ih =>
    have sound := sound r (at?_mem atUid)
    rw [Record.users_of_clean (sound.typed.get? _)] at listed
    cases listed
    refine ih fun v waits => ?_
    rcases List.mem_append.mp waits with user | old
    · obtain ⟨u, inside, same⟩ := List.mem_filterMap.mp (List.mem_reverse.mp user)
      cases u <;> cases same
      exact sound.users _ inside
    · exact waiting v (List.mem_cons_of_mem _ old)

end Store

namespace Linking

/-- Every record of the store is typed. -/
def Typed (l : Linking) : Prop := ∀ r ∈ l.store.records, r.Typed

/-- So many records, all of them sound. -/
structure Ready (n : Nat) (l : Linking) : Prop where
  size : l.store.size = n
  sound : ∀ r ∈ l.store.records, r.Sound n

variable {n : Nat} {l l' : Linking} {r t : Record}

theorem forall_mem_modify {P : Record → Prop} (each : ∀ r ∈ l.store.records, P r) {uid : Int}
    {f : Record → Record} (keeps : ∀ r, P r → P (f r)) : ∀ r ∈ (l.modify uid f).store.records, P r := by
  intro r' member
  obtain ⟨i, atI⟩ := List.mem_iff_getElem?.mp member
  rw [modify, Store.getElem?_modify] at atI
  split at atI
  · obtain ⟨r, before, rfl⟩ := Option.map_eq_some_iff.mp atI
    exact keeps r (each r (List.mem_of_getElem? before))
  · exact each r' (List.mem_of_getElem? atI)

theorem Ready.modify (ready : l.Ready n) {uid : Int} {f : Record → Record}
    (keeps : ∀ r, r.Sound n → (f r).Sound n) : (l.modify uid f).Ready n where
  size := by
    rw [← ready.size]
    simp [Linking.modify, Store.modify, Store.size]
  sound := forall_mem_modify ready.sound keeps

theorem Ready.typed (ready : l.Ready n) : l.Typed := fun r member => (ready.sound r member).typed

theorem problem_total (typed : r.Typed) (message : String) :
    (problem r message l).2 = none ∧ (problem r message l).1.store = l.store := by
  simp only [problem, typed.readPath, and_self]

theorem notice_total (typed : r.Typed) (message : String) :
    (notice r message l).2 = none ∧ (notice r message l).1.store = l.store := by
  simp only [notice, typed.readPath, and_self]

/-- A step that leaves the store as it is keeps what is known about the store. -/
theorem ready_of_store_eq (ready : l.Ready n) {done : Linking × Option Failure}
    (quiet : done.2 = none ∧ done.1.store = l.store) : done.2 = none ∧ done.1.Ready n :=
  ⟨quiet.1, by rw [quiet.2]; exact ready.size, by rw [quiet.2]; exact ready.sound⟩

theorem change_total (ready : l.Ready n) {uid : Int} {f : Record → Except Misuse Record}
    (each : ∀ t : Record, t.Sound n → ∃ t', f t = .ok t' ∧ t'.Sound n) :
    (change uid f l).2 = none ∧ (change uid f l).1.Ready n := by
  unfold change
  cases atUid : l.store.at? uid with
  | none => exact ⟨rfl, ready⟩
  | some t =>
    obtain ⟨t', done, sound⟩ := each t (ready.sound t (Store.at?_mem atUid))
    simp only [Option.map_some, done, true_and]
    exact ready.modify fun _ _ => sound

theorem holds_total (typed : t.Typed) (reference : Reference) (f : Field) (own : List Item) :
    holds reference f own t = .ok (own.any (Item.same (.reference reference))) := by
  simp only [holds, typed.strayValue?, typed.tail, List.append_nil]

theorem addAliased_total (source : r.Typed) (sound : t.Sound n) :
    ∃ t', addAliased r t = .ok t' ∧ t'.Sound n := by
  simp only [addAliased, source.refer, holds_total sound.typed, sound.typed.adding, bind, Except.bind,
    pure, Except.pure]
  split
  · exact ⟨t, rfl, sound⟩
  · exact ⟨_, rfl, sound.typed, sound.users⟩

theorem addUser_total (source : r.Typed) (inside : 0 ≤ r.uid ∧ r.uid < n) (sound : t.Sound n) :
    ∃ t', addUser r t = .ok t' ∧ t'.Sound n := by
  simp only [addUser, source.refer, holds_total sound.typed, sound.typed.adding, bind, Except.bind,
    pure, Except.pure]
  split
  · exact ⟨t, rfl, sound⟩
  · refine ⟨_, rfl, sound.typed, fun u listed => ?_⟩
    rcases List.mem_append.mp listed with old | new
    · exact sound.users u old
    · cases List.mem_singleton.mp new
      exact ⟨Int.le_trans (by omega) inside.1, inside.2⟩

theorem addCircular_total (sound : t.Sound n) : ∃ t', addCircular t = .ok t' ∧ t'.Sound n := by
  simp only [addCircular, sound.typed.adding]
  refine ⟨_, rfl, sound.typed, fun u listed => sound.users u ?_⟩
  simpa using listed

theorem linkAliases_total {rs : List Record} (sources : ∀ r ∈ rs, r.Typed) (ready : l.Ready n) :
    (linkAliases rs l).2 = none ∧ (linkAliases rs l).1.Ready n := by
  refine eachUntil_total (fun r member l ready => ?_) ready
  have source := sources r member
  unfold linkRecordAliases
  rw [source.strayValue?]
  refine eachUntil_total (fun name _ l ready => ?_) ready
  unfold linkAlias
  split
  · exact ready_of_store_eq ready (problem_total source _)
  · split
    · exact ready_of_store_eq ready (notice_total source _)
    · exact change_total ready fun t => addAliased_total source

theorem andThen_total {P Q : Linking → Prop} {done : Linking × Option Failure}
    {next : Linking → Linking × Option Failure} (first : done.2 = none ∧ P done.1)
    (second : ∀ l, P l → (next l).2 = none ∧ Q (next l).1) :
    (andThen done next).2 = none ∧ Q (andThen done next).1 := by
  obtain ⟨l, _ | failure⟩ := done
  · exact second l first.2
  · cases first.1

section

variable (source : r.Typed) (inside : 0 ≤ r.uid ∧ r.uid < n)

include source inside

theorem linkTarget_total (ready : l.Ready n) :
    (linkTarget r t l).2 = none ∧ (linkTarget r t l).1.Ready n := by
  have start : ∀ uid ∈ [r.uid], -(l.store.size : Int) ≤ uid ∧ uid < l.store.size := by
    rw [ready.size]
    exact List.forall_mem_singleton.mpr ⟨by omega, inside.2⟩
  have sound : l.store.Sound := fun r member => ready.size.symm ▸ ready.sound r member
  obtain ⟨found, decided⟩ := sound.search t.uid [] start
  rw [linkTarget, Store.reaches, decided]
  cases found with
  | true =>
    exact andThen_total (change_total ready fun _ => addCircular_total) fun l ready =>
      ready_of_store_eq ready (notice_total source _)
  | false => exact change_total ready fun _ => addUser_total source inside

theorem linkRequire_total (ready : l.Ready n) (entry : Require × Nat) :
    (linkRequire r entry l).2 = none ∧ (linkRequire r entry l).1.Ready n := by
  obtain ⟨e, index⟩ := entry
  unfold linkRequire
  simp only
  split
  · split
    · exact ⟨rfl, ready⟩
    · exact ready_of_store_eq ready (problem_total source _)
  · rename_i t found
    rw [(ready.typed t (Store.find?_mem found)).refer]
    exact linkTarget_total source inside (ready.modify fun _ sound => ⟨sound.typed, sound.users⟩)

theorem linkRecord_total (ready : l.Ready n) :
    (linkRecord r l).2 = none ∧ (linkRecord r l).1.Ready n := by
  have entries : (eachUntil (linkRequire r) r.requires.zipIdx l).2 = none ∧
      (eachUntil (linkRequire r) r.requires.zipIdx l).1.Ready n :=
    eachUntil_total (P := Ready n)
      (fun entry _ _ ready => linkRequire_total source inside ready entry) ready
  refine andThen_total entries fun l ready => ?_
  rw [source.flaw]
  exact ⟨rfl, ready.modify fun t sound =>
    ⟨Record.Typed.settle (r := dropUnfound l.store t) sound.typed _, sound.users⟩⟩

end

theorem linkRequires_total {rs : List Record} (sources : ∀ r ∈ rs, r.Typed)
    (inside : ∀ r ∈ rs, 0 ≤ r.uid ∧ r.uid < n) (ready : l.Ready n) :
    (linkRequires rs l).2 = none ∧ (linkRequires rs l).1.Ready n :=
  eachUntil_total (fun r member _ => linkRecord_total (sources r member) (inside r member)) ready

/-- The resolve steps of a registry leave typed records typed. -/
def ResolvesTyped (g : Registry) : Prop :=
  ∀ a ∈ g.toList, ∀ step, a.resolve = some step →
    ∀ (s : Store) (r : Record), (∀ t ∈ s.records, t.Typed) → r ∈ s.records → (step s r).1.Typed

theorem ResolvesPointers.resolvesTyped {g : Registry} (pointers : ResolvesPointers g) :
    ResolvesTyped g := by
  intro a member step resolves s r typed inside
  cases pointers a member step resolves
  exact typed r inside

theorem resolveAll_total {g : Registry} (keeps : ResolvesTyped g) (uids : List Int)
    (typed : l.Typed) : (resolveAll g uids l).2 = none ∧ (resolveAll g uids l).1.Typed := by
  refine eachUntil_total (fun a member l typed => ?_) typed
  unfold resolveTag
  split
  · exact ⟨rfl, typed⟩
  · rename_i step resolves
    refine eachUntil_total (fun uid _ l typed => ?_) typed
    unfold resolveRecord
    split
    · exact ⟨rfl, typed⟩
    · rename_i r atUid
      have linked := keeps a member step resolves l.store r typed (Store.at?_mem atUid)
      have changed : (l.modify uid fun _ => (step l.store r).1).Typed :=
        forall_mem_modify typed fun _ _ => linked
      simp only
      split
      · obtain ⟨done, store⟩ := problem_total linked _
        exact ⟨done, by rw [Typed, store]; exact changed⟩
      · refine eachUntil_total (fun message _ l typed => ?_) changed
        obtain ⟨done, store⟩ := problem_total (l := l) linked message
        exact ⟨done, by rw [Typed, store]; exact typed⟩

end Linking

/-- The phases of linking a sound store all end well. -/
theorem Store.phases_total {g : Registry} {s : Store} (placed : s.Placed) (sound : s.Sound)
    (keeps : Linking.ResolvesTyped g) :
    ∃ l : Linking, s.phases g = (l, none) ∧ l.Typed := by
  have sources : ∀ r ∈ s.known, r.Typed := fun r member =>
    (sound r (mem_records_of_known member)).typed
  have inside : ∀ r ∈ s.known, 0 ≤ r.uid ∧ r.uid < s.size := fun r member =>
    ⟨placed.uid_nonneg (mem_records_of_known member), placed.uid_lt (mem_records_of_known member)⟩
  have aliased := Linking.linkAliases_total (l := { store := s }) sources ⟨rfl, sound⟩
  have required := Linking.andThen_total aliased fun _ =>
    Linking.linkRequires_total sources inside
  have resolved := Linking.andThen_total required fun _ ready =>
    Linking.resolveAll_total keeps (s.known.map (·.uid)) ready.typed
  exact ⟨_, Prod.ext rfl resolved.1, resolved.2⟩

/-- Linking a sound store ends by itself, or in a strict run with its first problem. -/
theorem Store.link_total {g : Registry} {s : Store} {strict : Bool} (placed : s.Placed)
    (sound : s.Sound) (keeps : Linking.ResolvesTyped g) : Linking.Ends (s.link g strict).2 := by
  obtain ⟨l, done, _⟩ := phases_total placed sound keeps
  intro failure failed
  rw [link, done] at failed
  change (Linking.escalate strict l).2 = some failure at failed
  unfold Linking.escalate at failed
  split at failed
  · exact ⟨_, (Option.some.inj failed).symm⟩
  · cases failed

end SheetDoc
