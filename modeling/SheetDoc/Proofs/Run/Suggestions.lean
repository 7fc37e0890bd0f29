import Mathlib.Algebra.BigOperators.Group.List.Basic
import SheetDoc.Proofs.Linking.Suggestions
import SheetDoc.Proofs.Run.References

namespace SheetDoc

namespace Store

variable {s s' : Store} {r r' t t' : Record}

theorem Evolves.cuts_eq (e : s.Evolves Record.Described s') (source : r.Described r')
    (target : t.Described t') : s'.cuts r' t' = s.cuts r t := by
  have users : s'.usersAt = s.usersAt := by
    refine funext (e.viewAt ?_)
    rintro _ _ ⟨_, rfl⟩
    rfl
  unfold cuts Cut
  rw [users]
  obtain ⟨_, rfl⟩ := source
  obtain ⟨_, rfl⟩ := target
  rfl

/-- The known records but one, with their descriptions. -/
theorem Evolves.forall₂_others (e : s.Evolves Record.Described s') (same : r.Described r') :
    List.Forall₂ Record.Described (s.known.filter (·.uid ≠ r.uid))
      (s'.known.filter (·.uid ≠ r'.uid)) := by
  have records : List.Forall₂ Record.Described s.records s'.records :=
    e.forall₂.imp fun _ _ both => both.2
  refine List.rel_filter ?_ (List.rel_filter ?_ records)
  · intro t t' described
    simp only [described.counterpart.2, same.counterpart.2]
  · intro t t' described
    simp only [described.counterpart.kind]

/-- Descriptions make no difference to what is linked. -/
theorem Outward.described (outward : s.Outward) (e : s.Evolves Record.Described s') : s'.Outward := by
  have evolves := e.mono fun _ _ described => described.counterpart
  constructor
  · intro r' member entry listed suggested u item
    obtain ⟨r, inside, described⟩ := e.exists_before member
    rw [evolves.fallsBack_iff described.counterpart]
    obtain ⟨_, rfl⟩ := described
    exact outward.suggested r inside entry listed suggested u item
  · intro r' member silent apart
    obtain ⟨r, inside, described⟩ := e.exists_before member
    have nowhere : ∀ entry ∈ r.requires, ¬s.FallsBack r entry := by
      intro entry listed falls
      refine apart entry ?_ ((evolves.fallsBack_iff described.counterpart).mpr falls)
      obtain ⟨_, rfl⟩ := described
      exact listed
    have others : (s'.known.filter (·.uid ≠ r'.uid)).map (s'.cuts · r') =
        (s.known.filter (·.uid ≠ r.uid)).map (s.cuts · r) := by
      refine List.forall₂_eq_eq_eq ▸ List.forall₂_map_left_iff.mpr (List.forall₂_map_right_iff.mpr ?_)
      exact (e.forall₂_others described).flip.imp fun _ _ source => e.cuts_eq source described
    rw [others]
    obtain ⟨_, rfl⟩ := described
    exact outward.marks r inside silent nowhere

/-- Where nothing is linked, nothing is linked to itself. -/
theorem Fresh.outward (fresh : s.Fresh) : s.Outward where
  suggested r member e listed _ u item := by
    rw [(fresh.detached r member).requires e listed] at item
    cases item
  marks r member _ _ := by
    have none : ∀ t ∈ s.known.filter (·.uid ≠ r.uid), s.cuts t r = 0 := by
      intro t known
      refine cuts_eq_zero fun e listed => ?_
      have inside := mem_records_of_known (List.mem_of_mem_filter known)
      rw [(fresh.detached t inside).requires e listed]
      nofun
    rw [(fresh.detached r member).usedBy, List.count_nil, List.sum_eq_zero (List.forall_mem_map.mpr none)]

end Store

namespace Run

variable {run : Run} {c : Config} {x : Extractor}

/-- The store of a run in the end is the one before or the linked one, with or without descriptions. -/
theorem finish_store {P : Store → Prop} (isOpen : run.finished = false) (before : P run.store)
    (linked : P (run.store.link run.extractor.registry run.config.isStrict).1.store)
    (described : ∀ s group, P s → P (attachDescriptions s group)) : P run.finish.1.store := by
  have concluded : ∀ done : Linking × Option Failure, P done.1.store →
      P (({ run with finished := true } : Run).conclude done).1.store := by
    rintro ⟨l, _ | failure⟩ holds
    · exact described _ _ holds
    · exact holds
  by_cases strict : run.config.isStrict = true
  · cases failures : run.failures with
    | nil => exact finish_of_calm isOpen (Or.inr failures) ▸ concluded _ linked
    | cons first rest => exact finish_of_failures isOpen strict failures ▸ before
  · exact finish_of_calm isOpen (Or.inl (Bool.eq_false_iff.mpr strict)) ▸ concluded _ linked

/-- What the code of a record suggests is linked to the record itself exactly where its look-up falls
back to the record, and a record that nobody declares a requirement for is cut off from itself only
there. -/
theorem finish_outward (prepared : prepare c [] none = .ok x) (actions : List Action) :
    ((opened c x).perform actions).finish.1.store.Outward := by
  have standard := isBuiltin_of_prepare prepared
  have underway := underway_perform standard.keepsTypes c actions
  have fresh := fresh_perform standard actions
  refine finish_store underway.isOpen fresh.outward ?_ fun s group outward =>
    outward.described (s.evolves_attachDescriptions group)
  have same : ((opened c x).perform actions).extractor.registry.toList = (Registry.builtin c).toList := by
    rw [underway.extractor, standard.listed, Registry.toList_builtin]
  rw [Store.link_congr same]
  exact Store.link_outward fresh.placed fresh.indexed fresh.latest fresh.detached fresh.selfless

/-- A run over a mixin whose code calls a function of the name of the mixin, which there is not. -/
def calling : Run := (opened .default filling).perform
  [.call (.source "a.scss" "/// Text\n@mixin a \x7b\n  b: a(1);\n\x7d")]

def caller : Record where
  context := ⟨.mixin, "a", none, none, "@mixin a \x7b\n  b: a(1);\n\x7d", some 2, some 4⟩
  file := ⟨"a.scss", "a.scss"⟩
  description := "Text"
  commentLine := 1
  uid := 0
  group := ["undefined"]
  access := some Tag.publicWord
  requires := [{ name := "a", kind := .function, autofill := true }]

def callerStore : Store where
  records := [caller]
  byKey := [((.mixin, "a"), 0)]
  byName := [("a", 0)]

theorem store_calling : calling.store = callerStore := by with_unfolding_all rfl

/-- The mixin as linking leaves it: its code requires it, and it is cut off from itself. -/
def cutCaller : Record :=
  { caller with
    requires := [{ name := "a", kind := .function, autofill := true, item := some caller.reference }]
    usedBy := [.circular] }

def cutLinking : Linking where
  store := { callerStore with records := [cutCaller] }
  events := [.notice "cycle" "Usage cycle between `a` and `a`" (some "a.scss") (some 2)]

theorem linkedBy_caller :
    callerStore.LinkedBy (.builtin .default) { store := callerStore } cutLinking cutLinking where
  aliases := rfl
  requires := by
    have entry : Linking.linkRequire caller ({ name := "a", kind := .function, autofill := true }, 0)
        { store := callerStore } = (cutLinking, none) := by
      change Linking.linkTarget caller caller _ = _
      rw [Linking.linkTarget_self]
      rfl
    have entries : eachUntil (Linking.linkRequire caller) caller.requires.zipIdx
        { store := callerStore } = (cutLinking, none) :=
      eachUntil_cons_done.mpr ⟨cutLinking, entry, rfl⟩
    have record : Linking.linkRecord caller { store := callerStore } = (cutLinking, none) :=
      Linking.andThen_done.mpr ⟨cutLinking, entries, rfl⟩
    exact eachUntil_cons_done.mpr ⟨cutLinking, record, rfl⟩
  pointers := rfl

theorem finish_calling : calling.finish.1.store.records = [cutCaller] := by
  have underway : calling.Underway .default filling :=
    underway_perform (isBuiltin_of_prepare prepare_default).keepsTypes .default _
  have lenient : calling.config.isStrict = false := by
    rw [underway.config]
    rfl
  have linked : callerStore.link filling.registry false = (cutLinking, none) := by
    have same : callerStore.link filling.registry false = callerStore.link (.builtin .default) false :=
      Store.link_congr rfl false callerStore
    rw [same, Store.link, linkedBy_caller.phases]
    rfl
  rw [finish_of_calm underway.isOpen (Or.inl lenient), store_calling, underway.extractor, lenient,
    linked, underway.config]
  rfl

theorem finish_outward_calling :
    prepare .default [] none = .ok filling ∧ calling.finish.1.store.records = [cutCaller] ∧
      calling.finish.1.store.Outward :=
  ⟨prepare_default, finish_calling, finish_outward prepare_default _⟩

/-- A look-up that falls back leads the code of a record to the record itself, and it is cut off from
itself although nobody declares a requirement for it. -/
theorem finish_calling_inward :
    prepare .default [] none = .ok filling ∧
      (¬∀ r ∈ calling.finish.1.store.records, ∀ e ∈ r.requires, e.autofill = true →
        ∀ u, e.item = some u → u.uid ≠ r.uid) ∧
      ¬∀ r ∈ calling.finish.1.store.records, r.has "require" = false →
        r.usedBy.count .circular =
          ((calling.finish.1.store.known.filter (·.uid ≠ r.uid)).map
            (calling.finish.1.store.cuts · r)).sum := by
  refine ⟨prepare_default, fun apart => ?_, fun others => ?_⟩
  · rw [finish_calling] at apart
    exact apart cutCaller List.mem_cons_self _ List.mem_cons_self rfl caller.reference rfl rfl
  · rw [Store.known, finish_calling] at others
    have marks := others cutCaller List.mem_cons_self rfl
    cases marks

end Run

end SheetDoc
