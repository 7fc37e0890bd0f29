import Mathlib.Algebra.Ring.Nat
import SheetDoc.Proofs.Linking.Requires
import SheetDoc.Proofs.Linking.Totality

namespace SheetDoc

open Relation

/-- Nothing is linked yet: no user, and no requirement with an item. -/
def Record.Unlinked (r : Record) : Prop :=
  r.usedBy = [] ∧ r.strays.get? .usedBy = none ∧ ∀ e ∈ r.requires, e.item = none

namespace Store

/-- In place of a user stands the mark of a cut, since the record leads to the other along users. -/
def Cut (s : Store) (r t : Record) : Prop :=
  ReflTransGen s.usersAt.Leads r.uid t.uid ∧ .circular ∈ t.usedBy

/-- How many requirements of a record for another are cut. -/
noncomputable def cuts (s : Store) (r t : Record) : Nat :=
  r.requires.countP fun e =>
    @decide (e.item = some t.reference ∧ s.Cut r t) (Classical.propDecidable _)

/-- Users and requirements of the known records answer each other. -/
structure Reciprocal (s : Store) : Prop where
  answered : ∀ r ∈ s.known, ∀ e ∈ r.requires, ∀ item, e.item = some item →
    ∃ t, s.at? item.uid = some t ∧ t.reference = item ∧
      Xor (.user r.reference ∈ t.usedBy) (s.Cut r t)
  origin : ∀ t ∈ s.records, ∀ u, .user u ∈ t.usedBy →
    ∃ r ∈ s.known, r.reference = u ∧ ∃ e ∈ r.requires, e.item = some t.reference
  once : ∀ t ∈ s.records, (t.usedBy.filter (· ≠ .circular)).Nodup
  marks : ∀ t ∈ s.records, t.usedBy.count .circular = (s.known.map fun r => s.cuts r t).sum

/-- One index requires another: a known record there has a requirement whose item is the other. -/
def Needs (s : Store) (a b : Int) : Prop :=
  ∃ r ∈ s.known, r.uid = a ∧ ∃ e ∈ r.requires, ∃ item, e.item = some item ∧ item.uid = b

theorem Evolves.forall₂ {rel : Record → Record → Prop} {s s' : Store} (e : s.Evolves rel s') :
    List.Forall₂ (fun r r' => r' ∈ s'.records ∧ rel r r') s.records s'.records := by
  refine List.forall₂_iff_get.mpr ⟨e.length.symm, fun i before after => ?_⟩
  exact ⟨List.get_mem _ _, e.records i _ _ (List.getElem?_eq_getElem before)
    (List.getElem?_eq_getElem after)⟩

theorem answer_item_iff {s : Store} {e : Require} (blank : e.item = none) {item : Reference} :
    (s.answer e).item = some item ↔
      ∃ t, s.find? e.name (some e.kind) = some t ∧ t.reference = item := by
  cases found : s.find? e.name (some e.kind) with
  | none => simp [answer_of_none found, blank]
  | some t => simp [answer_of_some found]

theorem mem_requests_iff {s : Store} {r : Record} {u : Reference} {uid : Int} :
    (u, uid) ∈ s.requests r ↔ r.reference = u ∧ ∃ t ∈ s.records, t.uid = uid ∧
      (r.reference, t.uid) ∈ s.requests r := by
  constructor
  · intro asked
    obtain ⟨e, member, asks⟩ := List.mem_filterMap.mp asked
    obtain ⟨t, found, same⟩ := Option.map_eq_some_iff.mp asks
    obtain ⟨rfl, rfl⟩ := Prod.mk.inj same
    exact ⟨rfl, t, find?_mem found, rfl, asked⟩
  · rintro ⟨rfl, t, _, rfl, asked⟩
    exact asked

theorem mem_requests_of_found {s : Store} {r t : Record} {e : Require} (listed : e ∈ r.requires)
    (found : s.find? e.name (some e.kind) = some t) : (r.reference, t.uid) ∈ s.requests r :=
  List.mem_filterMap.mpr ⟨e, listed, by rw [request?, found, Option.map_some]⟩

theorem mem_linkedRequires {s : Store} {r t : Record} {e : Require} (listed : e ∈ r.requires)
    (found : s.find? e.name (some e.kind) = some t) :
    { e with item := some t.reference } ∈ s.linkedRequires r := by
  have kept : s.keeps e = true := by simp [keeps, found]
  rw [← answer_of_some found]
  exact List.mem_map_of_mem (List.mem_filter.mpr ⟨listed, kept⟩)

/-- An item stands where a record answered, and the request for that record was made. -/
theorem exists_linked_iff {s : Store} (placed : s.Placed) {r : Record} (blank : ∀ e ∈ r.requires, e.item = none)
    {item : Reference} :
    (∃ e ∈ s.linkedRequires r, e.item = some item) ↔
      ∃ t ∈ s.records, t.reference = item ∧ (r.reference, t.uid) ∈ s.requests r := by
  constructor
  · rintro ⟨_, linked, same⟩
    obtain ⟨e, kept, rfl⟩ := List.mem_map.mp linked
    have member := List.mem_of_mem_filter kept
    obtain ⟨t, found, rfl⟩ := (answer_item_iff (blank e member)).mp same
    exact ⟨t, find?_mem found, rfl, mem_requests_of_found member found⟩
  · rintro ⟨t, inside, rfl, asked⟩
    obtain ⟨e, member, asks⟩ := List.mem_filterMap.mp asked
    obtain ⟨t', found, same⟩ := Option.map_eq_some_iff.mp asks
    cases placed.eq_of_uid_eq (find?_mem found) inside (congrArg Prod.snd same)
    exact ⟨_, mem_linkedRequires member found, rfl⟩

namespace Settled

variable {s : Store} {l : Linking}

theorem known (settled : s.Settled l) :
    List.Forall₂ (fun r r' => r ∈ s.known ∧ r' ∈ l.store.known ∧ r.Counterpart r' ∧
      r'.requires = s.linkedRequires r) s.known l.store.known := by
  have kinds : List.Forall₂ (fun r r' => r' ∈ l.store.records ∧ r.Counterpart r')
      s.known l.store.known := by
    refine List.rel_filter ?_ settled.store.forall₂
    rintro r r' ⟨_, same⟩
    simp only [same.kind]
  refine ((List.forall₂_and_left _ _).mpr ⟨fun r member => member, kinds⟩).imp ?_
  rintro r r' ⟨member, inside, same⟩
  have kind : r'.kind ≠ .unknown := by
    rw [same.kind]
    exact kind_ne_of_known member
  refine ⟨member, List.mem_filter.mpr ⟨inside, by simpa using kind⟩, same, ?_⟩
  have placed := settled.store.placed Record.Counterpart.repeatable.uid settled.before
  rw [← settled.requires r member, ← same.2, requiresAt, placed.viewAt_uid inside]

variable (settled : s.Settled l)

include settled

theorem placed : l.store.Placed :=
  settled.store.placed Record.Counterpart.repeatable.uid settled.before

theorem usersAt_uid {t : Record} (member : t ∈ l.store.records) :
    l.store.usersAt t.uid = t.usedBy := settled.placed.viewAt_uid member

theorem exists_after {t : Record} (member : t ∈ s.records) :
    ∃ t' ∈ l.store.records, t.Counterpart t' := by
  obtain ⟨t', atUid, same⟩ := settled.store.getElem? (settled.before.records_uid member)
  exact ⟨t', List.mem_of_getElem? atUid, same⟩

theorem counterpart {t t' : Record} (before : t ∈ s.records) (after : t' ∈ l.store.records)
    (same : t.uid = t'.uid) : t.Counterpart t' := by
  have atUid := settled.before.records_uid before
  rw [same] at atUid
  exact settled.store.records _ t t' atUid (settled.placed.records_uid after)

theorem acyclic : l.store.usersAt.Acyclic :=
  settled.grows.acyclic (Users.acyclic_of_empty fun _ => rfl)

theorem answered (blank : ∀ r ∈ s.records, ∀ e ∈ r.requires, e.item = none) {r : Record}
    (member : r ∈ l.store.known) {e : Require} (listed : e ∈ r.requires) {item : Reference}
    (linked : e.item = some item) :
    ∃ t, l.store.at? item.uid = some t ∧ t.reference = item ∧
      Xor (.user r.reference ∈ t.usedBy) (l.store.Cut r t) := by
  obtain ⟨r₀, _, inside, _, same, requires⟩ := exists_of_forall₂ settled.known member
  rw [requires] at listed
  obtain ⟨t₀, found, rfl, asked⟩ := (exists_linked_iff settled.before
    (blank r₀ (mem_records_of_known inside))).mp ⟨e, listed, linked⟩
  obtain ⟨t, atT, sameT⟩ := settled.exists_after found
  refine ⟨t, ?_, sameT.reference, ?_⟩
  · rw [Record.reference, ← sameT.2]
    exact settled.placed.at?_uid atT
  · have decided := settled.grows.answered (List.mem_flatMap.mpr ⟨r₀, inside, asked⟩)
    rw [← same.reference, ← sameT.2, settled.usersAt_uid atT] at decided
    rcases decided with ⟨apart, user⟩ | ⟨path, cut⟩
    · exact Or.inl ⟨user, fun cut => apart cut.1⟩
    · refine Or.inr ⟨⟨path, cut⟩, fun user => settled.acyclic.not_leads path ?_⟩
      exact ⟨r.reference, (settled.usersAt_uid atT).symm ▸ user, rfl⟩

theorem origin (blank : ∀ r ∈ s.records, ∀ e ∈ r.requires, e.item = none) {t : Record}
    (member : t ∈ l.store.records) {u : Reference} (user : .user u ∈ t.usedBy) :
    ∃ r ∈ l.store.known, r.reference = u ∧ ∃ e ∈ r.requires, e.item = some t.reference := by
  rw [← settled.usersAt_uid member] at user
  rcases settled.grows.user_origin user with old | asked
  · cases old
  · obtain ⟨r₀, inside, asks⟩ := List.mem_flatMap.mp asked
    obtain ⟨rfl, t₀, found, uid, asks⟩ := mem_requests_iff.mp asks
    have sameT := settled.counterpart found member uid
    obtain ⟨r, inside', _, _, sameR, requires⟩ := exists_of_forall₂ settled.known.flip inside
    refine ⟨r, inside', sameR.reference, ?_⟩
    rw [requires]
    exact (exists_linked_iff settled.before (blank r₀ (mem_records_of_known inside))).mpr
      ⟨t₀, found, sameT.reference.symm, asks⟩

theorem cut_iff {r r' t : Record} (same : r.Counterpart r') (member : t ∈ l.store.records)
    (asked : (r.reference, t.uid) ∈ s.known.flatMap s.requests) :
    l.store.Cut r' t ↔ ReflTransGen l.store.usersAt.Leads r.uid t.uid := by
  rw [Cut, same.2]
  refine ⟨And.left, fun path => ⟨path, ?_⟩⟩
  rcases settled.grows.answered asked with ⟨apart, _⟩ | ⟨_, marked⟩
  · exact absurd path apart
  · rwa [settled.usersAt_uid member] at marked

theorem marks (blank : ∀ r ∈ s.records, ∀ e ∈ r.requires, e.item = none) {t : Record}
    (member : t ∈ l.store.records) :
    t.usedBy.count .circular = (l.store.known.map fun r => l.store.cuts r t).sum := by
  have marks := settled.grows.count_circular t.uid
  rw [settled.usersAt_uid member, List.count_nil, Nat.zero_add, List.countP_flatMap] at marks
  rw [marks]
  congr 1
  refine List.forall₂_eq_eq_eq ▸ List.forall₂_map_left_iff.mpr (List.forall₂_map_right_iff.mpr ?_)
  refine settled.known.imp ?_
  rintro r r' ⟨inside, _, same, requires⟩
  rw [cuts, requires, linkedRequires, List.countP_map, List.countP_filter, Function.comp_apply,
    requests, List.countP_filterMap]
  apply List.countP_congr
  intro e listed
  have empty := blank r (mem_records_of_known inside) e listed
  cases found : s.find? e.name (some e.kind) with
  | none => simp [request?, found, answer_of_none, keeps, empty]
  | some t₀ =>
    have asks : s.request? r e = some (r.reference, t₀.uid) := by
      rw [request?, found, Option.map_some]
    have asked : (r.reference, t₀.uid) ∈ s.known.flatMap s.requests :=
      List.mem_flatMap.mpr ⟨r, inside, mem_requests_of_found listed found⟩
    simp only [asks, answer_of_some found, keeps, found, Option.map_some, Option.getD_some,
      Function.comp_apply, Option.isSome_some, Bool.or_true, Bool.and_true, decide_eq_true_eq,
      Option.some.injEq]
    constructor
    · rintro ⟨uid, path⟩
      rw [uid] at asked path
      exact ⟨(settled.counterpart (find?_mem found) member uid).reference.symm,
        (settled.cut_iff same member asked).mpr path⟩
    · rintro ⟨reference, cut⟩
      have uid : t₀.uid = t.uid := congrArg Reference.uid reference
      rw [uid] at asked ⊢
      exact ⟨rfl, (settled.cut_iff same member asked).mp cut⟩

/-- The record that answers to a requirement becomes its item, and is used there or cut. -/
theorem answers (blank : ∀ r ∈ s.records, ∀ e ∈ r.requires, e.item = none) {r t : Record}
    (member : r ∈ s.known) {e : Require} (listed : e ∈ r.requires)
    (found : s.find? e.name (some e.kind) = some t) :
    ∃ r' ∈ l.store.known, ∃ t' ∈ l.store.records, r.Counterpart r' ∧ t.Counterpart t' ∧
      { e with item := some t.reference } ∈ r'.requires ∧
      Xor (.user r.reference ∈ t'.usedBy) (l.store.Cut r' t') := by
  obtain ⟨r', inside, _, _, sameR, requires⟩ := exists_of_forall₂ settled.known.flip member
  have linked : { e with item := some t.reference } ∈ r'.requires := by
    rw [requires]
    exact mem_linkedRequires listed found
  obtain ⟨t', atItem, reference, answered⟩ := settled.answered blank inside linked rfl
  rw [sameR.reference] at answered
  have sameT := settled.counterpart (find?_mem found) (at?_mem atItem)
    (congrArg Reference.uid reference).symm
  exact ⟨r', inside, t', at?_mem atItem, sameR, sameT, linked, answered⟩

/-- What records require in the end are the requests of the pass. -/
theorem needs_iff (blank : ∀ r ∈ s.records, ∀ e ∈ r.requires, e.item = none) {a b : Int} :
    l.store.Needs a b ↔ Users.Requests (s.known.flatMap s.requests) a b := by
  constructor
  · rintro ⟨r, member, rfl, e, listed, item, linked, rfl⟩
    obtain ⟨r₀, _, inside, _, same, requires⟩ := exists_of_forall₂ settled.known member
    rw [requires] at listed
    obtain ⟨t, _, rfl, asked⟩ := (exists_linked_iff settled.before
      (blank r₀ (mem_records_of_known inside))).mp ⟨e, listed, linked⟩
    exact ⟨r₀.reference, List.mem_flatMap.mpr ⟨r₀, inside, asked⟩, same.2.symm⟩
  · rintro ⟨u, asked, rfl⟩
    obtain ⟨r₀, inside, asks⟩ := List.mem_flatMap.mp asked
    obtain ⟨rfl, t, found, rfl, asks⟩ := mem_requests_iff.mp asks
    obtain ⟨r, member, _, _, same, requires⟩ := exists_of_forall₂ settled.known.flip inside
    obtain ⟨e, listed, linked⟩ := (exists_linked_iff settled.before
      (blank r₀ (mem_records_of_known inside))).mpr ⟨t, found, rfl, asks⟩
    exact ⟨r, member, same.2, e, requires ▸ listed, _, linked, rfl⟩

theorem reciprocal (blank : ∀ r ∈ s.records, ∀ e ∈ r.requires, e.item = none) :
    l.store.Reciprocal where
  answered _ member _ listed _ linked := settled.answered blank member listed linked
  origin _ member _ user := settled.origin blank member user
  once t member := by
    rw [← settled.usersAt_uid member]
    exact settled.grows.nodup (fun _ => List.nodup_nil) t.uid
  marks _ member := settled.marks blank member

end Settled

theorem forall_unlinked {m : ReferenceMatch} {rs : List Record} (unlinked : ∀ r ∈ rs, r.Unlinked) :
    ∀ r ∈ (ofRecords m rs).records, r.Unlinked := by
  refine forall_mem_ofRecords fun r member uid => ?_
  obtain ⟨users, clean, items⟩ := unlinked r member
  refine ⟨users, ?_, items⟩
  rw [Record.get?_settle_of_ne (by decide)]
  exact clean

variable {c : Config} {g : Registry} {m : ReferenceMatch} {strict : Bool} {rs : List Record}

/-- Records that are not linked yet, however they were added, are settled by linking that ends. -/
theorem settled_of_unlinked (unlinked : ∀ r ∈ rs, r.Unlinked)
    (ends : Linking.Ends ((ofRecords m rs).link (.builtin c) strict).2) :
    (ofRecords m rs).Settled ((ofRecords m rs).link (.builtin c) strict).1 := by
  refine link_settled (placed_ofRecords m rs) (fun r member => ?_) ends
  obtain ⟨users, clean, _⟩ := forall_unlinked unlinked r member
  exact ⟨users, clean⟩

theorem sound_of_unlinked (unlinked : ∀ r ∈ rs, r.Unlinked) (typed : ∀ r ∈ rs, r.Typed) :
    (ofRecords m rs).Sound := by
  have typed : ∀ r ∈ (ofRecords m rs).records, r.Typed :=
    forall_mem_ofRecords fun r member uid =>
      Record.Typed.settle (r := { r with uid := uid }) (typed r member) _
  refine fun r member => ⟨typed r member, fun u listed => ?_⟩
  rw [(forall_unlinked unlinked r member).1] at listed
  cases listed

/-- Linking of typed records that are not linked yet ends. -/
theorem ends_of_unlinked (unlinked : ∀ r ∈ rs, r.Unlinked) (typed : ∀ r ∈ rs, r.Typed) :
    Linking.Ends ((ofRecords m rs).link (.builtin c) strict).2 :=
  link_total (placed_ofRecords m rs) (sound_of_unlinked unlinked typed)
    (Linking.resolvesPointers_builtin c).resolvesTyped

/-- Requirements and users answer each other once linking has ended, which for typed records it
always does. -/
theorem link_reciprocal (m : ReferenceMatch) (strict : Bool)
    (standard : Registry.standard c [] = .ok g)
    (unlinked : ∀ r ∈ rs, r.Unlinked) :
    ((∀ r ∈ rs, r.Typed) → Linking.Ends ((ofRecords m rs).link g strict).2) ∧
      (Linking.Ends ((ofRecords m rs).link g strict).2 →
        ((ofRecords m rs).link g strict).1.store.Reciprocal) := by
  cases Except.ok.inj ((Registry.standard_nil c).symm.trans standard)
  refine ⟨ends_of_unlinked unlinked, fun ends => ?_⟩
  exact (settled_of_unlinked unlinked ends).reciprocal fun r member =>
    (forall_unlinked unlinked r member).2.2

/-- Two mixins that include each other. -/
def includers : List Record :=
  [{ context := { kind := .mixin, name := "open" }, file := ⟨"a.scss", "a.scss"⟩,
     requires := [{ name := "close", kind := .mixin }] },
   { context := { kind := .mixin, name := "close" }, file := ⟨"a.scss", "a.scss"⟩,
     requires := [{ name := "open", kind := .mixin }] }]

theorem link_reciprocal_includers :
    (∀ r ∈ includers, r.Unlinked ∧ r.Typed) ∧
      ((ofRecords .preferType includers).link (.builtin .default) false).1.store.Reciprocal := by
  have unlinked : ∀ r ∈ includers, r.Unlinked := by simp [includers, Record.Unlinked, Assoc.get?]
  have typed : ∀ r ∈ includers, r.Typed := by simp [includers, Record.Typed]
  obtain ⟨ends, reciprocal⟩ := link_reciprocal .preferType false
    (Registry.standard_nil .default) unlinked
  exact ⟨fun r member => ⟨unlinked r member, typed r member⟩, reciprocal (ends typed)⟩

/-- What is answered are the look-ups. A requirement for which a record is found before linking has it
as its item after, where the record is used or cut; and one record needs another in the end exactly
where a look-up of the one finds the other. -/
theorem link_answers (m : ReferenceMatch) (strict : Bool)
    (standard : Registry.standard c [] = .ok g)
    (unlinked : ∀ r ∈ rs, r.Unlinked)
    (ends : Linking.Ends ((ofRecords m rs).link g strict).2) :
    let s := ofRecords m rs
    let linked := (s.link g strict).1.store
    (∀ r ∈ s.known, ∀ e ∈ r.requires, ∀ t, s.find? e.name (some e.kind) = some t →
      ∃ r' ∈ linked.known, ∃ t' ∈ linked.records, r.Counterpart r' ∧ t.Counterpart t' ∧
        { e with item := some t.reference } ∈ r'.requires ∧
        Xor (.user r.reference ∈ t'.usedBy) (linked.Cut r' t')) ∧
      ∀ a b, linked.Needs a b ↔ ∃ r ∈ s.known, r.uid = a ∧ ∃ e ∈ r.requires, ∃ t,
        s.find? e.name (some e.kind) = some t ∧ t.uid = b := by
  intro s linked
  cases Except.ok.inj ((Registry.standard_nil c).symm.trans standard)
  have settled := settled_of_unlinked unlinked ends
  have blank : ∀ r ∈ s.records, ∀ e ∈ r.requires, e.item = none := fun r member =>
    (forall_unlinked unlinked r member).2.2
  refine ⟨fun r member e listed t found => settled.answers blank member listed found, fun a b => ?_⟩
  rw [settled.needs_iff blank]
  constructor
  · rintro ⟨u, asked, rfl⟩
    obtain ⟨r, member, asks⟩ := List.mem_flatMap.mp asked
    obtain ⟨e, listed, requested⟩ := List.mem_filterMap.mp asks
    obtain ⟨t, found, same⟩ := Option.map_eq_some_iff.mp requested
    obtain ⟨rfl, uid⟩ := Prod.mk.inj same
    exact ⟨r, member, rfl, e, listed, t, found, uid⟩
  · rintro ⟨r, member, rfl, e, listed, t, found, rfl⟩
    exact ⟨r.reference, List.mem_flatMap.mpr ⟨r, member, mem_requests_of_found listed found⟩, rfl⟩

/-- The users never go round in a circle, and a usage cycle is noted exactly when the requirements
do. -/
theorem link_acyclic (m : ReferenceMatch) (strict : Bool)
    (standard : Registry.standard c [] = .ok g)
    (unlinked : ∀ r ∈ rs, r.Unlinked) :
    ((∀ r ∈ rs, r.Typed) → Linking.Ends ((ofRecords m rs).link g strict).2) ∧
      (Linking.Ends ((ofRecords m rs).link g strict).2 →
        let l := ((ofRecords m rs).link g strict).1
        l.store.usersAt.Acyclic ∧
          ((∃ e ∈ l.events, e.IsUsageCycle) ↔ ∃ a, TransGen l.store.Needs a a)) := by
  cases Except.ok.inj ((Registry.standard_nil c).symm.trans standard)
  refine ⟨ends_of_unlinked unlinked, fun ends => ?_⟩
  have settled := settled_of_unlinked unlinked ends
  have needs : Needs ((ofRecords m rs).link (.builtin c) strict).1.store =
      Users.Requests ((ofRecords m rs).known.flatMap (ofRecords m rs).requests) := by
    funext a b
    exact propext (settled.needs_iff fun r member => (forall_unlinked unlinked r member).2.2)
  refine ⟨settled.acyclic, settled.notices.trans ?_⟩
  rw [settled.grows.circular_iff fun _ => rfl, needs]

theorem link_acyclic_includers :
    ((ofRecords .preferType includers).link (.builtin .default) false).1.store.usersAt.Acyclic := by
  have unlinked : ∀ r ∈ includers, r.Unlinked := by simp [includers, Record.Unlinked, Assoc.get?]
  have typed : ∀ r ∈ includers, r.Typed := by simp [includers, Record.Typed]
  obtain ⟨ends, acyclic⟩ := link_acyclic .preferType false
    (Registry.standard_nil .default) unlinked
  exact (acyclic (ends typed)).1

end Store

end SheetDoc
