import Mathlib.Data.List.Forall2
import SheetDoc.Proofs.Linking.Problems
import SheetDoc.Proofs.Linking.References
import SheetDoc.Proofs.Linking.UsageTree

namespace SheetDoc

/-- A requirement as it was, or given an item. -/
def Require.Given (e e' : Require) : Prop := e' = e ∨ ∃ u, e' = { e with item := some u }

/-- A pointer as it was, or given an item, and a kind where it has none. -/
def See.Given (e e' : See) : Prop :=
  e' = e ∨ ∃ u k, e' = { e with item := some u, kind := some (e.kind.getD k) }

theorem Require.Given.trans {e e' e'' : Require} (first : e.Given e') (second : e'.Given e'') :
    e.Given e'' := by
  rcases first with rfl | ⟨u, rfl⟩
  · exact second
  · rcases second with rfl | ⟨v, rfl⟩
    · exact Or.inr ⟨u, rfl⟩
    · exact Or.inr ⟨v, rfl⟩

theorem See.Given.trans {e e' e'' : See} (first : e.Given e') (second : e'.Given e'') :
    e.Given e'' := by
  rcases first with rfl | ⟨u, k, rfl⟩
  · exact second
  · rcases second with rfl | ⟨v, _, rfl⟩
    · exact Or.inr ⟨u, k, rfl⟩
    · exact Or.inr ⟨v, k, rfl⟩

namespace Record

variable {r r' r'' : Record} {f : Field}

/-- A list field is extended at its end, as far as its values are of its type and on the whole. What
stands in place of a list stays, and nothing of another type comes in. -/
structure Extended {α : Type} (f : Field) (view : Record → List α) (r r' : Record) : Prop where
  own : view r <+: view r'
  list : ∀ items, r.read f = .ok (.list items) → ∃ more, r'.read f = .ok (.list (items ++ more))
  other : (∀ items, r.read f ≠ .ok (.list items)) → r'.read f = r.read f
  holds : r.Holds f → r'.Holds f

theorem Extended.trans {α : Type} {view : Record → List α} (first : r.Extended f view r')
    (second : r'.Extended f view r'') : r.Extended f view r'' where
  own := first.own.trans second.own
  list items listed := by
    obtain ⟨more, listed'⟩ := first.list items listed
    obtain ⟨more', listed''⟩ := second.list _ listed'
    exact ⟨more ++ more', by rw [listed'', List.append_assoc]⟩
  other unlisted := by
    have same := first.other unlisted
    exact (second.other (same ▸ unlisted)).trans same
  holds := second.holds ∘ first.holds

theorem Extended.of_eq {α : Type} {view : Record → List α} (own : view r' = view r)
    (read : r'.read f = r.read f) (holds : r.Holds f → r'.Holds f) : r.Extended f view r' where
  own := own ▸ List.prefix_rfl
  list items listed := ⟨[], by rw [read, listed, List.append_nil]⟩
  other _ := read
  holds := holds

theorem read_of_own {items : List Item} (value : r.strayValue? f = none)
    (own : r.own f = .ok (.list items)) : r.read f = .ok (.list (items ++ r.tail f)) := by
  unfold strayValue? at value
  unfold read tail
  cases stray : r.strays.get? f with
  | none => simp only [own, List.append_nil]
  | some there =>
    cases there with
    | value v => simp [stray] at value
    | tail others =>
      simp only [own]
      rfl

/-- To add to a list is to extend it: the values of its type, or what follows them. -/
theorem adding_cases {item : Item} {add : Record → Record} (done : r.adding f item add = .ok r') :
    r.strayValue? f = none ∧ (r.tail f = [] ∧ r' = add r ∨
      r.tail f ≠ [] ∧ r' = r.setStray f (.tail (r.tail f ++ [item]))) := by
  obtain ⟨_, held, done⟩ := bind_eq_ok.mp done
  have value : r.strayValue? f = none := by
    unfold holdsList at held
    split at held
    · cases held
    · assumption
  refine ⟨value, ?_⟩
  split at done
  · rename_i none
    exact Or.inl ⟨none, (Except.ok.inj done).symm⟩
  · rename_i others
    exact Or.inr ⟨others, (Except.ok.inj done).symm⟩

theorem get?_setStray (stray : Stray) (r : Record) : (r.setStray f stray).strays.get? f = some stray := by
  rw [setStray, Assoc.get?_set, if_pos (beq_self_eq_true f)]

theorem tail_setStray (items : List Item) (r : Record) : (r.setStray f (.tail items)).tail f = items := by
  simp only [tail, get?_setStray]

theorem tail_of_holds (holds : r.Holds f) : r.tail f = [] := by
  simp only [tail, show r.strays.get? f = none from holds]

/-- To add to another field changes nothing here. -/
theorem Extended.of_adding_elsewhere {α : Type} {view : Record → List α} {f' : Field} {item : Item}
    {add : Record → Record} (done : r.adding f' item add = .ok r') (other : f ≠ f')
    (same : r.Extended f view (add r)) (blind : ∀ stray, view (r.setStray f' stray) = view r)
    (own : ∀ stray, (r.setStray f' stray).own f = r.own f) : r.Extended f view r' := by
  obtain ⟨_, ⟨_, rfl⟩ | ⟨_, rfl⟩⟩ := adding_cases done
  · exact same
  · have stays := get?_setStray_of_ne other (.tail (r.tail f' ++ [item])) r
    exact .of_eq (blind _) (by simp only [read, stays, own]) stays.trans

/-- To add an entry is to extend the values of the type of the field, or what follows them. -/
theorem Extended.of_adding {α : Type} {view : Record → List α} {item : α → Item} {entry : α}
    {add : Record → Record} (done : r.adding f (item entry) add = .ok r')
    (own : ∀ r : Record, r.own f = .ok (.list ((view r).map item)))
    (adds : view (add r) = view r ++ [entry]) (strays : (add r).strays = r.strays)
    (blind : ∀ stray, view (r.setStray f stray) = view r) : r.Extended f view r' := by
  obtain ⟨value, ⟨last, rfl⟩ | ⟨further, rfl⟩⟩ := adding_cases done
  · have value' : (add r).strayValue? f = none := by rwa [strayValue?, strays]
    have last' : (add r).tail f = [] := by rwa [tail, strays]
    refine ⟨adds ▸ List.prefix_append .., fun items listed => ⟨[item entry], ?_⟩,
      fun unlisted => absurd (read_of_own value (own r)) (unlisted _), fun holds => ?_⟩
    · rw [read_of_own value (own r), last, List.append_nil] at listed
      cases listed
      rw [read_of_own value' (own _), last', adds, List.map_append, List.append_nil]
      rfl
    · rwa [Holds, strays]
  · have value' : (r.setStray f (.tail (r.tail f ++ [item entry]))).strayValue? f = none := by
      simp only [strayValue?, get?_setStray]
    refine ⟨blind _ ▸ List.prefix_rfl, fun items listed => ⟨[item entry], ?_⟩,
      fun unlisted => absurd (read_of_own value (own r)) (unlisted _),
      fun holds => absurd (tail_of_holds holds) further⟩
    rw [read_of_own value (own r)] at listed
    cases listed
    rw [read_of_own value' (own _), tail_setStray, blind, List.append_assoc]

/-- What linking does to a record of a known kind. -/
structure Relinked (r r' : Record) : Prop where
  rest : r' = { r with
    aliased := r'.aliased
    usedBy := r'.usedBy
    requires := r'.requires
    sees := r'.sees
    strays := r'.strays }
  aliased : r.Extended .aliased (·.aliased) r'
  usedBy : r.Extended .usedBy (·.usedBy) r'
  /-- Some requirements are left, and these may be given an item. -/
  requires : List.SublistForall₂ (fun e' e => Require.Given e e') r'.requires r.requires
  sees : List.Forall₂ See.Given r.sees r'.sees
  /-- Values of other types stay in their places, as do the values behind requirements. -/
  strays : ∀ f, f ≠ .aliased → f ≠ .usedBy →
    r'.strays.get? f = r.strays.get? f ∨
      f = .require ∧ r.flaw .require "name" = .ok () ∧ r'.Holds .require

/-- What linking does to a record. -/
def Touched (r r' : Record) : Prop := if r.kind = .unknown then r' = r else r.Relinked r'

namespace Relinked

theorem kind (linked : r.Relinked r') : r'.kind = r.kind := by
  rw [linked.rest]
  rfl

theorem uid (linked : r.Relinked r') : r'.uid = r.uid := by
  rw [linked.rest]

/-- Requirements that can be gone through still can be. -/
theorem flaw (linked : r.Relinked r') (sound : r.flaw .require "name" = .ok ()) :
    r'.flaw .require "name" = .ok () := by
  rcases linked.strays .require (by decide) (by decide) with same | ⟨_, _, settled⟩
  · rw [Record.flaw] at sound ⊢
    rwa [same]
  · exact Holds.flaw settled "name"

theorem refl (r : Record) : r.Relinked r where
  rest := rfl
  aliased := .of_eq rfl rfl id
  usedBy := .of_eq rfl rfl id
  requires := List.sublistForall₂_iff.mpr ⟨_, List.forall₂_same.mpr fun _ _ => Or.inl rfl, .refl _⟩
  sees := List.forall₂_same.mpr fun _ _ => Or.inl rfl
  strays _ _ _ := Or.inl rfl

theorem trans (first : r.Relinked r') (second : r'.Relinked r'') : r.Relinked r'' where
  rest := second.rest.trans (by rw [first.rest])
  aliased := first.aliased.trans second.aliased
  usedBy := first.usedBy.trans second.usedBy
  requires := by
    have given : IsTrans Require fun e' e => Require.Given e e' :=
      ⟨fun _ _ _ later before => before.trans later⟩
    exact IsTrans.trans _ _ _ second.requires first.requires
  sees := (forall₂_comp first.sees second.sees).imp fun _ _ ⟨_, before, later⟩ => before.trans later
  strays f notAliased notUsedBy := by
    rcases second.strays f notAliased notUsedBy with same | ⟨rfl, sound, settled⟩
    · rcases first.strays f notAliased notUsedBy with same' | ⟨rfl, sound, settled⟩
      · exact Or.inl (same.trans same')
      · exact Or.inr ⟨rfl, sound, same.trans settled⟩
    · rcases first.strays .require notAliased notUsedBy with same' | ⟨_, sound', _⟩
      · refine Or.inr ⟨rfl, ?_, settled⟩
        rw [Record.flaw] at sound ⊢
        rwa [same'] at sound
      · exact Or.inr ⟨rfl, sound', settled⟩

end Relinked

theorem Touched.relinked (touched : r.Touched r') : r.Relinked r' := by
  unfold Touched at touched
  split at touched
  · exact touched ▸ .refl r
  · exact touched

theorem touched_of_relinked (known : r.kind ≠ .unknown) (linked : r.Relinked r') : r.Touched r' := by
  rw [Touched, if_neg known]
  exact linked

theorem Touched.repeatable : Repeatable Touched where
  refl r := by
    unfold Touched
    split
    · rfl
    · exact .refl r
  trans a b c first second := by
    by_cases unknown : a.kind = .unknown
    · rw [Touched, if_pos unknown] at first
      exact first ▸ second
    · exact touched_of_relinked unknown (first.relinked.trans second.relinked)
  uid _ _ touched := touched.relinked.uid

/-- To add an entry to the back-links of a record or to its users is to relink it. -/
theorem relinked_of_adding {item : Item} {add : Record → Record} (done : r.adding f item add = .ok r')
    (back : f = .aliased ∨ f = .usedBy)
    (adds : ∃ aliased users, add r = { r with aliased := aliased, usedBy := users })
    (aliased : r.Extended .aliased (·.aliased) r') (usedBy : r.Extended .usedBy (·.usedBy) r') :
    r.Relinked r' := by
  obtain ⟨_, ⟨_, rfl⟩ | ⟨_, rfl⟩⟩ := adding_cases done
  · obtain ⟨_, _, added⟩ := adds
    rw [added] at aliased usedBy ⊢
    exact { Relinked.refl r with rest := rfl, aliased := aliased, usedBy := usedBy }
  · refine { Relinked.refl r with
      rest := rfl, aliased := aliased, usedBy := usedBy, strays := fun f' notAliased notUsedBy => ?_ }
    refine Or.inl (get?_setStray_of_ne ?_ _ r)
    rintro rfl
    exact back.elim notAliased notUsedBy

theorem relinked_of_usedBy (entry : Usage)
    (done : r.adding .usedBy (.ofUsage entry)
      (fun t => { t with usedBy := t.usedBy ++ [entry] }) = .ok r') : r.Relinked r' :=
  relinked_of_adding done (Or.inr rfl) ⟨_, _, rfl⟩
    (.of_adding_elsewhere done (by decide) (.of_eq rfl rfl id) (fun _ => rfl) fun _ => rfl)
    (.of_adding done (fun _ => rfl) rfl rfl fun _ => rfl)

end Record

namespace Linking

variable {r t t' : Record}

theorem relinked_addAliased (done : addAliased r t = .ok t') : t.Relinked t' := by
  obtain ⟨reference, _, done⟩ := bind_eq_ok.mp done
  obtain ⟨inside, _, done⟩ := bind_eq_ok.mp done
  split at done
  · cases done
    exact .refl t
  · exact Record.relinked_of_adding done (Or.inl rfl) ⟨_, _, rfl⟩
      (.of_adding done (fun _ => rfl) rfl rfl fun _ => rfl)
      (.of_adding_elsewhere done (by decide) (.of_eq rfl rfl id) (fun _ => rfl) fun _ => rfl)

theorem relinked_addCircular (done : addCircular t = .ok t') : t.Relinked t' :=
  Record.relinked_of_usedBy .circular done

theorem relinked_addUser (done : addUser r t = .ok t') : t.Relinked t' := by
  obtain ⟨user, _, done⟩ := bind_eq_ok.mp done
  obtain ⟨inside, _, done⟩ := bind_eq_ok.mp done
  split at done
  · cases done
    exact .refl t
  · exact Record.relinked_of_usedBy (.user user) done

/-- A requirement at any place is given its item. -/
theorem relinked_setItem (index : Nat) (item : Reference) (r : Record) :
    r.Relinked (setItem index item r) := by
  have given : List.Forall₂ (fun e' e => Require.Given e e') (setItem index item r).requires
      r.requires := by
    refine List.forall₂_iff_get.mpr ⟨List.length_modify .., fun i _ _ => ?_⟩
    simp only [setItem, List.get_eq_getElem, List.getElem_modify]
    split
    · exact Or.inr ⟨item, rfl⟩
    · exact Or.inl rfl
  exact { Record.Relinked.refl r with
    rest := rfl
    aliased := .of_eq rfl rfl id
    usedBy := .of_eq rfl rfl id
    requires := List.sublistForall₂_iff.mpr ⟨_, given, .refl _⟩ }

/-- Requirements are dropped only where nothing is behind them. -/
theorem relinked_drop (s : Store) (sound : t.flaw .require "name" = .ok ()) :
    t.Relinked ((dropUnfound s t).settle .require) := by
  have stays : ∀ {f : Field}, f ≠ .require →
      ((dropUnfound s t).settle .require).strays.get? f = t.strays.get? f :=
    fun other => Record.get?_settle_of_ne other _
  have settled : ((dropUnfound s t).settle .require).Holds .require := by
    rw [Record.Holds, Record.settle, Assoc.get?_erase, if_pos (beq_self_eq_true _)]
  have aliased := stays (f := .aliased) (by decide)
  have usedBy := stays (f := .usedBy) (by decide)
  have kept : List.Forall₂ (fun e' e => Require.Given e e') (dropUnfound s t).requires
      (dropUnfound s t).requires := List.forall₂_same.mpr fun _ _ => Or.inl rfl
  refine { Record.Relinked.refl t with
    rest := rfl
    aliased := .of_eq rfl (by simp only [Record.read, aliased]; rfl) aliased.trans
    usedBy := .of_eq rfl (by simp only [Record.read, usedBy]; rfl) usedBy.trans
    requires := List.sublistForall₂_iff.mpr ⟨_, kept, List.filter_sublist⟩
    strays := fun f _ _ => ?_ }
  by_cases here : f = .require
  · exact Or.inr ⟨here, sound, settled⟩
  · exact Or.inl (stays here)

theorem given_resolveEach (s : Store) (r : Record) (sees : List See) :
    List.Forall₂ See.Given sees (Tag.resolveEach s r sees).1 := by
  induction sees with
  | nil => exact .nil
  | cons e rest ih =>
    rw [Tag.resolveEach]
    cases resolved : Tag.resolveSee s r e with
    | error fault => exact List.forall₂_same.mpr fun _ _ => Or.inl rfl
    | ok found =>
      obtain ⟨e', messages⟩ := found
      refine .cons ?_ ih
      unfold Tag.resolveSee at resolved
      split at resolved
      · obtain ⟨_, _, done⟩ := bind_eq_ok.mp resolved
        cases done
        exact Or.inl rfl
      · obtain ⟨reference, _, done⟩ := bind_eq_ok.mp resolved
        cases done
        exact Or.inr ⟨reference, _, rfl⟩

theorem relinked_resolveSees (s : Store) (r : Record) : r.Relinked (Tag.resolveSees s r).1 :=
  { Record.Relinked.refl r with
    rest := rfl
    aliased := .of_eq rfl rfl id
    usedBy := .of_eq rfl rfl id
    sees := given_resolveEach s r r.sees }

/-- Where linking stands that only touches records, in a store that look-ups lead right in. -/
structure Touches (s : Store) (l : Linking) : Prop where
  placed : s.Placed
  indexed : s.Indexed
  evolves : s.Evolves Record.Touched l.store

variable {s : Store} {l : Linking} {uid : Int} {c : Config}

section

variable (touches : Touches s l)

include touches

/-- What stands at the index of a known record is that record, relinked. -/
theorem Touches.origin (known : uid ∈ s.known.map (·.uid))
    (atUid : l.store.records[uid.toNat]? = some t) : ∃ r ∈ s.known, r.uid = uid ∧ r.Relinked t := by
  obtain ⟨r, member, rfl⟩ := List.mem_map.mp known
  obtain ⟨r', before, touched⟩ := touches.evolves.getElem?_of_after atUid
  rw [touches.placed.records_uid (Store.mem_records_of_known member)] at before
  cases before
  exact ⟨r, member, rfl, touched.relinked⟩

/-- Look-ups only lead to known records. -/
theorem Touches.known_of_find? {name : String} {kind : Option Kind}
    (found : l.store.find? name kind = some t) : t.uid ∈ s.known.map (·.uid) := by
  have answers := touches.evolves.find?_isSome name kind
  rw [found] at answers
  obtain ⟨r, before⟩ := Option.isSome_iff_exists.mp answers.symm
  obtain ⟨t', found', touched⟩ := touches.evolves.find? before
  cases found.symm.trans found'
  have known := (touches.indexed.find? before).2.1
  exact List.mem_map.mpr ⟨r, Store.mem_known_iff.mpr ⟨Store.find?_mem before, known⟩,
    touched.relinked.uid.symm⟩

/-- A record may be changed as linking does it at the index of a known one. -/
theorem Touches.modify (known : uid ∈ s.known.map (·.uid)) {f : Record → Record}
    (relinked : ∀ t, l.store.records[uid.toNat]? = some t → t.Relinked (f t)) :
    Touches s (l.modify uid f) := by
  have repeatable := Record.Touched.repeatable
  refine ⟨touches.placed, touches.indexed, touches.evolves.trans repeatable.trans ?_⟩
  refine .modify repeatable.refl fun t atUid => ?_
  obtain ⟨r, member, _, before⟩ := touches.origin known atUid
  exact Record.touched_of_relinked (before.kind ▸ Store.kind_ne_of_known member) (relinked t atUid)

theorem Touches.of_store_eq {l' : Linking} (same : l'.store = l.store) : Touches s l' :=
  ⟨touches.placed, touches.indexed, same ▸ touches.evolves⟩

theorem touches_change (known : uid ∈ s.known.map (·.uid)) {f : Record → Except Misuse Record}
    (relinked : ∀ t t', f t = .ok t' → t.Relinked t') : Touches s (change uid f l).1 := by
  have nonneg := touches.placed.nonneg_of_known uid known
  unfold change
  cases atUid : l.store.at? uid with
  | none => exact touches
  | some t =>
    simp only [Option.map_some]
    cases done : f t with
    | error fault => exact touches
    | ok t' =>
      refine touches.modify known fun t₀ atT => ?_
      rw [Store.at?, if_pos nonneg, atT] at atUid
      cases atUid
      exact relinked t t' done

theorem touches_linkAlias (r : Record) (name : String) : Touches s (linkAlias r name l).1 := by
  unfold linkAlias
  split
  · exact touches.of_store_eq (store_problem r _ l)
  · rename_i target found
    split
    · exact touches.of_store_eq (store_notice r _ l)
    · exact touches_change touches (touches.known_of_find? found) fun _ _ => relinked_addAliased

theorem touches_linkRecordAliases (r : Record) : Touches s (linkRecordAliases r l).1 := by
  have each : Touches s (eachUntil (linkAlias r) r.aliases l).1 :=
    eachUntil_keeps (P := Touches s) (fun name _ l touches => touches_linkAlias touches r name) touches
  unfold linkRecordAliases
  split
  · split
    · exact touches
    · exact each
  · exact each

theorem touches_linkTarget (r : Record) (known : t.uid ∈ s.known.map (·.uid)) :
    Touches s (linkTarget r t l).1 := by
  unfold linkTarget
  split
  · exact touches
  · exact andThen_keeps (touches_change touches known fun _ _ => relinked_addCircular)
      fun l touches => touches.of_store_eq (store_notice r _ l)
  · exact touches_change touches known fun _ _ => relinked_addUser

theorem touches_linkRequire (known : r.uid ∈ s.known.map (·.uid)) (entry : Require × Nat) :
    Touches s (linkRequire r entry l).1 := by
  unfold linkRequire
  simp only
  split
  · split
    · exact touches
    · exact touches.of_store_eq (store_problem r _ l)
  · rename_i target found
    split
    · exact touches
    · rename_i reference _
      have marked : Touches s (l.modify r.uid (setItem entry.2 reference)) :=
        touches.modify known fun _ _ => relinked_setItem _ _ _
      exact touches_linkTarget marked r (touches.known_of_find? found)

/-- The requirements of a record are looked at as they were at first, and dropped from what they have
become since. -/
theorem touches_linkRecord (known : r ∈ s.known) : Touches s (linkRecord r l).1 := by
  have listed : r.uid ∈ s.known.map (·.uid) := List.mem_map_of_mem known
  refine andThen_keeps (eachUntil_keeps (P := Touches s)
    (fun entry _ l touches => touches_linkRequire touches listed entry) touches) fun l touches => ?_
  split
  · exact touches
  · rename_i sound
    refine touches.modify listed fun t atUid => relinked_drop _ ?_
    obtain ⟨r', member, same, linked⟩ := touches.origin listed atUid
    cases touches.placed.eq_of_uid_eq (Store.mem_records_of_known member)
      (Store.mem_records_of_known known) same
    exact linked.flaw sound

theorem touches_resolveRecord (known : uid ∈ s.known.map (·.uid)) :
    Touches s (resolveRecord Tag.see Tag.resolveSees uid l).1 := by
  have nonneg := touches.placed.nonneg_of_known uid known
  unfold resolveRecord
  cases atUid : l.store.at? uid with
  | none => exact touches
  | some r =>
    have linked : Touches s (l.modify uid fun _ => (Tag.resolveSees l.store r).1) := by
      refine touches.modify known fun t atT => ?_
      rw [Store.at?, if_pos nonneg, atT] at atUid
      cases atUid
      exact relinked_resolveSees l.store r
    simp only
    split
    · exact linked.of_store_eq (store_problem _ _ _)
    · exact eachUntil_keeps (P := Touches s)
        (fun message _ l touches => touches.of_store_eq (store_problem _ _ _)) linked

end

/-- Linking only touches records, wherever it comes to an end. -/
theorem touches_link (placed : s.Placed) (indexed : s.Indexed) (strict : Bool) :
    Touches s (s.link (.builtin c) strict).1 := by
  have start : Touches s { store := s } := ⟨placed, indexed, .refl Record.Touched.repeatable.refl s⟩
  have aliased : Touches s (linkAliases s.known { store := s }).1 :=
    eachUntil_keeps (P := Touches s) (fun r _ l touches => touches_linkRecordAliases touches r) start
  refine andThen_keeps (andThen_keeps (andThen_keeps aliased fun l touches => ?_)
    fun l touches => ?_) fun l touches => ?_
  · exact eachUntil_keeps (P := Touches s)
      (fun r known l touches => touches_linkRecord touches known) touches
  · rw [resolveAll_builtin]
    exact eachUntil_keeps (P := Touches s)
      (fun uid known l touches => touches_resolveRecord touches known) touches
  · refine touches.of_store_eq ?_
    unfold escalate
    split <;> rfl

/-- Look-ups lead to the same places. -/
theorem Touches.findByWord?_uid (touches : Touches s l) (name : String) (word : Option String) :
    (l.store.findByWord? name word).map (·.uid) = (s.findByWord? name word).map (·.uid) := by
  have finds : ∀ kind, (l.store.find? name kind).map (·.uid) = (s.find? name kind).map (·.uid) := by
    intro kind
    cases found : s.find? name kind with
    | none => rw [touches.evolves.find?_none found]
    | some t =>
      obtain ⟨t', found', touched⟩ := touches.evolves.find? found
      rw [found', Option.map_some, Option.map_some, touched.relinked.uid]
  unfold Store.findByWord?
  split
  · exact finds none
  · split
    · exact finds _
    · rw [touches.evolves.referenceMatch]
      split
      · rfl
      · exact finds none

end Linking

namespace Store

variable {c : Config} {g : Registry}

/-- Linking changes links and nothing else, whether it comes to an end or fails. The records keep their
places, every look-up leads to the same one, constructs of unknown kind are left alone, and of the
others only links are touched. -/
theorem link_touched (m : ReferenceMatch) (rs : List Record) (described : Assoc String String)
    (strict : Bool) (standard : Registry.standard c [] = .ok g) :
    let s : Store := { ofRecords m rs with groupDescriptions := described }
    let linked := (s.link g strict).1.store
    linked.records.map (·.uid) = s.records.map (·.uid) ∧
      (∀ name word,
        (linked.findByWord? name word).map (·.uid) = (s.findByWord? name word).map (·.uid)) ∧
      linked.groupDescriptions = described ∧
      List.Forall₂ (fun r r' => if r.kind = .unknown then r' = r else r.Relinked r')
        s.records linked.records := by
  intro s linked
  cases Except.ok.inj ((Registry.standard_nil c).symm.trans standard)
  have indexed := indexed_ofRecords m rs
  have touches : Linking.Touches s (s.link (.builtin c) strict).1 :=
    Linking.touches_link (s := s) (placed_ofRecords m rs) ⟨indexed.byKey, indexed.byName⟩ strict
  have related : List.Forall₂ Record.Touched s.records linked.records :=
    touches.evolves.forall₂.imp fun _ _ both => both.2
  refine ⟨?_, touches.findByWord?_uid, touches.evolves.groupDescriptions, related⟩
  have same : List.Forall₂ (fun r' r : Record => r'.uid = r.uid) linked.records s.records :=
    (related.imp fun _ _ touched => touched.relinked.uid).flip
  exact List.forall₂_eq_eq_eq ▸ List.forall₂_map_left_iff.mpr (List.forall₂_map_right_iff.mpr same)

/-- A strict run fails on the names that are not there, and the unknown construct is as it was. -/
theorem link_touched_passage :
    let linked := (ofRecords .preferType [passage, seeker]).link (.builtin .default) true
    linked.2.isSome ∧ linked.1.store.records.map (·.uid) = [0, 1] ∧
      linked.1.store.records[0]? = some { passage with uid := 0 } := by
  intro linked
  obtain ⟨uids, _, _, related⟩ :=
    link_touched .preferType [passage, seeker] [] true (Registry.standard_nil .default)
  change List.Forall₂ _ [{ passage with uid := 0 }, { seeker with uid := 1 }] linked.1.store.records
    at related
  obtain ⟨r', rest, first, _, records⟩ := List.forall₂_cons_left_iff.mp related
  have unknown : ({ passage with uid := 0 } : Record).kind = .unknown := rfl
  rw [if_pos unknown] at first
  exact ⟨rfl, uids, by rw [records, first]; rfl⟩

end Store

end SheetDoc
