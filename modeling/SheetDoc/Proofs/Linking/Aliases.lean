import SheetDoc.Proofs.Linking.Problems
import SheetDoc.Proofs.Store.Aliases
import SheetDoc.Proofs.Store.Index

namespace SheetDoc

open Relation

/-- The back-links of every record, by its index. -/
abbrev Backs := Int → List Reference

namespace Backs

/-- A back-link more, where it is not there yet. -/
def note (g : Backs) (link : Reference × Int) : Backs := fun a =>
  if a = link.2 ∧ link.1 ∉ g a then g a ++ [link.1] else g a

/-- One index has the other among its back-links. -/
def Leads (g : Backs) (a b : Int) : Prop := ∃ u ∈ g a, u.uid = b

variable {g : Backs} {link : Reference × Int} {links : List (Reference × Int)} {u : Reference} {a : Int}

theorem mem_note : u ∈ g.note link a ↔ u ∈ g a ∨ (u, a) = link := by
  obtain ⟨v, b⟩ := link
  unfold note
  by_cases here : a = b
  · subst here
    by_cases known : v ∈ g a
    · simp only [known, not_true_eq_false, and_false, if_false, Prod.mk.injEq, and_true]
      refine ⟨Or.inl, fun either => either.elim id fun same => same ▸ known⟩
    · simp [known]
  · simp [here]

theorem note_of_mem (known : link.1 ∈ g link.2) : g.note link = g := by
  funext a
  unfold note
  split
  · rename_i fresh
    obtain ⟨rfl, fresh⟩ := fresh
    exact absurd known fresh
  · rfl

theorem mem_foldl_note : u ∈ links.foldl note g a ↔ u ∈ g a ∨ (u, a) ∈ links := by
  induction links generalizing g with
  | nil => simp
  | cons link rest ih => rw [List.foldl_cons, ih, mem_note, or_assoc, List.mem_cons]

theorem foldl_note_of_mem (known : ∀ link ∈ links, link.1 ∈ g link.2) : links.foldl note g = g := by
  induction links with
  | nil => rfl
  | cons link rest ih =>
    rw [List.foldl_cons, note_of_mem (known link List.mem_cons_self)]
    exact ih fun later inside => known later (List.mem_cons_of_mem link inside)

/-- What is noted once is not noted again. -/
theorem foldl_note_idem (links : List (Reference × Int)) (g : Backs) :
    links.foldl note (links.foldl note g) = links.foldl note g :=
  foldl_note_of_mem fun _ member => mem_foldl_note.mpr (Or.inr member)

end Backs

namespace Store

/-- The back-links of the record at an index. -/
def aliasedAt (s : Store) : Backs := s.viewAt (·.aliased)

/-- The names that some records are aliases of, as linking meets them. -/
abbrev Names := List (Record × String)

def Names.ofRecords (rs : List Record) : Names := rs.flatMap fun r => r.aliases.map (r, ·)

/-- The notice of the cycle that a name closes. -/
def aliasNotice? (s : Store) (r : Record) (name : String) : Option Event :=
  (s.find? name (some r.kind)).bind fun t =>
    (Linking.aliasCycle? s r t).map fun chain =>
      r.remark
        ("Item `" ++ r.name ++ "` is part of an alias cycle: " ++ (Data.texts chain).literal)

/-- What linking a name tells. -/
def aliasTells (s : Store) (w : Record × String) : List Event :=
  (s.aliasProblem? w.1 w.2).toList ++ (s.aliasNotice? w.1 w.2).toList

/-- The back-link of a name, with the index that it belongs to. -/
def aliasLink? (s : Store) (w : Record × String) : Option (Reference × Int) :=
  (s.find? w.2 (some w.1.kind)).bind fun t =>
    if (Linking.aliasCycle? s w.1 t).isSome then none else some (w.1.reference, t.uid)

def aliasLinks (s : Store) (names : Names) : List (Reference × Int) := names.filterMap s.aliasLink?

variable {s s' : Store} {r r' t : Record} {name : String}

theorem aliasedAt_modify (placed : s.Placed) (member : t ∈ s.records) (u : Reference) :
    (s.modify t.uid fun _ =>
        { t with aliased := if u ∈ t.aliased then t.aliased else t.aliased ++ [u] }).aliasedAt =
      s.aliasedAt.note (u, t.uid) := by
  funext a
  rw [aliasedAt, viewAt_modify _ _ (placed.uid_nonneg member), Backs.note]
  by_cases here : a = t.uid
  · subst here
    rw [if_pos rfl, placed.records_uid member, aliasedAt, placed.viewAt_uid member]
    by_cases known : u ∈ t.aliased <;> simp [known]
  · rw [if_neg here, if_neg fun both => here both.1, aliasedAt]

/-- The graph of aliases: a known record at an index has a name that leads to the other. -/
def Aliases (s : Store) (a b : Int) : Prop :=
  ∃ r ∈ s.known, r.uid = a ∧ ∃ name ∈ r.aliases, ∃ t, s.find? name (some r.kind) = some t ∧ t.uid = b

end Store

namespace Linking

variable {s : Store} {names : Store.Names} {l l' : Linking} {r t t' : Record} {name : String}

theorem any_same_reference {u : Reference} {us : List Reference} :
    (us.map Item.reference).any (Item.same (.reference u)) = true ↔ u ∈ us := by
  simp [List.any_map, List.any_eq_true, Item.same]

/-- A back-link is added once. -/
theorem addAliased_of_clean (clean : t.strays.get? .aliased = none)
    (done : addAliased r t = .ok t') :
    t' = { t with
      aliased := if r.reference ∈ t.aliased then t.aliased else t.aliased ++ [r.reference] } := by
  obtain ⟨reference, refers, done⟩ := bind_eq_ok.mp done
  obtain ⟨_, _, refers⟩ := bind_eq_ok.mp refers
  obtain ⟨_, _, refers⟩ := bind_eq_ok.mp refers
  cases refers
  have listed : holds r.reference .aliased (t.aliased.map .reference) t =
      .ok ((t.aliased.map Item.reference).any (Item.same (.reference r.reference))) := by
    simp only [holds, Record.strayValue?, Record.tail, clean, List.append_nil]
  obtain ⟨inside, found, done⟩ := bind_eq_ok.mp done
  cases Except.ok.inj (listed.symm.trans found)
  split at done
  · rename_i known
    cases done
    rw [if_pos (any_same_reference.mp known)]
  · rename_i fresh
    rw [if_neg fun known => fresh (any_same_reference.mpr known)]
    simp only [Record.adding, Record.holdsList, Record.strayValue?, Record.tail, clean] at done
    exact (Except.ok.inj done).symm

/-- Where the pass over the aliases of a store stands after some names. -/
structure AliasPass (s : Store) (names : Store.Names) (l : Linking) : Prop where
  store : s.Evolves Record.BackLinked l.store
  clean : ∀ r ∈ l.store.records, r.strays.get? .aliased = none
  backs : l.store.aliasedAt = (s.aliasLinks names).foldl Backs.note s.aliasedAt
  events : l.events = names.flatMap s.aliasTells

theorem AliasPass.start (clean : ∀ r ∈ s.records, r.strays.get? .aliased = none) :
    AliasPass s [] { store := s } :=
  ⟨.refl Record.BackLinked.repeatable.refl s, clean, rfl, rfl⟩

/-- A name that gives no back-link is told about. -/
theorem AliasPass.tell (pass : AliasPass s names l) {e : Event} (same : l'.store = l.store)
    (events : l'.events = l.events ++ [e]) (unlinked : s.aliasLink? (r, name) = none)
    (told : s.aliasTells (r, name) = [e]) : AliasPass s (names ++ [(r, name)]) l' := by
  refine ⟨same ▸ pass.store, same ▸ pass.clean, ?_, ?_⟩
  · rw [same, pass.backs, Store.aliasLinks, Store.aliasLinks, List.filterMap_append,
      List.filterMap_cons_none unlinked, List.filterMap_nil, List.append_nil]
  · rw [events, pass.events, List.flatMap_append, List.flatMap_singleton, told]

theorem AliasPass.linkAlias (placed : s.Placed) (pass : AliasPass s names l)
    (done : linkAlias r name l = (l', none)) : AliasPass s (names ++ [(r, name)]) l' := by
  have placed' := pass.store.placed Record.BackLinked.repeatable.uid placed
  unfold Linking.linkAlias at done
  cases found : s.find? name (some r.kind) with
  | none =>
    rw [pass.store.find?_none found] at done
    cases problem_complaint done
    refine pass.tell rfl rfl ?_ ?_
    · simp [Store.aliasLink?, found]
    · simp [Store.aliasTells, Store.aliasProblem?, Store.aliasNotice?, found]
  | some t =>
    obtain ⟨t', found', linked⟩ := pass.store.find? found
    have unmoved := pass.store.mono fun _ _ linked => linked.unmoved
    rw [found'] at done
    simp only [unmoved.aliasCycle? (Record.Unmoved.repeatable.refl r) linked.unmoved] at done
    cases cycle : aliasCycle? s r t with
    | some chain =>
      rw [cycle] at done
      cases notice_remark done
      refine pass.tell rfl rfl ?_ ?_
      · simp [Store.aliasLink?, found, cycle]
      · simp [Store.aliasTells, Store.aliasProblem?, Store.aliasNotice?, found, cycle]
    | none =>
      rw [cycle] at done
      have inside := Store.find?_mem found'
      simp only [change_of_mem placed' inside] at done
      split at done
      · cases done
      · rename_i changed added
        cases done
        have told : s.aliasTells (r, name) = [] := by
          simp [Store.aliasTells, Store.aliasProblem?, Store.aliasNotice?, found, cycle]
        have link : s.aliasLink? (r, name) = some (r.reference, t'.uid) := by
          simp [Store.aliasLink?, found, cycle, linked.counterpart.2]
        cases addAliased_of_clean (pass.clean t' inside) added
        refine ⟨?_, ?_, ?_, ?_⟩
        · refine pass.store.trans Record.BackLinked.repeatable.trans (.modify
            Record.BackLinked.repeatable.refl fun q atUid => ?_)
          rw [placed'.records_uid inside] at atUid
          cases atUid
          exact addAliased_ok added
        · exact forall_mem_modify pass.clean fun _ _ => pass.clean t' inside
        · simp only [modify]
          rw [Store.aliasedAt_modify placed' inside, pass.backs, Store.aliasLinks, Store.aliasLinks,
            List.filterMap_append, List.filterMap_cons_some link, List.filterMap_nil,
            List.foldl_append, List.foldl_cons, List.foldl_nil]
        · rw [List.flatMap_append, List.flatMap_singleton, told, List.append_nil]
          exact pass.events

theorem AliasPass.linkAliases (placed : s.Placed) (pass : AliasPass s names l) {rs : List Record}
    (done : linkAliases rs l = (l', none)) : AliasPass s (names ++ .ofRecords rs) l' := by
  refine eachUntil_extends (P := AliasPass s) (fun r _ front l l' pass done => ?_) pass done
  have each : eachUntil (Linking.linkAlias r) r.aliases l = (l', none) := by
    unfold linkRecordAliases at done
    split at done
    · split at done
      · cases done
      · exact done
    · exact done
  rw [List.map_eq_flatMap]
  exact eachUntil_extends (P := AliasPass s) (fun _ _ _ _ _ pass done => pass.linkAlias placed done)
    pass each

end Linking

namespace Store

variable {s : Store} {names : Names} {l : Linking} {r t : Record} {name : String} {a b : Int}

theorem mem_ofRecords {rs : List Record} :
    (r, name) ∈ Names.ofRecords rs ↔ r ∈ rs ∧ name ∈ r.aliases := by
  simp [Names.ofRecords]

theorem Placed.mem_aliasLinks (placed : s.Placed) (member : r ∈ s.known) (named : name ∈ r.aliases)
    (found : s.find? name (some r.kind) = some t) :
    (r.reference, t.uid) ∈ s.aliasLinks (.ofRecords s.known) ↔ ¬s.Closes r.uid t.uid := by
  rw [← placed.aliasCycle?_isSome_iff (find?_mem found)]
  constructor
  · intro listed
    obtain ⟨⟨q, other⟩, inside, link⟩ := List.mem_filterMap.mp listed
    obtain ⟨u, found', link⟩ := Option.bind_eq_some_iff.mp link
    split at link
    · cases link
    · rename_i open'
      obtain ⟨reference, target⟩ := Prod.mk.inj (Option.some.inj link)
      cases placed.eq_of_uid_eq (mem_records_of_known (mem_ofRecords.mp inside).1)
        (mem_records_of_known member) (congrArg Reference.uid reference)
      cases placed.eq_of_uid_eq (find?_mem found') (find?_mem found) target
      exact open'
  · intro open'
    refine List.mem_filterMap.mpr ⟨(r, name), mem_ofRecords.mpr ⟨member, named⟩, ?_⟩
    simp [aliasLink?, found, open']

theorem aliases_of_mem_aliasLinks {u : Reference}
    (listed : (u, b) ∈ s.aliasLinks (.ofRecords s.known)) :
    ∃ r ∈ s.known, r.reference = u ∧ s.Aliases r.uid b := by
  obtain ⟨⟨r, name⟩, inside, link⟩ := List.mem_filterMap.mp listed
  obtain ⟨member, named⟩ := mem_ofRecords.mp inside
  obtain ⟨t, found, link⟩ := Option.bind_eq_some_iff.mp link
  split at link
  · cases link
  · cases link
    exact ⟨r, member, rfl, r, member, rfl, name, named, t, found, rfl⟩

/-- A walk along first names is one along names, from a known record on. -/
theorem Indexed.aliases_of_forwards (indexed : s.Indexed) (placed : s.Placed) (member : r ∈ s.known)
    (path : ReflTransGen s.Forwards r.uid b) : ReflTransGen s.Aliases r.uid b := by
  have known : ReflTransGen s.Aliases r.uid b ∧ ∃ t ∈ s.known, t.uid = b := by
    induction path with
    | refl => exact ⟨ReflTransGen.refl, r, member, rfl⟩
    | tail _ edge ih =>
      obtain ⟨path, t, inside, rfl⟩ := ih
      obtain ⟨u, target, rfl⟩ := (placed.forwards_iff (mem_records_of_known inside)).mp edge
      obtain ⟨name, first, found⟩ := Option.bind_eq_some_iff.mp target
      have named : name ∈ t.aliases := List.mem_of_head? first
      refine ⟨path.tail ⟨t, inside, rfl, name, named, u, found, rfl⟩, u, ?_, rfl⟩
      exact List.mem_filter.mpr ⟨find?_mem found, by simpa using (indexed.find? found).2.1⟩
  exact known.1

/-- An alias that closes a cycle leads back to its record. -/
theorem Indexed.back_of_closes (indexed : s.Indexed) (placed : s.Placed) (edge : s.Aliases a b)
    (closes : s.Closes a b) : ReflTransGen s.Aliases b a := by
  rcases closes with rfl | ⟨back, _⟩
  · exact ReflTransGen.refl
  · obtain ⟨r, _, _, name, _, t, found, rfl⟩ := edge
    have known : t ∈ s.known :=
      List.mem_filter.mpr ⟨find?_mem found, by simpa using (indexed.find? found).2.1⟩
    exact indexed.aliases_of_forwards placed known back

/-- No known record is an alias of more than one name. -/
def Single (s : Store) : Prop := ∀ r ∈ s.known, r.aliases.length ≤ 1

theorem Single.forwards (single : s.Single) (edge : s.Aliases a b) : s.Forwards a b := by
  obtain ⟨r, member, rfl, name, named, t, found, rfl⟩ := edge
  obtain ⟨only, same⟩ := List.length_eq_one_iff.mp
    (Nat.le_antisymm (single r member) (List.length_pos_of_mem named))
  rw [same] at named
  cases List.mem_singleton.mp named
  refine ⟨r, mem_records_of_known member, rfl, t, ?_, rfl⟩
  rw [aliasTarget?, same]
  exact found

/-- Where no record has more than one alias, an alias closes a cycle exactly when it leads back. -/
theorem Single.closes_iff (single : s.Single) (indexed : s.Indexed) (placed : s.Placed)
    (edge : s.Aliases a b) : s.Closes a b ↔ ReflTransGen s.Aliases b a := by
  refine ⟨indexed.back_of_closes placed edge, fun back => ?_⟩
  have back : ReflTransGen s.Forwards b a :=
    ReflTransGen.mono (fun _ _ => single.forwards) b a back
  exact Or.inr ⟨back, TransGen.head' (single.forwards edge) back⟩

/-- The back-links that linking leaves: one for every alias but those that close a cycle, of which a
notice tells. -/
structure BackLinked (s : Store) (l : Linking) : Prop where
  linked : ∀ r ∈ s.known, ∀ b, s.Aliases r.uid b →
    (r.reference ∈ l.store.aliasedAt b ↔ ¬s.Closes r.uid b)
  origin : ∀ b, ∀ u ∈ l.store.aliasedAt b, ∃ r ∈ s.known, r.reference = u ∧ s.Aliases r.uid b
  noted : ∀ r ∈ s.known, ∀ b, s.Aliases r.uid b → s.Closes r.uid b → ∃ chain,
    r.remark ("Item `" ++ r.name ++ "` is part of an alias cycle: " ++ (Data.texts chain).literal) ∈
      l.events
  back : ∀ a b, s.Aliases a b → s.Closes a b → ReflTransGen s.Aliases b a

/-- Where every alias that leads back is left out, back-links do not go round. -/
theorem BackLinked.acyclic (linked : s.BackLinked l)
    (exact : ∀ a b, s.Aliases a b → ReflTransGen s.Aliases b a → s.Closes a b) (a : Int) :
    ¬TransGen l.store.aliasedAt.Leads a a := by
  have reversed : ∀ a b, l.store.aliasedAt.Leads a b → s.Aliases b a := by
    rintro a _ ⟨u, listed, rfl⟩
    obtain ⟨r, _, rfl, edge⟩ := linked.origin a u listed
    exact edge
  intro loop
  obtain ⟨b, ⟨u, listed, rfl⟩, rest⟩ := TransGen.head'_iff.mp loop
  obtain ⟨r, member, rfl, edge⟩ := linked.origin a u listed
  have back : ReflTransGen s.Aliases a r.uid :=
    reflTransGen_swap.mp (ReflTransGen.mono reversed _ _ rest)
  exact (linked.linked r member a edge).mp listed (exact _ _ edge back)

section

variable {c : Config} {g : Registry} {strict : Bool} {aliased required resolved : Linking}

theorem LinkedBy.aliasPass (linked : s.LinkedBy g aliased required resolved) (placed : s.Placed)
    (clean : ∀ r ∈ s.records, r.strays.get? .aliased = none) :
    Linking.AliasPass s (.ofRecords s.known) aliased :=
  (Linking.AliasPass.start clean).linkAliases placed linked.aliases

/-- Nothing but the pass over the aliases changes back-links. -/
theorem LinkedBy.aliasedAt_resolved (linked : s.LinkedBy (.builtin c) aliased required resolved)
    (placed : s.Placed) : resolved.store.aliasedAt = aliased.store.aliasedAt := by
  rw [aliasedAt, linked.viewAt_resolved placed (Linking.resolvesPointers_builtin c) _ fun _ _ => rfl]
  refine funext ((linked.requirePhase placed).store.viewAt ?_)
  rintro r _ ⟨_, _, _, rfl⟩
  rfl

theorem link_backLinked (placed : s.Placed) (indexed : s.Indexed)
    (unaliased : ∀ r ∈ s.records, r.aliased = [] ∧ r.strays.get? .aliased = none)
    (ends : Linking.Ends (s.link (.builtin c) strict).2) :
    s.BackLinked (s.link (.builtin c) strict).1 := by
  obtain ⟨aliased, required, resolved, linked, store, more, fatal, _⟩ := link_ends ends
  have pass := linked.aliasPass placed fun r member => (unaliased r member).2
  have empty : ∀ a, s.aliasedAt a = [] := by
    intro a
    rw [List.eq_nil_iff_forall_not_mem]
    intro u listed
    obtain ⟨r, member, _, known⟩ := exists_of_mem_viewAt placed listed
    rw [(unaliased r member).1] at known
    cases known
  have backs : ∀ b u, u ∈ (s.link (.builtin c) strict).1.store.aliasedAt b ↔
      (u, b) ∈ s.aliasLinks (.ofRecords s.known) := by
    intro b u
    rw [store, linked.aliasedAt_resolved placed, pass.backs, Backs.mem_foldl_note, empty]
    simp
  refine ⟨?_, fun b u listed => aliases_of_mem_aliasLinks ((backs b u).mp listed), ?_,
    fun a b => indexed.back_of_closes placed⟩
  · rintro r member b ⟨r', member', same, name, named, t, found, rfl⟩
    cases placed.eq_of_uid_eq (mem_records_of_known member') (mem_records_of_known member) same
    rw [backs, placed.mem_aliasLinks member named found]
  · rintro r member b ⟨r', member', same, name, named, t, found, rfl⟩ closes
    cases placed.eq_of_uid_eq (mem_records_of_known member') (mem_records_of_known member) same
    obtain ⟨chain, cycle⟩ := Option.isSome_iff_exists.mp
      ((placed.aliasCycle?_isSome_iff (find?_mem found)).mpr closes)
    have told : r.remark ("Item `" ++ r.name ++ "` is part of an alias cycle: " ++
        (Data.texts chain).literal) ∈ aliased.events := by
      rw [pass.events]
      refine List.mem_flatMap.mpr ⟨(r, name), mem_ofRecords.mpr ⟨member, named⟩, ?_⟩
      simp [aliasTells, aliasNotice?, found, cycle]
    obtain ⟨_, requires, _⟩ := (linked.requirePhase placed).events
    obtain ⟨_, pointers, _⟩ :=
      (linked.pointerPhase placed (Linking.resolvesPointers_builtin c)).events
    refine ⟨chain, ?_⟩
    rw [fatal, pointers, requires]
    simp [told]

end

variable {c : Config} {g : Registry} {rs : List Record}

/-- Linking gives every alias its back-link, but for those that close a cycle along first names.
Where no record has more than one alias these are the ones that lead back, and the graph of
back-links has no loop. -/
theorem link_aliases (m : ReferenceMatch) (strict : Bool)
    (standard : Registry.standard c [] = .ok g)
    (unaliased : ∀ r ∈ rs, r.aliased = [] ∧ r.strays.get? .aliased = none) :
    let s := ofRecords m rs
    let linked := s.link g strict
    (s.Sound → Linking.Ends linked.2) ∧
      (Linking.Ends linked.2 → s.BackLinked linked.1 ∧
        (s.Single → (∀ a b, s.Aliases a b → (s.Closes a b ↔ ReflTransGen s.Aliases b a)) ∧
          ∀ a, ¬TransGen linked.1.store.aliasedAt.Leads a a)) := by
  intro s linked
  cases Except.ok.inj ((Registry.standard_nil c).symm.trans standard)
  have placed : s.Placed := placed_ofRecords m rs
  have indexed : s.Indexed := indexed_ofRecords m rs
  have clean : ∀ r ∈ s.records, r.aliased = [] ∧ r.strays.get? .aliased = none :=
    forall_mem_ofRecords fun r member uid =>
      ⟨(unaliased r member).1, (Record.get?_settle_of_ne (by decide) _).trans (unaliased r member).2⟩
  refine ⟨fun sound => link_total placed sound
    (Linking.resolvesPointers_builtin c).resolvesTyped, fun ends => ?_⟩
  have linked := link_backLinked placed indexed clean ends
  refine ⟨linked, fun single => ?_⟩
  have exact := fun a b => single.closes_iff indexed placed (a := a) (b := b)
  exact ⟨exact, linked.acyclic fun a b edge back => (exact a b edge).mpr back⟩

/-- Two functions that are aliases of each other, one of them of a third one first. -/
def forked : List Record :=
  [{ context := { kind := .function, name := "a" }, file := ⟨"a.scss", "a.scss"⟩, aliases := ["b"] },
   { context := { kind := .function, name := "b" }, file := ⟨"a.scss", "a.scss"⟩,
     aliases := ["c", "a"] },
   { context := { kind := .function, name := "c" }, file := ⟨"a.scss", "a.scss"⟩ }]

theorem link_aliases_forked :
    (∀ r ∈ forked, r.aliased = [] ∧ r.strays.get? .aliased = none) ∧
      (ofRecords .preferType forked).BackLinked
        ((ofRecords .preferType forked).link (.builtin .default) false).1 := by
  have unaliased : ∀ r ∈ forked, r.aliased = [] ∧ r.strays.get? .aliased = none := by
    simp [forked, Assoc.get?]
  have unlinked : ∀ r ∈ forked, r.Unlinked := by simp [forked, Record.Unlinked, Assoc.get?]
  have typed : ∀ r ∈ forked, r.Typed := by simp [forked, Record.Typed]
  obtain ⟨ends, linked⟩ :=
    link_aliases .preferType false (Registry.standard_nil .default) unaliased
  exact ⟨unaliased, (linked (ends (sound_of_unlinked unlinked typed))).1⟩

/-- Only first names are followed: a cycle through a later one is not seen, and the back-links go
round. -/
theorem loop_of_forked :
    (∀ r ∈ forked, r.aliased = [] ∧ r.Typed) ∧
      let s := ofRecords .preferType forked
      let l := (s.link (.builtin .default) false).1
      s.Aliases 0 1 ∧ s.Aliases 1 0 ∧ ⟨0, .function, "a"⟩ ∈ l.store.aliasedAt 1 ∧
        ⟨1, .function, "b"⟩ ∈ l.store.aliasedAt 0 ∧ TransGen l.store.aliasedAt.Leads 0 0 ∧
        l.events = [] := by
  have back : ⟨0, .function, "a"⟩ ∈
      ((ofRecords .preferType forked).link (.builtin .default) false).1.store.aliasedAt 1 := by
    decide +kernel
  have forth : ⟨1, .function, "b"⟩ ∈
      ((ofRecords .preferType forked).link (.builtin .default) false).1.store.aliasedAt 0 := by
    decide +kernel
  refine ⟨by simp [forked, Record.Typed], ?_, ?_, back, forth,
    .head ⟨_, forth, rfl⟩ (.single ⟨_, back, rfl⟩), by decide +kernel⟩
  · exact ⟨_, List.mem_cons_self, rfl, "b", List.mem_cons_self, _, rfl, rfl⟩
  · exact ⟨_, List.mem_cons_of_mem _ List.mem_cons_self, rfl, "a",
      List.mem_cons_of_mem _ List.mem_cons_self, _, rfl, rfl⟩

end Store

end SheetDoc
