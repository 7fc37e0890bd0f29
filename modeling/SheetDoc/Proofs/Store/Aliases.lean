import Mathlib.Data.List.Chain
import Mathlib.Logic.Relation
import SheetDoc.Proofs.Linking.Frame

namespace SheetDoc

open Relation

section Walk

variable {α : Type} {r : α → α → Prop} {a b c : α}

/-- A walk that has one way to go comes back to everything on a loop. -/
theorem back_of_loop (unique : Relator.RightUnique r) (loop : TransGen r a a)
    (path : ReflTransGen r a b) : ReflTransGen r b a := by
  induction path with
  | refl => exact ReflTransGen.refl
  | tail _ edge back =>
    obtain ⟨next, first, rest⟩ := TransGen.head'_iff.mp (loop.trans_right back)
    exact unique first edge ▸ rest

/-- What comes back is on the loop too. -/
theorem loop_of_back (loop : TransGen r a a) (path : ReflTransGen r a b) (back : ReflTransGen r b a) :
    TransGen r b b :=
  (loop.trans_right back).trans_left path

/-- A member of a chain leads to a member, unless it is the last one. -/
theorem next_of_chain (unique : Relator.RightUnique r) {l : List α} (chain : l.IsChain r)
    (member : a ∈ l) (edge : r a b) : l.getLast? = some a ∨ b ∈ l := by
  obtain ⟨front, rest, rfl⟩ := List.append_of_mem member
  cases rest with
  | nil => exact Or.inl (by simp)
  | cons c rest =>
    have step : r a c := (List.isChain_cons_cons.mp chain.right_of_append).1
    exact Or.inr (by simp [unique edge step])

/-- Where the last of a chain leads back to the first, the chain is what the first leads to. -/
theorem mem_loop_iff (unique : Relator.RightUnique r) {l : List α} (chain : (a :: l).IsChain r)
    {last : α} (ends : (a :: l).getLast? = some last) (closes : r last a) :
    b ∈ a :: l ↔ ReflTransGen r a b := by
  constructor
  · exact chain.induction _ _ (fun _ _ edge path => path.tail edge) (fun _ => ReflTransGen.refl) b
  · intro path
    induction path with
    | refl => exact List.mem_cons_self
    | tail _ edge inside =>
      rcases next_of_chain unique chain inside edge with final | later
      · cases Option.some.inj (ends.symm.trans final)
        exact unique closes edge ▸ List.mem_cons_self
      · exact later

end Walk

/-- The same construct at the same place with the same names that it is an alias of. -/
def Record.Unmoved (r r' : Record) : Prop := r.Sited r' ∧ r'.aliases = r.aliases

theorem Record.Unmoved.repeatable : Repeatable Unmoved where
  refl r := ⟨Sited.repeatable.refl r, rfl⟩
  trans _ _ _ first second :=
    ⟨Sited.repeatable.trans _ _ _ first.1 second.1, second.2.trans first.2⟩
  uid _ _ unmoved := unmoved.1.1.2

theorem Record.BackLinked.unmoved {r r' : Record} (linked : r.BackLinked r') : r.Unmoved r' := by
  obtain ⟨_, _, rfl, _⟩ := linked
  exact ⟨⟨⟨rfl, rfl⟩, rfl, rfl⟩, rfl⟩

theorem Record.Required.unmoved {r r' : Record} (required : r.Required r') : r.Unmoved r' := by
  obtain ⟨_, _, _, rfl⟩ := required
  exact ⟨⟨⟨rfl, rfl⟩, rfl, rfl⟩, rfl⟩

theorem Record.Pointed.unmoved {r r' : Record} (pointed : r.Pointed r') : r.Unmoved r' := by
  obtain ⟨_, rfl⟩ := pointed
  exact ⟨⟨⟨rfl, rfl⟩, rfl, rfl⟩, rfl⟩

namespace Store

/-- The first name of the record at an index leads to the record at another. -/
def Forwards (s : Store) (a b : Int) : Prop :=
  ∃ r ∈ s.records, r.uid = a ∧ ∃ t, s.aliasTarget? r = some t ∧ t.uid = b

/-- An alias at one index for the record at another closes a cycle: that record leads back to it
along first names, and it is on the loop itself. -/
def Closes (s : Store) (a b : Int) : Prop :=
  b = a ∨ ReflTransGen s.Forwards b a ∧ TransGen s.Forwards a a

variable {s s' : Store} {r r' t t' : Record}

theorem aliasTarget?_mem (found : s.aliasTarget? r = some t) : t ∈ s.records := by
  obtain ⟨_, _, found⟩ := Option.bind_eq_some_iff.mp found
  exact find?_mem found

theorem Placed.forwards_iff (placed : s.Placed) (member : r ∈ s.records) {b : Int} :
    s.Forwards r.uid b ↔ ∃ t, s.aliasTarget? r = some t ∧ t.uid = b := by
  constructor
  · rintro ⟨r', inside, same, target⟩
    cases placed.eq_of_uid_eq inside member same
    exact target
  · exact fun target => ⟨r, member, rfl, target⟩

theorem Placed.forwards_unique (placed : s.Placed) : Relator.RightUnique s.Forwards := by
  rintro _ _ _ ⟨r, member, rfl, t, found, rfl⟩ again
  obtain ⟨t', found', rfl⟩ := (placed.forwards_iff member).mp again
  cases Option.some.inj (found.symm.trans found')
  rfl

/-- From where a walk along aliases started there is no loop if it ends, and it fails with the loop
where there is one. -/
theorem Placed.followAlias (placed : s.Placed) {start : Int} (current : Record)
    (visited : List Int) (chain : List String) (member : current ∈ s.records)
    (first : start ∈ visited) (walked : visited.IsChain s.Forwards)
    (last : visited.getLast? = some current.uid) :
    (∃ t, s.followAlias current visited chain = .ok t ∧
        ∀ b, ReflTransGen s.Forwards start b → ¬TransGen s.Forwards b b) ∨
      ∃ names cycle, s.followAlias current visited chain = .error (.aliasCycle names cycle) ∧
        ∀ b, b ∈ cycle ↔ ReflTransGen s.Forwards start b ∧ TransGen s.Forwards b b := by
  have unique := placed.forwards_unique
  have onward : ReflTransGen s.Forwards start current.uid := by
    refine walked.backwards_induction (ReflTransGen s.Forwards · current.uid) visited
      (fun _ _ edge path => path.head edge) (fun filled => ?_) start first
    rw [List.getLast_eq_iff_getLast?_eq_some filled |>.mpr last]
  fun_induction Store.followAlias s current visited chain with
  | case1 current visited chain missing =>
    refine Or.inl ⟨current, rfl, fun b path loop => ?_⟩
    have stays : ∀ c, ¬s.Forwards current.uid c := by
      intro c edge
      obtain ⟨t, found, _⟩ := (placed.forwards_iff member).mp edge
      rw [missing] at found
      cases found
    have reached : ReflTransGen s.Forwards current.uid b := by
      rcases ReflTransGen.total_of_right_unique unique onward path with forth | back
      · exact forth
      · exact back_of_loop unique loop back
    rcases ReflTransGen.cases_head reached with rfl | ⟨c, edge, _⟩
    · obtain ⟨c, edge, _⟩ := TransGen.head'_iff.mp loop
      exact stays c edge
    · exact stays c edge
  | case2 current visited chain target found seen =>
    refine Or.inr ⟨_, _, rfl, fun b => ?_⟩
    obtain ⟨front, rest, rfl, fresh⟩ := List.eq_append_cons_of_mem (by simpa using seen)
    have loop : (front ++ target.uid :: rest).dropWhile (· != target.uid) = target.uid :: rest := by
      rw [List.dropWhile_append_of_pos]
      · simp
      · intro a inside
        simpa using fun same : a = target.uid => fresh (same ▸ inside)
    have edge : s.Forwards current.uid target.uid :=
      (placed.forwards_iff member).mpr ⟨target, found, rfl⟩
    have ends : (target.uid :: rest).getLast? = some current.uid := by
      rw [← last, List.getLast?_append_of_ne_nil _ (List.cons_ne_nil _ _)]
    have ring : ∀ b, b ∈ target.uid :: rest ↔ ReflTransGen s.Forwards target.uid b := fun b =>
      mem_loop_iff unique walked.right_of_append ends edge
    have around : TransGen s.Forwards target.uid target.uid :=
      TransGen.tail' ((ring current.uid).mp (List.mem_of_getLast? ends)) edge
    have reached := onward.tail edge
    rw [loop, ring]
    constructor
    · intro path
      exact ⟨reached.trans path, loop_of_back around path (back_of_loop unique around path)⟩
    · rintro ⟨path, own⟩
      rcases ReflTransGen.total_of_right_unique unique reached path with forth | back
      · exact forth
      · exact back_of_loop unique own back
  | case3 current visited chain target found fresh ih =>
    have edge : s.Forwards current.uid target.uid :=
      (placed.forwards_iff member).mpr ⟨target, found, rfl⟩
    refine ih (aliasTarget?_mem found) (List.mem_append_left _ first) ?_ (by simp)
      (onward.tail edge)
    refine List.isChain_append.mpr ⟨walked, .singleton _, fun a ends b next => ?_⟩
    cases Option.some.inj (last.symm.trans ends)
    cases next
    exact edge

/-- A notice is due exactly where an alias closes a cycle. -/
theorem Placed.aliasCycle?_isSome_iff (placed : s.Placed) (target : t ∈ s.records) :
    (Linking.aliasCycle? s r t).isSome = true ↔ s.Closes r.uid t.uid := by
  unfold Linking.aliasCycle?
  by_cases same : t.uid = r.uid
  · simp [same, Closes]
  · rw [if_neg same, Store.resolveAlias, Closes, or_iff_right same]
    rcases placed.followAlias t [t.uid] [t.name] target (List.mem_singleton_self _) (.singleton _) rfl
      with ⟨u, ends, straight⟩ | ⟨names, cycle, stops, ring⟩
    · rw [ends]
      exact iff_of_false (by simp) fun ⟨path, loop⟩ => straight r.uid path loop
    · rw [stops, ← ring]
      by_cases inside : r.uid ∈ cycle <;> simp [inside]

theorem Evolves.aliasTarget?_none (e : s.Evolves Record.Unmoved s') (same : r.Unmoved r')
    (missing : s.aliasTarget? r = none) : s'.aliasTarget? r' = none := by
  unfold Store.aliasTarget? at missing ⊢
  rw [same.2, same.1.1.kind]
  cases first : r.aliases.head? with
  | none => rfl
  | some name =>
    rw [first] at missing
    exact e.find?_none missing

/-- Aliases lead where they led as long as records keep their names and places. -/
theorem Evolves.aliasTarget? (e : s.Evolves Record.Unmoved s') (same : r.Unmoved r')
    (found : s.aliasTarget? r = some t) : ∃ t', s'.aliasTarget? r' = some t' ∧ t.Unmoved t' := by
  obtain ⟨name, first, found⟩ := Option.bind_eq_some_iff.mp found
  obtain ⟨t', found', same'⟩ := e.find? found
  refine ⟨t', Option.bind_eq_some_iff.mpr ⟨name, same.2 ▸ first, ?_⟩, same'⟩
  rw [same.1.1.kind]
  exact found'

theorem Evolves.followAlias (e : s.Evolves Record.Unmoved s') (same : r.Unmoved r')
    (visited : List Int) (chain : List String) :
    (s'.followAlias r' visited chain).map (·.uid) = (s.followAlias r visited chain).map (·.uid) := by
  fun_induction Store.followAlias s r visited chain generalizing r' with
  | case1 r visited chain missing =>
    have missing' := e.aliasTarget?_none same missing
    rw [Store.followAlias]
    split
    · exact congrArg Except.ok same.1.1.2
    · rename_i found
      cases missing'.symm.trans found
  | case2 r visited chain t found seen =>
    obtain ⟨t', found', same'⟩ := e.aliasTarget? same found
    rw [Store.followAlias]
    split
    · rename_i missing
      cases missing.symm.trans found'
    · rename_i found''
      cases Option.some.inj (found'.symm.trans found'')
      rw [same'.1.1.2, same'.1.1.name, dif_pos seen]
  | case3 r visited chain t found fresh ih =>
    obtain ⟨t', found', same'⟩ := e.aliasTarget? same found
    rw [Store.followAlias]
    split
    · rename_i missing
      cases missing.symm.trans found'
    · rename_i found''
      cases Option.some.inj (found'.symm.trans found'')
      rw [same'.1.1.2, same'.1.1.name, dif_neg fresh]
      exact ih same'

/-- Cycles of aliases stay what they are as long as records keep their names and places. -/
theorem Evolves.aliasCycle? (e : s.Evolves Record.Unmoved s') (source : r.Unmoved r')
    (target : t.Unmoved t') : Linking.aliasCycle? s' r' t' = Linking.aliasCycle? s r t := by
  have follows := e.followAlias target [t.uid] [t.name]
  unfold Linking.aliasCycle? Store.resolveAlias
  rw [source.1.1.2, target.1.1.2, source.1.1.name, target.1.1.name]
  rcases map_eq_map follows with ⟨_, _, ends', ends, _⟩ | ⟨_, stops', stops⟩
  · rw [ends, ends']
  · rw [stops, stops']

end Store

end SheetDoc
