import Mathlib.Data.List.TakeWhile
import SheetDoc.Proofs.Data.Merge
import SheetDoc.Proofs.Tag.Standard

namespace SheetDoc

/-- What a registry is asked for: to take a tag under a name, to take tags under their own names, or
to take no more. -/
inductive Request
  | tag (name : String) (a : Tag)
  | tags (given : List Tag)
  | freeze

namespace Request

def apply (g : Registry) : Request → Registry × Option RegistryFault
  | tag name a => g.register name a
  | tags given => Registry.registerAll given g
  | freeze => (g.freeze, none)

/-- The tags that are to be registered, each with the name for it. -/
def entries : Request → List (String × Tag)
  | tag name a => [(name, a)]
  | tags given => given.map fun a => (a.name, a)
  | freeze => []

end Request

namespace Registry

/-- A registry after some requests, whether or not it has granted them. -/
def asked (g : Registry) (requests : List Request) : Registry :=
  requests.foldl (fun g r => (r.apply g).1) g

/-- A registry grants each of the requests in turn. -/
def Grants (g : Registry) : List Request → Prop
  | [] => True
  | r :: rest => (r.apply g).2 = none ∧ Grants (r.apply g).1 rest

/-- Whether a tag can be registered under a name, as far as the name is concerned. -/
def admits (g : Registry) (name : String) : Bool := !g.frozen && !g.owners.has name

/-- The words that a registration lets lead to the name: the other names of the tag, up to the first
that is the name of a tag. -/
def claimedBy (g : Registry) (name : String) (a : Tag) : List String :=
  if g.admits name then a.aliases.takeWhile (!g.tags.has ·) else []

/-- The words that a registration takes from the tag that has had the name so far. -/
def releasedBy (g : Registry) (name : String) : List String :=
  if g.admits name then ((g.tags.get? name).map (·.aliases)).getD [] else []

/-- Why a registration is refused. -/
def refusal? (g : Registry) (name : String) (a : Tag) : Option RegistryFault :=
  if g.frozen then some (.frozen name)
  else
    match g.owners.get? name with
    | some owner => some (.nameIsAlias name owner)
    | none => (a.aliases.find? (g.tags.has ·)).map (RegistryFault.aliasIsName · name)

/-- The other names as a registration leaves them. -/
def reowned (g : Registry) (name : String) (a : Tag) : Assoc String String :=
  (g.claimedBy name a).foldl (fun m word => m.set word name)
    ((g.releasedBy name).foldl Assoc.erase g.owners)

variable {g : Registry} {name word owner : String} {a : Tag} {fault : RegistryFault}

/-- Words are claimed up to the first that is the name of a tag, and this one is refused. -/
theorem claimNames_eq (g : Registry) (owner : String) (words : List String) :
    claimNames owner words g =
      ({ g with owners :=
          (words.takeWhile (!g.tags.has ·)).foldl (fun m word => m.set word owner) g.owners },
        (words.find? (g.tags.has ·)).map (RegistryFault.aliasIsName · owner)) := by
  induction words generalizing g with
  | nil => rfl
  | cons word rest ih =>
    rw [claimNames, claimName]
    by_cases taken : g.tags.has word = true
    · simp [taken]
    · simp [taken, ih]

theorem releaseNames_eq (g : Registry) (name : String) :
    g.releaseNames name = { g with owners :=
      (((g.tags.get? name).map (·.aliases)).getD []).foldl Assoc.erase g.owners } := by
  unfold releaseNames
  cases g.tags.get? name <;> rfl

/-- A registration moves other names, whether or not it is refused, and puts the tag into the registry
unless it is. -/
theorem register_eq (g : Registry) (name : String) (a : Tag) :
    g.register name a =
      ({ g with
          tags := if (g.refusal? name a).isNone then g.tags.set name { a with name := name } else g.tags
          owners := g.reowned name a },
        g.refusal? name a) := by
  obtain ⟨tags, owners, frozen⟩ := g
  unfold register refusal? reowned claimedBy releasedBy admits
  cases frozen with
  | true => simp
  | false =>
    cases owned : owners.get? name with
    | some owner => simp [Assoc.has, owned]
    | none =>
      rw [releaseNames_eq, claimNames_eq]
      cases taken : a.aliases.find? (tags.has ·) <;> simp [Assoc.has, owned]

/-- A registration is granted under a name that leads to no other tag, where none of the other names
is the name of a tag. -/
theorem refusal?_eq_none_iff :
    g.refusal? name a = none ↔ g.admits name = true ∧ ∀ word ∈ a.aliases, g.tags.has word = false := by
  unfold refusal? admits
  by_cases frozen : g.frozen = true
  · simp [frozen]
  · cases owned : g.owners.get? name <;> simp [frozen, Assoc.has, owned]

/-- No name of a tag is claimed. -/
theorem mem_claimedBy (member : word ∈ g.claimedBy name a) :
    word ∈ a.aliases ∧ g.tags.has word = false := by
  unfold claimedBy at member
  split at member
  · exact ⟨(List.takeWhile_sublist _).subset member, by simpa using List.mem_takeWhile_imp member⟩
  · cases member

theorem owners_get?_claims (m : Assoc String String) (owner : String) (words : List String)
    (word : String) :
    (words.foldl (fun m word => m.set word owner) m).get? word =
      if word ∈ words then some owner else m.get? word := by
  induction words generalizing m with
  | nil => rfl
  | cons w rest ih =>
    rw [List.foldl_cons, ih, Assoc.get?_set]
    by_cases here : w = word
    · simp [here]
    · simp [here, Ne.symm here]

theorem owners_get?_releases (m : Assoc String String) (words : List String) (word : String) :
    (words.foldl Assoc.erase m).get? word = if word ∈ words then none else m.get? word := by
  induction words generalizing m with
  | nil => rfl
  | cons w rest ih =>
    rw [List.foldl_cons, ih, Assoc.get?_erase]
    by_cases here : w = word
    · simp [here]
    · simp [here, Ne.symm here]

theorem get?_reowned (g : Registry) (name : String) (a : Tag) (word : String) :
    (g.reowned name a).get? word =
      if word ∈ g.claimedBy name a then some name
      else if word ∈ g.releasedBy name then none else g.owners.get? word := by
  rw [reowned, owners_get?_claims, owners_get?_releases]

/-- The tag last registered under a name, as it is kept there. -/
def latest (entries : List (String × Tag)) (name : String) : Option Tag :=
  (entries.reverse.find? (·.1 = name)).map fun e => { e.2 with name := name }

/-- A registry that holds the last tag registered under each name, with other names of theirs. -/
structure Holds (g : Registry) (entries : List (String × Tag)) : Prop where
  names : g.names = (entries.map (·.1)).eraseDups
  nodup : g.names.Nodup
  tags : ∀ name, g.tags.get? name = latest entries name
  owners : g.owners.keys.Nodup
  owned : ∀ word owner, g.owners.get? word = some owner →
    ∃ a, g.tags.get? owner = some a ∧ word ∈ a.aliases
  apart : ∀ word owner, g.owners.get? word = some owner → g.tags.has word = true → word = owner

theorem holds_empty : Holds {} [] where
  names := rfl
  nodup := List.nodup_nil
  tags _ := rfl
  owners := List.nodup_nil
  owned _ _ := nofun
  apart _ _ := nofun

theorem latest_append (entries : List (String × Tag)) (name : String) (a : Tag) (other : String) :
    latest (entries ++ [(name, a)]) other =
      if name = other then some { a with name := name } else latest entries other := by
  unfold latest
  rw [List.reverse_append, List.reverse_singleton, List.singleton_append, List.find?_cons]
  by_cases same : name = other
  · simp [same]
  · simp [same]

theorem names_set (m : Assoc String Tag) {names : List String} (before : m.keys = names.eraseDups)
    (name : String) (a : Tag) : (m.set name a).keys = (names ++ [name]).eraseDups := by
  rw [Assoc.keys_set, before, List.eraseDups_append]
  by_cases known : name ∈ names
  · simp [known, List.removeAll]
  · simp [known, List.removeAll, List.eraseDups_cons]

theorem nodup_reowned (before : g.owners.keys.Nodup) (name : String) (a : Tag) :
    (g.reowned name a).keys.Nodup := by
  have released : (((g.releasedBy name).foldl Assoc.erase g.owners)).keys.Nodup := by
    refine List.foldlRecOn (motive := fun m : Assoc String String => m.keys.Nodup) _ _ before ?_
    exact fun m nodup _ _ => nodup.sublist (List.filter_sublist.map _)
  refine List.foldlRecOn (motive := fun m : Assoc String String => m.keys.Nodup) _ _ released ?_
  intro m nodup word _
  exact Assoc.distinct_iff_nodup.mp ((Assoc.distinct_iff_nodup.mpr nodup).set word name)

/-- A word that leads anywhere after a registration is claimed by it, or leads to another name as
before: the words of the tag that is replaced are released. -/
theorem Holds.led {entries : List (String × Tag)} (holds : g.Holds entries) (admits : g.admits name = true)
    (found : (g.reowned name a).get? word = some owner) :
    name = owner ∧ word ∈ g.claimedBy name a ∨ name ≠ owner ∧ g.owners.get? word = some owner := by
  have released : g.releasedBy name = ((g.tags.get? name).map (·.aliases)).getD [] := if_pos admits
  rw [get?_reowned] at found
  split at found
  · rename_i claimed
    exact Or.inl ⟨Option.some.inj found, claimed⟩
  · split at found
    · cases found
    · rename_i kept
      refine Or.inr ⟨?_, found⟩
      rintro rfl
      obtain ⟨b, listed, inside⟩ := holds.owned word name found
      exact kept (by rw [released, listed]; exact inside)

/-- What a registration that is granted keeps. -/
theorem Holds.register {entries : List (String × Tag)} (holds : g.Holds entries)
    (granted : (g.register name a).2 = none) :
    (g.register name a).1.Holds (entries ++ [(name, a)]) := by
  have admitted := refusal?_eq_none_iff.mp ((congrArg Prod.snd (register_eq g name a)).symm.trans granted)
  obtain ⟨admits, free⟩ := admitted
  have unowned : g.owners.get? name = none := by
    simpa [Registry.admits, Assoc.has] using (Bool.and_eq_true_iff.mp admits).2
  have registered : (g.register name a).1 =
      { g with tags := g.tags.set name { a with name := name }, owners := g.reowned name a } := by
    rw [register_eq, refusal?_eq_none_iff.mpr ⟨admits, free⟩]
    rfl
  rw [registered]
  refine ⟨?_, ?_, ?_, nodup_reowned holds.owners name a, ?_, ?_⟩
  · rw [List.map_append]
    exact names_set g.tags holds.names name _
  · exact Assoc.distinct_iff_nodup.mp ((Assoc.distinct_iff_nodup.mpr holds.nodup).set name _)
  · intro other
    rw [Assoc.get?_set, holds.tags, latest_append]
    simp only [beq_iff_eq]
  · intro word owner found
    simp only [Assoc.get?_set, beq_iff_eq]
    rcases holds.led admits found with ⟨rfl, claimed⟩ | ⟨other, led⟩
    · exact ⟨{ a with name := name }, if_pos rfl, (mem_claimedBy claimed).1⟩
    · rw [if_neg other]
      exact holds.owned word owner led
  · intro word owner found known
    rw [Assoc.has, Assoc.get?_set] at known
    rcases holds.led admits found with ⟨rfl, claimed⟩ | ⟨_, led⟩
    · by_contra other
      have listed : g.tags.has word = true := by simpa [Assoc.has, Ne.symm other] using known
      simp [(mem_claimedBy claimed).2] at listed
    · have other : name ≠ word := by
        rintro rfl
        simp [unowned] at led
      exact holds.apart word owner led (by simpa [Assoc.has, other] using known)

theorem Holds.registerAll {entries : List (String × Tag)} (holds : g.Holds entries) {given : List Tag}
    (granted : (registerAll given g).2 = none) :
    (Registry.registerAll given g).1.Holds (entries ++ given.map fun a => (a.name, a)) := by
  induction given generalizing entries g with
  | nil => exact (List.append_nil entries).symm ▸ holds
  | cons a rest ih =>
    rw [Registry.registerAll] at granted ⊢
    split at granted
    · rename_i m first
      have step := holds.register (congrArg Prod.snd first)
      rw [first] at step
      simpa using ih step granted
    · rename_i refused
      have first : g.register a.name a = ((g.register a.name a).1, none) := Prod.ext rfl granted
      exact absurd first (refused _)

/-- What a request that is granted keeps. -/
theorem Holds.apply {entries : List (String × Tag)} (holds : g.Holds entries) {r : Request}
    (granted : (r.apply g).2 = none) : (r.apply g).1.Holds (entries ++ r.entries) := by
  cases r with
  | tag name a => exact holds.register granted
  | tags given => exact holds.registerAll granted
  | freeze =>
    rw [Request.entries, List.append_nil]
    exact ⟨holds.names, holds.nodup, holds.tags, holds.owners, holds.owned, holds.apart⟩

theorem Holds.asked {entries : List (String × Tag)} (holds : g.Holds entries) {requests : List Request}
    (granted : g.Grants requests) :
    (g.asked requests).Holds (entries ++ requests.flatMap Request.entries) := by
  induction requests generalizing entries g with
  | nil => exact (List.append_nil entries).symm ▸ holds
  | cons r rest ih =>
    obtain ⟨first, later⟩ := granted
    rw [List.flatMap_cons, ← List.append_assoc]
    exact ih (holds.apply first) later

/-- The tables of a registry fit each other and what has been registered. -/
structure Coherent (g : Registry) (entries : List (String × Tag)) : Prop where
  /-- Every other name leads to a tag that lists it. -/
  owned : ∀ word owner, (word, owner) ∈ g.owners → ∃ a, (owner, a) ∈ g.tags ∧ word ∈ a.aliases
  /-- Another name that is the name of a tag is the name of its own tag. -/
  apart : ∀ word owner, (word, owner) ∈ g.owners → word ∈ g.names → word = owner
  /-- Names come once, in the order in which they were first registered. -/
  names : g.names.Nodup ∧ g.names = (entries.map (·.1)).eraseDups
  named : ∀ name a, (name, a) ∈ g.tags → a.name = name
  /-- A word is answered for with the tag last registered under its canonical name. -/
  found : ∀ word, g.get? word = .ok ((g.canonical? word).bind (latest entries))
  known : ∀ word, g.has word = true ↔ ∃ a, g.get? word = .ok (some a)
  canonical : ∀ word name, g.canonical? word = some name → g.canonical? name = some name

theorem has_tags_iff : g.tags.has name = true ↔ name ∈ g.names := by
  rw [Assoc.has, Option.isSome_iff_ne_none, ne_eq, Assoc.get?_eq_none_iff, not_not, names]

theorem Holds.mem_owners_iff {entries : List (String × Tag)} (holds : g.Holds entries) :
    (word, owner) ∈ g.owners ↔ g.owners.get? word = some owner :=
  ⟨Assoc.get?_of_mem holds.owners, Assoc.mem_of_get?⟩

/-- What is the name of a tag is canonical, and every other word leads to such a name. -/
theorem Holds.canonical {entries : List (String × Tag)} (holds : g.Holds entries)
    (known : g.canonical? word = some name) : g.tags.has name = true := by
  unfold canonical? at known
  split at known
  · rename_i has
    exact Option.some.inj known ▸ has
  · obtain ⟨a, listed, _⟩ := holds.owned word name known
    rw [Assoc.has, listed]
    rfl

theorem Holds.get? {entries : List (String × Tag)} (holds : g.Holds entries)
    (named : ∀ e ∈ entries, e.1 ≠ "") (word : String) :
    g.get? word = .ok ((g.canonical? word).bind (latest entries)) := by
  unfold Registry.get?
  cases known : g.canonical? word with
  | none => rfl
  | some name =>
    obtain ⟨a, listed⟩ := Option.isSome_iff_exists.mp (holds.canonical known)
    have last := holds.tags name
    rw [listed] at last
    have void : name ≠ "" := by
      rintro rfl
      obtain ⟨e, found, _⟩ := Option.map_eq_some_iff.mp last.symm
      exact named e (List.mem_reverse.mp (List.mem_of_find?_eq_some found))
        (of_decide_eq_true (List.find?_some found :))
    simp only [if_neg void, listed, Option.bind_some, ← last]

theorem Holds.coherent {entries : List (String × Tag)} (holds : g.Holds entries)
    (named : ∀ e ∈ entries, e.1 ≠ "") : g.Coherent entries := by
  have found := holds.get? named
  refine ⟨?_, ?_, ⟨holds.nodup, holds.names⟩, ?_, found, ?_, ?_⟩
  · intro word owner member
    obtain ⟨a, listed, inside⟩ := holds.owned word owner (holds.mem_owners_iff.mp member)
    exact ⟨a, Assoc.mem_of_get? listed, inside⟩
  · intro word owner member listed
    exact holds.apart word owner (holds.mem_owners_iff.mp member) (has_tags_iff.mpr listed)
  · intro name a member
    have last := (holds.tags name).symm.trans (Assoc.get?_of_mem holds.nodup member)
    obtain ⟨e, _, rfl⟩ := Option.map_eq_some_iff.mp last
    rfl
  · intro word
    rw [found]
    unfold has
    cases known : g.canonical? word with
    | none => simp
    | some name =>
      have listed := holds.canonical known
      rw [Assoc.has, holds.tags] at listed
      obtain ⟨a, last⟩ := Option.isSome_iff_exists.mp listed
      simp [last]
  · intro word name known
    rw [canonical?, if_pos (holds.canonical known)]

/-- While every registration succeeds, and under a name that is not empty, the tables of a registry fit
each other, and every word is answered for. -/
theorem granted_coherent (requests : List Request) (granted : Grants {} requests)
    (named : ∀ r ∈ requests, ∀ e ∈ r.entries, e.1 ≠ "") :
    (asked {} requests).Coherent (requests.flatMap Request.entries) := by
  have holds := holds_empty.asked granted
  rw [List.nil_append] at holds
  refine holds.coherent fun e member => ?_
  obtain ⟨r, inside, listed⟩ := List.mem_flatMap.mp member
  exact named r inside e listed

/-- A tag that takes over another name, and is then replaced itself. -/
def succession : List Request :=
  [.tag "todo" { name := "todo", aliases := ["fixme", "later"] },
    .tags [{ name := "note", aliases := ["later"] }, { name := "since" }],
    .tag "todo" { name := "anything", aliases := ["task"] }]

theorem granted_coherent_succession :
    Grants {} succession ∧ (∀ r ∈ succession, ∀ e ∈ r.entries, e.1 ≠ "") ∧
      (asked {} succession).names = ["todo", "note", "since"] ∧
      (asked {} succession).owners = [("task", "todo")] ∧
      (asked {} succession).Coherent (succession.flatMap Request.entries) := by
  have granted : Grants {} succession := ⟨rfl, rfl, rfl, trivial⟩
  have named : ∀ r ∈ succession, ∀ e ∈ r.entries, e.1 ≠ "" := by decide
  exact ⟨granted, named, rfl, rfl, granted_coherent succession granted named⟩

end Registry

end SheetDoc
