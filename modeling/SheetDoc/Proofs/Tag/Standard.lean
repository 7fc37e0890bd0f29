import Mathlib.Data.List.Nodup
import Mathlib.Data.List.Perm.Basic
import SheetDoc.Tag.Registry
import SheetDoc.Proofs.Lookup

namespace SheetDoc.Registry

/-- All names of tags, their own ones and the others. -/
def wordsOf (tags : List Tag) : List String := tags.flatMap fun a => a.name :: a.aliases

/-- The entries of tags under their own names. -/
def entriesOf (tags : List Tag) : Assoc String Tag := tags.map fun a => (a.name, a)

/-- The entries of the other names. -/
def ownersOf (tags : List Tag) : Assoc String String :=
  tags.flatMap fun a => a.aliases.map (·, a.name)

/-- The registry of the builtin tags alone. -/
def builtin (c : Config) : Registry where
  tags := entriesOf (Tag.builtins c)
  owners := ownersOf (Tag.builtins c)

theorem claimNames_fresh {owner : String} {names : List String} {g : Registry}
    (fresh : (g.owners.keys ++ names).Nodup) (apart : ∀ n ∈ names, n ∉ g.tags.keys) :
    claimNames owner names g = ({ g with owners := g.owners ++ names.map (·, owner) }, none) := by
  induction names generalizing g with
  | nil => simp [claimNames]
  | cons n rest ih =>
    have free : g.tags.has n = false := by
      rw [Assoc.has, Assoc.get?_eq_none_iff.mpr (apart n List.mem_cons_self)]
      rfl
    have new : n ∉ g.owners.keys := by
      rw [List.nodup_append] at fresh
      intro member
      exact fresh.2.2 n member n List.mem_cons_self rfl
    have step : g.claimName owner n = ({ g with owners := g.owners ++ [(n, owner)] }, none) := by
      simp [claimName, free, Assoc.set_of_fresh new]
    have keys : Assoc.keys [(n, owner)] = [n] := rfl
    have later := ih (g := { g with owners := g.owners ++ [(n, owner)] })
      (by simpa [keys] using fresh) (fun m member => apart m (List.mem_cons_of_mem n member))
    rw [claimNames, step]
    simpa using later

theorem register_fresh {a : Tag} {g : Registry} (thawed : g.frozen = false)
    (fresh : (g.owners.keys ++ a.aliases).Nodup) (unowned : a.name ∉ g.owners.keys)
    (unnamed : a.name ∉ g.tags.keys) (apart : ∀ n ∈ a.aliases, n ∉ g.tags.keys) :
    g.register a.name a =
      ({ g with
          tags := g.tags ++ entriesOf [a]
          owners := g.owners ++ ownersOf [a] }, none) := by
  have released : g.releaseNames a.name = g := by
    rw [releaseNames, Assoc.get?_eq_none_iff.mpr unnamed]
  rw [register, if_neg (by simp [thawed]), Assoc.get?_eq_none_iff.mpr unowned]
  simp only [released, claimNames_fresh fresh apart, Assoc.set_of_fresh unnamed]
  simp [entriesOf, ownersOf]

/-- Tags of new names are appended, whatever the registry holds. -/
theorem registerAll_fresh {tags : List Tag} {g : Registry} (thawed : g.frozen = false)
    (fresh : (g.tags.keys ++ g.owners.keys ++ wordsOf tags).Nodup) :
    registerAll tags g =
      ({ g with tags := g.tags ++ entriesOf tags, owners := g.owners ++ ownersOf tags }, none) := by
  induction tags generalizing g with
  | nil => simp [registerAll, entriesOf, ownersOf]
  | cons a rest ih =>
    have words : wordsOf (a :: rest) = a.name :: a.aliases ++ wordsOf rest := by simp [wordsOf]
    rw [words] at fresh
    simp only [List.nodup_append, List.nodup_cons, List.mem_append, List.mem_cons] at fresh
    obtain ⟨⟨tagKeys, ownerKeys, tagsOwners⟩, ⟨⟨own, aliases⟩, others, away⟩, cross⟩ := fresh
    have step := register_fresh (a := a) thawed
      (List.nodup_append.mpr ⟨ownerKeys, aliases, fun n member m other =>
        cross n (Or.inr member) m (Or.inl (Or.inr other))⟩)
      (fun member => cross a.name (Or.inr member) a.name (Or.inl (Or.inl rfl)) rfl)
      (fun member => cross a.name (Or.inl member) a.name (Or.inl (Or.inl rfl)) rfl)
      (fun n member other => cross n (Or.inl other) n (Or.inl (Or.inr member)) rfl)
    have names : Assoc.keys (entriesOf [a]) = [a.name] := rfl
    have owned : Assoc.keys (ownersOf [a]) = a.aliases := by
      simp [ownersOf, Assoc.keys, Function.comp_def]
    have later := ih
      (g := { g with tags := g.tags ++ entriesOf [a], owners := g.owners ++ ownersOf [a] }) thawed
      (by
        simp only [Assoc.keys_append, names, owned, List.nodup_append, List.mem_append]
        grind)
    rw [registerAll, step]
    simpa [entriesOf, ownersOf] using later

theorem wordsOf_builtins (c : Config) :
    wordsOf (Tag.builtins c) =
      ["access", "alias", "author", "content", "deprecated", "example", "group",
        "groupDescription", "ignore", "link", "source", "name", "output", "outputs", "parameter",
        "param", "arg", "argument", "property", "prop", "require", "requires", "return", "returns",
        "see", "since", "throw", "throws", "exception", "todo", "type"] := rfl

theorem words_nodup (c : Config) : (wordsOf (Tag.builtins c)).Nodup := by
  rw [wordsOf_builtins]
  simp

theorem standard_nil (c : Config) : standard c [] = .ok (builtin c) := by
  rw [standard, ofList, registerAll_fresh rfl (by simpa [Assoc.keys] using words_nodup c)]
  rfl

theorem toList_builtin (c : Config) : (builtin c).toList = Tag.builtins c := by
  rw [toList, builtin, entriesOf, List.map_map]
  exact List.map_id _

theorem names_builtins (c : Config) :
    (Tag.builtins c).map (·.name) =
      ["access", "alias", "author", "content", "deprecated", "example", "group",
        "groupDescription", "ignore", "link", "name", "output", "parameter", "property", "require",
        "return", "see", "since", "throw", "todo", "type"] := rfl

theorem names_nodup (c : Config) : ((Tag.builtins c).map (·.name)).Nodup := by
  rw [names_builtins]
  decide

theorem eq_of_name {c : Config} {a b : Tag} (first : a ∈ Tag.builtins c)
    (second : b ∈ Tag.builtins c) (same : a.name = b.name) : a = b :=
  List.inj_on_of_nodup_map (names_nodup c) first second same

theorem listed_builtin {c : Config} {a : Tag} (member : a ∈ Tag.builtins c) :
    (builtin c).tags.get? a.name = some a := by
  have keys : Assoc.keys (builtin c).tags = (Tag.builtins c).map (·.name) := rfl
  exact Assoc.get?_of_mem (keys ▸ names_nodup c) (List.mem_map.mpr ⟨a, member, rfl⟩)

theorem name_ne_empty {c : Config} {a : Tag} (member : a ∈ Tag.builtins c) : a.name ≠ "" := by
  intro same
  have inside : a.name ∈ (Tag.builtins c).map (·.name) := List.mem_map.mpr ⟨a, member, rfl⟩
  rw [names_builtins, same] at inside
  simp at inside

theorem canonical?_builtin {c : Config} {a : Tag} (member : a ∈ Tag.builtins c) :
    (builtin c).canonical? a.name = some a.name :=
  if_pos (by rw [Assoc.has, listed_builtin member]; rfl)

/-- Every builtin tag is found under its name. -/
theorem get?_builtin {c : Config} {a : Tag} (member : a ∈ Tag.builtins c) :
    (builtin c).get? a.name = .ok (some a) := by
  rw [get?, canonical?_builtin member]
  simp only [if_neg (name_ne_empty member), listed_builtin member]

/-- No word is the own name of one builtin tag and another name of one. -/
theorem keys_apart (c : Config) :
    (Assoc.keys (builtin c).tags ++ Assoc.keys (builtin c).owners).Nodup := by
  have names : Assoc.keys (builtin c).tags = (Tag.builtins c).map (·.name) := rfl
  have others : Assoc.keys (builtin c).owners = (Tag.builtins c).flatMap (·.aliases) := by
    simp [builtin, ownersOf, Assoc.keys, List.map_flatMap, Function.comp_def]
  rw [names, others]
  exact (List.map_append_flatMap_perm _ _ _).nodup_iff.mpr (words_nodup c)

/-- Every builtin tag is found under each of its other names. -/
theorem get?_alias {c : Config} {a : Tag} {word : String} (member : a ∈ Tag.builtins c)
    (listed : word ∈ a.aliases) : (builtin c).get? word = .ok (some a) := by
  obtain ⟨_, nodup, apart⟩ := List.nodup_append.mp (keys_apart c)
  have entry : (word, a.name) ∈ (builtin c).owners :=
    List.mem_flatMap.mpr ⟨a, member, List.mem_map.mpr ⟨word, listed, rfl⟩⟩
  have unnamed : (builtin c).tags.get? word = none :=
    Assoc.get?_eq_none_iff.mpr fun named =>
      apart word named word (List.mem_map.mpr ⟨_, entry, rfl⟩) rfl
  have leads : (builtin c).canonical? word = some a.name := by
    rw [canonical?, if_neg (by simp [Assoc.has, unnamed]), Assoc.get?_of_mem nodup entry]
  rw [get?, leads]
  simp only [if_neg (name_ne_empty member), listed_builtin member]

theorem canonical?_of_not_has {g : Registry} {word : String} (unknown : g.has word = false) :
    g.canonical? word = none := by
  simpa only [has, Option.isSome_eq_false_iff, Option.isNone_iff_eq_none] using unknown

/-- Every other name leads to a builtin tag. -/
theorem listed_of_canonical? {c : Config} {word name : String}
    (known : (builtin c).canonical? word = some name) :
    ∃ a ∈ Tag.builtins c, a.name = name ∧ (builtin c).tags.get? name = some a := by
  unfold canonical? at known
  split at known
  · rename_i has
    cases known
    obtain ⟨a, listed⟩ := Option.isSome_iff_exists.mp has
    obtain ⟨b, member, same⟩ := List.mem_map.mp (Assoc.mem_of_get? listed)
    obtain ⟨rfl, rfl⟩ := Prod.mk.inj same
    exact ⟨b, member, rfl, listed⟩
  · obtain ⟨a, member, owned⟩ := List.mem_flatMap.mp (Assoc.mem_of_get? known)
    obtain ⟨_, _, same⟩ := List.mem_map.mp owned
    cases same
    exact ⟨a, member, rfl, listed_builtin member⟩

/-- Every word that leads anywhere leads to a builtin tag. -/
theorem get?_of_has {c : Config} {word : String} (known : (builtin c).has word = true) :
    ∃ a, (builtin c).get? word = .ok (some a) := by
  obtain ⟨name, canonical⟩ := Option.isSome_iff_exists.mp known
  obtain ⟨a, member, rfl, listed⟩ := listed_of_canonical? canonical
  exact ⟨a, by simp only [get?, canonical, if_neg (name_ne_empty member), listed]⟩

/-- No word is looked up in vain. -/
theorem get?_builtin_total (c : Config) (word : String) :
    ∃ entry, (builtin c).get? word = .ok entry := by
  cases known : (builtin c).has word with
  | true =>
    obtain ⟨a, found⟩ := get?_of_has known
    exact ⟨some a, found⟩
  | false => exact ⟨none, by rw [get?, canonical?_of_not_has known]⟩

end SheetDoc.Registry
