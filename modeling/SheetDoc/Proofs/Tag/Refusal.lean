import Mathlib.Data.List.Induction
import SheetDoc.Proofs.Tag.Registration

namespace SheetDoc.Registry

variable {g g' : Registry} {name word owner : String} {a : Tag} {fault : RegistryFault}

/-- Two registries that nothing they are asked tells apart. -/
structure AnswersLike (g g' : Registry) : Prop where
  canonical : ∀ word, g'.canonical? word = g.canonical? word
  get : ∀ word, g'.get? word = g.get? word
  has : ∀ word, g'.has word = g.has word
  names : g'.names = g.names
  listed : g'.toList = g.toList

theorem answersLike_iff (tags : g'.tags = g.tags) :
    g.AnswersLike g' ↔ ∀ word, g'.canonical? word = g.canonical? word := by
  refine ⟨AnswersLike.canonical, fun canonical => ⟨canonical, fun word => ?_, fun word => ?_, ?_, ?_⟩⟩
  · rw [get?, get?, canonical, tags]
  · rw [has, has, canonical]
  · rw [names, names, tags]
  · rw [toList, toList, tags]

theorem tags_of_refused (refused : (g.register name a).2 = some fault) :
    (g.register name a).1.tags = g.tags := by
  rw [register_eq] at refused ⊢
  have named : g.refusal? name a = some fault := refused
  simp [named]

/-- Where words lead once a registration is refused. -/
theorem canonical?_of_refused (refused : (g.register name a).2 = some fault) (word : String) :
    (g.register name a).1.canonical? word =
      if word ∈ g.claimedBy name a then some name
      else if word ∈ g.releasedBy name ∧ word ∉ g.names then none else g.canonical? word := by
  have owners : (g.register name a).1.owners.get? word = _ :=
    (congrArg (fun m : Registry × _ => m.1.owners.get? word) (register_eq g name a)).trans
      (get?_reowned g name a word)
  rw [canonical?, tags_of_refused refused, owners, canonical?]
  by_cases claimed : word ∈ g.claimedBy name a
  · simp [claimed, (mem_claimedBy claimed).2]
  · by_cases listed : g.tags.has word = true
    · have known : word ∈ g.names := has_tags_iff.mp listed
      simp [claimed, listed, known]
    · have unknown : word ∉ g.names := fun known => listed (has_tags_iff.mpr known)
      simp [claimed, listed, unknown]

/-- What a registration that is refused leaves of a registry. -/
structure Leaves (g : Registry) (name : String) (a : Tag) (g' : Registry) : Prop where
  names : g'.names = g.names
  listed : g'.toList = g.toList
  canonical : ∀ word, g'.canonical? word =
    if word ∈ g.claimedBy name a then some name
    else if word ∈ g.releasedBy name ∧ word ∉ g.names then none else g.canonical? word
  /-- What is claimed for a name that no tag has is looked up in vain. -/
  stranded : name ∉ g.names → name ≠ "" → ∀ word ∈ g.claimedBy name a,
    g'.get? word = .error (.unknownKey name)
  /-- Nothing has changed exactly where every word that is claimed led to the name already, and no
  word that is released led anywhere. -/
  unchanged : g.AnswersLike g' ↔
    (∀ word ∈ g.claimedBy name a, g.canonical? word = some name) ∧
      ∀ word ∈ g.releasedBy name, word ∉ g.claimedBy name a → word ∉ g.names →
        g.canonical? word = none

theorem leaves_of_refused (refused : (g.register name a).2 = some fault) :
    g.Leaves name a (g.register name a).1 := by
  have tags := tags_of_refused refused
  have canonical := canonical?_of_refused refused
  refine ⟨by rw [names, names, tags], by rw [toList, toList, tags], canonical, ?_, ?_⟩
  · intro unlisted named word claimed
    have missing : g.tags.get? name = none := Assoc.get?_eq_none_iff.mpr unlisted
    rw [get?, canonical, if_pos claimed]
    simp only [if_neg named, tags, missing]
  · rw [answersLike_iff tags]
    constructor
    · intro same
      refine ⟨fun word claimed => ?_, fun word released kept unknown => ?_⟩
      · rw [← same, canonical, if_pos claimed]
      · rw [← same, canonical, if_neg kept, if_pos ⟨released, unknown⟩]
    · rintro ⟨claims, releases⟩ word
      rw [canonical]
      split
      · rename_i claimed
        exact (claims word claimed).symm
      · rename_i kept
        split
        · rename_i released
          exact (releases word released.1 kept released.2).symm
        · rfl

/-- One of some requests was refused, and it named the word as another name of the owner. -/
def Blames (requests : List Request) (word owner : String) : Prop :=
  ∃ before r after, requests = before ++ r :: after ∧ (r.apply (asked {} before)).2 ≠ none ∧
    ∃ a, (owner, a) ∈ r.entries ∧ word ∈ a.aliases

theorem names_register (g : Registry) (name : String) (a : Tag) :
    g.names ⊆ (g.register name a).1.names := by
  rw [register_eq]
  unfold names
  simp only
  split
  · exact (Assoc.keys_prefix_set g.tags name _).subset
  · exact List.Subset.refl _

/-- A new word leads to a name that is registered with it, or the registration is refused. -/
theorem owners_register (found : (g.register name a).1.owners.get? word = some owner) :
    g.owners.get? word = some owner ∨ owner = name ∧ word ∈ a.aliases ∧
      (owner ∈ (g.register name a).1.names ∨ (g.register name a).2 ≠ none) := by
  rw [register_eq] at found ⊢
  simp only [get?_reowned] at found
  split at found
  · rename_i claimed
    cases found
    refine Or.inr ⟨rfl, (mem_claimedBy claimed).1, ?_⟩
    cases refused : g.refusal? name a with
    | some fault => exact Or.inr nofun
    | none =>
      refine Or.inl (has_tags_iff.mp ?_)
      simp [Assoc.has, Assoc.get?_set]
  · split at found
    · cases found
    · exact Or.inl found

theorem names_registerAll (given : List Tag) (g : Registry) :
    g.names ⊆ (registerAll given g).1.names := by
  induction given generalizing g with
  | nil => exact List.Subset.refl _
  | cons a rest ih =>
    have first := names_register g a.name a
    rw [registerAll]
    split
    · rename_i m done
      rw [done] at first
      exact List.Subset.trans first (ih m)
    · exact first

theorem owners_registerAll {given : List Tag}
    (found : (registerAll given g).1.owners.get? word = some owner) :
    g.owners.get? word = some owner ∨ (∃ a ∈ given, a.name = owner ∧ word ∈ a.aliases) ∧
      (owner ∈ (registerAll given g).1.names ∨ (registerAll given g).2 ≠ none) := by
  induction given generalizing g with
  | nil => exact Or.inl found
  | cons a rest ih =>
    rw [registerAll] at found ⊢
    split at found
    · rename_i m done
      rcases ih found with old | ⟨⟨b, inside, given⟩, later⟩
      · have reached : (g.register a.name a).1.owners.get? word = some owner := by rw [done, old]
        rcases owners_register reached with old | ⟨rfl, listed, here | refused⟩
        · exact Or.inl old
        · rw [done] at here
          exact Or.inr ⟨⟨a, List.mem_cons_self, rfl, listed⟩, Or.inl (names_registerAll rest m here)⟩
        · exact absurd (congrArg Prod.snd done) refused
      · exact Or.inr ⟨⟨b, List.mem_cons_of_mem a inside, given⟩, later⟩
    · rcases owners_register found with old | ⟨rfl, listed, here⟩
      · exact Or.inl old
      · exact Or.inr ⟨⟨a, List.mem_cons_self, rfl, listed⟩, here⟩

theorem names_apply (g : Registry) (r : Request) : g.names ⊆ (r.apply g).1.names := by
  cases r with
  | tag name a => exact names_register g name a
  | tags given => exact names_registerAll given g
  | freeze => exact List.Subset.refl _

/-- What a request adds to the words that lead somewhere. -/
theorem owners_apply {r : Request} (found : (r.apply g).1.owners.get? word = some owner) :
    g.owners.get? word = some owner ∨ (∃ a, (owner, a) ∈ r.entries ∧ word ∈ a.aliases) ∧
      (owner ∈ (r.apply g).1.names ∨ (r.apply g).2 ≠ none) := by
  cases r with
  | tag name a =>
    refine (owners_register found).imp_right ?_
    rintro ⟨rfl, listed, here⟩
    exact ⟨⟨a, List.mem_singleton_self _, listed⟩, here⟩
  | tags given =>
    refine (owners_registerAll found).imp_right ?_
    rintro ⟨⟨a, inside, rfl, listed⟩, here⟩
    exact ⟨⟨a, List.mem_map.mpr ⟨a, inside, rfl⟩, listed⟩, here⟩
  | freeze => exact Or.inl found

theorem asked_append (requests : List Request) (r : Request) :
    asked g (requests ++ [r]) = (r.apply (g.asked requests)).1 := by
  rw [asked, List.foldl_append, List.foldl_cons, List.foldl_nil, asked]

theorem Blames.append {requests : List Request} (blames : Blames requests word owner) (r : Request) :
    Blames (requests ++ [r]) word owner := by
  obtain ⟨before, s, after, rfl, refused, listed⟩ := blames
  exact ⟨before, s, after ++ [r], by simp, refused, listed⟩

/-- Every word leads to a tag, or was claimed in vain. -/
theorem owners_asked (requests : List Request)
    (found : (asked {} requests).owners.get? word = some owner) :
    owner ∈ (asked {} requests).names ∨ Blames requests word owner := by
  induction requests using List.reverseRecOn with
  | nil => cases found
  | append_singleton requests r ih =>
    rw [asked_append] at found ⊢
    rcases owners_apply found with old | ⟨listed, here | refused⟩
    · rcases ih old with known | blames
      · exact Or.inl (names_apply _ r known)
      · exact Or.inr (blames.append r)
    · exact Or.inl here
    · exact Or.inr ⟨requests, r, [], rfl, refused, listed⟩

/-- Registrations that are refused. Whatever a registry has been asked before, one that is refused
changes neither the tags nor their order, and moves no words but those that the tag claims before the
refusal and those that the replaced tag had. A word is looked up in vain only where a request was
refused that named it for a tag which is not registered. -/
theorem refusals_leave (requests : List Request) :
    (∀ name a fault, ((asked {} requests).register name a).2 = some fault →
      (asked {} requests).Leaves name a ((asked {} requests).register name a).1) ∧
      ∀ word fault, (asked {} requests).get? word = .error fault →
        ∃ owner, fault = .unknownKey owner ∧ owner ∉ (asked {} requests).names ∧
          Blames requests word owner := by
  refine ⟨fun name a fault => leaves_of_refused, fun word fault failed => ?_⟩
  unfold get? at failed
  split at failed
  · cases failed
  · rename_i owner known
    split at failed
    · cases failed
    · split at failed
      · cases failed
      · rename_i missing
        cases failed
        have unlisted : owner ∉ (asked {} requests).names := Assoc.get?_eq_none_iff.mp missing
        refine ⟨owner, rfl, unlisted, ?_⟩
        unfold canonical? at known
        split at known
        · rename_i has
          cases known
          exact absurd (has_tags_iff.mp has) unlisted
        · exact (owners_asked requests known).resolve_left unlisted

/-- A tag that claims a new word and then the name of another tag. -/
def greedy : Tag := { name := "note", aliases := ["memo", "todo"] }

/-- A registry that has refused such a tag. -/
def grabbed : List Request := [.tag "todo" { name := "todo" }, .tag "note" greedy]

theorem refusals_leave_grabbed :
    ((asked {} grabbed).register "task" { name := "task", aliases := ["todo"] }).2 =
        some (.aliasIsName "todo" "task") ∧
      (asked {} grabbed).Leaves "task" { name := "task", aliases := ["todo"] }
        ((asked {} grabbed).register "task" { name := "task", aliases := ["todo"] }).1 ∧
      (asked {} grabbed).get? "memo" = .error (.unknownKey "note") ∧ Blames grabbed "memo" "note" := by
  obtain ⟨leaves, blames⟩ := refusals_leave grabbed
  have vain : (asked {} grabbed).get? "memo" = .error (.unknownKey "note") := rfl
  obtain ⟨owner, same, _, blamed⟩ := blames "memo" _ vain
  cases same
  exact ⟨rfl, leaves "task" _ (.aliasIsName "todo" "task") rfl, vain, blamed⟩

/-- The word that it has claimed leads to a name that no tag has, and is looked up in vain. -/
theorem refusal_strands :
    let g := asked {} [.tag "todo" { name := "todo" }]
    let refused := g.register "note" greedy
    refused.2 = some (.aliasIsName "todo" "note") ∧
      g.canonical? "memo" = none ∧ refused.1.canonical? "memo" = some "note" ∧
      g.get? "memo" = .ok none ∧ refused.1.get? "memo" = .error (.unknownKey "note") ∧
      ¬g.AnswersLike refused.1 := by
  intro g refused
  refine ⟨rfl, rfl, rfl, rfl, rfl, fun same => ?_⟩
  have led : some "note" = none := same.canonical "memo"
  cases led

end SheetDoc.Registry
