import SheetDoc.Proofs.Tag.Registration

namespace SheetDoc.Registry

variable {g : Registry} {name word owner : String} {a t : Tag} {entries : List (String × Tag)}

/-- A word that means a tag leads to its name. -/
theorem canonical?_of_get? (found : g.get? word = .ok (some t)) :
    ∃ owner, g.canonical? word = some owner ∧ owner ≠ "" ∧ g.tags.get? owner = some t := by
  unfold get? at found
  split at found
  · cases found
  · rename_i owner known
    split at found
    · cases found
    · rename_i named
      split at found <;> cases found
      rename_i listed
      exact ⟨owner, known, named, listed⟩

theorem get?_of_canonical? (known : g.canonical? word = some owner) (named : owner ≠ "")
    (listed : g.tags.get? owner = some t) : g.get? word = .ok (some t) := by
  simp only [get?, known, if_neg named, listed]

theorem Holds.name_eq (holds : g.Holds entries) (listed : g.tags.get? owner = some t) : t.name = owner := by
  obtain ⟨e, _, rfl⟩ := Option.map_eq_some_iff.mp ((holds.tags owner).symm.trans listed)
  rfl

theorem refusal?_of_granted (granted : (g.register name a).2 = none) : g.refusal? name a = none :=
  (congrArg Prod.snd (register_eq g name a)).symm.trans granted

theorem releasedBy_of_granted (granted : (g.register name a).2 = none) :
    word ∈ g.releasedBy name ↔ ∃ previous, g.tags.get? name = some previous ∧ word ∈ previous.aliases := by
  have admits := (refusal?_eq_none_iff.mp (refusal?_of_granted granted)).1
  rw [releasedBy, if_pos admits]
  cases g.tags.get? name <;> simp

/-- What a registration that is granted stores, and where words lead afterwards. -/
theorem granted_eq (granted : (g.register name a).2 = none) (word : String) :
    (g.register name a).1.tags = g.tags.set name { a with name := name } ∧
      (g.register name a).1.canonical? word =
        if g.tags.has word = true ∨ word = name then some word
        else if word ∈ a.aliases then some name
        else if word ∈ g.releasedBy name then none else g.canonical? word := by
  have allowed := refusal?_of_granted granted
  obtain ⟨admits, free⟩ := refusal?_eq_none_iff.mp allowed
  have all : g.claimedBy name a = a.aliases := by
    rw [claimedBy, if_pos admits, List.takeWhile_eq_self_iff]
    exact fun word member => by simp [free word member]
  have tags : (g.register name a).1.tags = g.tags.set name { a with name := name } := by
    rw [register_eq, allowed]
    rfl
  have owners : (g.register name a).1.owners.get? word = _ :=
    (congrArg (fun m : Registry × _ => m.1.owners.get? word) (register_eq g name a)).trans
      (get?_reowned g name a word)
  refine ⟨tags, ?_⟩
  rw [canonical?, canonical?, tags, owners, all, Assoc.has_set]
  by_cases same : word = name
  · simp [same]
  · cases known : g.tags.has word <;> simp [same, Ne.symm same]

/-- A word is let go of: it is no name of a tag, and the tag that is replaced lists it. -/
def LetsGo (g : Registry) (name word : String) : Prop :=
  g.tags.has word = false ∧ ∃ previous, g.tags.get? name = some previous ∧ word ∈ previous.aliases

/-- A word that leads to another name still does, or nowhere if it is let go of. -/
theorem canonical?_of_other (granted : (g.register name a).2 = none) (known : g.canonical? word = some owner)
    (other : owner ≠ name) (fresh : word ∉ a.aliases) :
    (¬g.LetsGo name word → (g.register name a).1.canonical? word = some owner) ∧
      (g.LetsGo name word → (g.register name a).1.canonical? word = none) := by
  have leads := (granted_eq granted word).2
  rw [LetsGo, ← releasedBy_of_granted granted]
  cases listed : g.tags.has word with
  | true =>
    rw [if_pos (Or.inl listed)] at leads
    rw [canonical?, if_pos listed] at known
    exact ⟨fun _ => leads.trans known, fun gone => Bool.noConfusion gone.1⟩
  | false =>
    have apart : word ≠ name := by
      rintro rfl
      have admits := (refusal?_eq_none_iff.mp (refusal?_of_granted granted)).1
      simp_all [canonical?, Registry.admits, Assoc.has]
    rw [if_neg (by simp [listed, apart]), if_neg fresh, known] at leads
    by_cases released : word ∈ g.releasedBy name
    · rw [if_pos released] at leads
      exact ⟨fun kept => absurd ⟨rfl, released⟩ kept, fun _ => leads⟩
    · rw [if_neg released] at leads
      exact ⟨fun _ => leads, fun gone => absurd gone.2 released⟩

/-- Registrations that all succeed, and one more. A word that means a tag of another name, and is not
among the other names of the new tag, means the same tag as before exactly when it is not let go of;
otherwise it leads nowhere. -/
theorem register_spares (requests : List Request) (granted : Grants {} requests)
    (accepted : ((asked {} requests).register name a).2 = none)
    (found : (asked {} requests).get? word = .ok (some t)) (other : t.name ≠ name)
    (fresh : word ∉ a.aliases) :
    let g := asked {} requests
    let g' := (g.register name a).1
    (g'.get? word = .ok (some t) ↔ ¬g.LetsGo name word) ∧
      (¬g.LetsGo name word → g'.canonical? word = g.canonical? word) ∧
      (g.LetsGo name word → g'.canonical? word = none ∧ g'.get? word = .ok none) := by
  intro g g'
  have holds := holds_empty.asked granted
  obtain ⟨owner, known, named, listed⟩ := canonical?_of_get? found
  have apart : owner ≠ name := holds.name_eq listed ▸ other
  obtain ⟨stays, goes⟩ := canonical?_of_other accepted known apart fresh
  have listed' : g'.tags.get? owner = some t := by
    rw [(granted_eq accepted word).1, Assoc.get?_set, if_neg (by simpa using Ne.symm apart)]
    exact listed
  have nowhere : g.LetsGo name word → g'.get? word = .ok none := fun gone => by
    have leads : g'.canonical? word = none := goes gone
    simp only [get?, leads]
  refine ⟨⟨fun same gone => ?_, fun kept => get?_of_canonical? (stays kept) named listed'⟩,
    fun kept => (stays kept).trans known.symm, fun gone => ⟨goes gone, nowhere gone⟩⟩
  cases same.symm.trans (nowhere gone)

/-- Two tags of which the later one takes over another name, and a third one. -/
def handover : List Request :=
  [.tag "todo" { name := "todo", aliases := ["fixme", "later"] },
    .tags [{ name := "note", aliases := ["later"] }, { name := "since" }]]

theorem register_spares_handover :
    let g := asked {} handover
    let g' := (g.register "since" { name := "since", aliases := ["from"] }).1
    Grants {} handover ∧ (g.register "since" { name := "since", aliases := ["from"] }).2 = none ∧
      g.get? "later" = .ok (some { name := "note", aliases := ["later"] }) ∧
      "later" ∉ ["from"] ∧ g'.get? "later" = .ok (some { name := "note", aliases := ["later"] }) := by
  have granted : Grants {} handover := ⟨rfl, rfl, trivial⟩
  have found : (asked {} handover).get? "later" = .ok (some { name := "note", aliases := ["later"] }) := rfl
  have accepted : ((asked {} handover).register "since" { name := "since", aliases := ["from"] }).2 = none := rfl
  have fresh : "later" ∉ ["from"] := by decide
  have kept : ¬(asked {} handover).LetsGo "since" "later" := by
    rintro ⟨_, previous, listed, member⟩
    cases listed
    cases member
  obtain ⟨means, _⟩ := register_spares handover granted accepted found (by decide) fresh
  exact ⟨granted, accepted, found, fresh, means.mpr kept⟩

/-- To replace the first of them is to lose the name that the second one has taken over. -/
theorem not_spared_handover :
    let g := asked {} handover
    let g' := (g.register "todo" { name := "todo", aliases := ["task"] }).1
    Grants {} handover ∧ (g.register "todo" { name := "todo", aliases := ["task"] }).2 = none ∧
      "later" ∉ ["task"] ∧ g.get? "later" = .ok (some { name := "note", aliases := ["later"] }) ∧
      g'.get? "later" = .ok none :=
  ⟨⟨rfl, rfl, trivial⟩, rfl, by decide, rfl, rfl⟩

end SheetDoc.Registry
