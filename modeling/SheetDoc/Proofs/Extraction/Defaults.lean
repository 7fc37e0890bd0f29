import SheetDoc.Proofs.Extraction.Draft

namespace SheetDoc

/-- The value of a field that neither a comment nor a poster sets. -/
def Config.unset (c : Config) : Field → Value
  | .access => .text Tag.publicWord
  | .group => .texts [c.defaultGroup]
  | f => f.empty

theorem fits_unset (c : Config) (f : Field) : f.fits (c.unset f) := by
  cases f
  case group => exact ⟨c.defaultGroup, rfl⟩
  case access => exact Or.inl rfl
  all_goals trivial

/-- A record whose field has yet to take the default of its tag, or has taken it. -/
structure Record.Waits (c : Config) (a : Tag) (f : Field) (r : Record) : Prop where
  typed : r.Typed
  unset : r.has a.name = false
  value : r.own f = .ok f.empty ∨ r.own f = .ok (c.unset f)

namespace Extractor

variable {x : Extractor} {c : Config} {a : Tag} {f : Field} {r r' : Record}

/-- The builtin tags with a default, and what it is. -/
theorem fallback_builtins (c : Config) : ∀ b ∈ Tag.builtins c, b.fallback = none ∨
    ∃ f step, b.field = some f ∧ b.fallback = some step ∧ (∀ r, step r = .ok (c.unset f)) ∧
      f.takes (c.unset f) = true ∧ (c.unset f).truthy = true := by
  unfold Tag.builtins
  simp only [List.forall_mem_cons]
  refine ⟨Or.inr ⟨.access, _, rfl, rfl, fun _ => rfl, rfl, rfl⟩, Or.inl rfl, Or.inl rfl, Or.inl rfl,
    Or.inl rfl, Or.inl rfl, Or.inr ⟨.group, _, rfl, rfl, fun _ => rfl, rfl, rfl⟩, Or.inl rfl,
    Or.inl rfl, Or.inl rfl, Or.inl rfl, Or.inl rfl, Or.inl rfl, Or.inl rfl, Or.inl rfl, Or.inl rfl,
    Or.inl rfl, Or.inl rfl, Or.inl rfl, Or.inl rfl, Or.inl rfl, List.forall_mem_nil _⟩

/-- A field whose tag has no default stays empty. -/
theorem unset_of_none (plain : a.Plain c f) (none : a.fallback = none) : c.unset f = f.empty := by
  cases f
  case group =>
    obtain rfl := plain.eq_group
    cases none
  case access =>
    obtain rfl := plain.eq_access
    cases none
  all_goals rfl

theorem applyFallback_total {b : Tag} (member : b ∈ Tag.builtins c) (typed : r.Typed) :
    ∃ r', applyFallback r b = .ok r' ∧ r'.Typed := by
  rcases fallback_builtins c b member with none | ⟨f, step, field, fallback, gives, takes, _⟩
  · refine ⟨r, ?_, typed⟩
    rw [applyFallback, none]
  · obtain ⟨merges, _⟩ := Tag.merges_builtins c b member f field
    have named : f ≠ .other "" := by
      rintro rfl
      cases merges
    obtain ⟨current, holds, _⟩ := r.own_takes merges
    obtain ⟨r', assigned, typed', _, _⟩ := Record.assign_of_takes typed takes
    rw [Tag.applyFallback_of_typed fallback field named typed holds, gives]
    split
    · exact ⟨r, rfl, typed⟩
    · exact ⟨r', mapError_eq_ok.mpr assigned, typed'⟩

theorem applyFallbacks_total (standard : x.IsBuiltin c) (typed : r.Typed) :
    ∃ r', x.applyFallbacks r = .ok r' := by
  rw [applyFallbacks, standard.listed]
  obtain ⟨r', done, _⟩ :=
    foldlM_total (fun b member r typed => applyFallback_total member typed) typed
  exact ⟨r', done⟩

/-- The default of another tag leaves a field alone, and so does that of a tag which is set. -/
theorem applyFallback_keeps (owns : a.Owns c f) (typed : r.Typed) {b : Tag}
    (member : b ∈ Tag.builtins c) (idle : a.fallback = none ∨ r.has a.name = true)
    (done : applyFallback r b = .ok r') : r.Keeps a f r' := by
  have wrote := (Tag.confined_builtins c b member).fallback r r' typed done
  refine ⟨wrote.typed, wrote.kind, wrote.has (Tag.place_ne_tags member) a.name, ?_⟩
  by_cases same : b = a
  · subst same
    rcases fallback_builtins c b member with none | ⟨own, step, field, fallback, _⟩
    · rw [applyFallback, none] at done
      cases done
      rfl
    · have set : r.has b.name = true := idle.resolve_left (by simp [fallback])
      have place : own = f := by rw [← owns.place, Tag.place, field, Option.getD_some]
      subst place
      obtain ⟨current, holds, _⟩ := r.own_takes (Tag.merges_builtins c b member own field).1
      rw [Tag.applyFallback_of_typed fallback field (owns.stored "") typed holds, set] at done
      cases done
      rfl
  · exact wrote.own (owns.ne_place member same) owns.stored

theorem applyFallback_self (plain : a.Plain c f) (typed : r.Typed) (unset : r.has a.name = false)
    (before : r.own f = .ok f.empty ∨ r.own f = .ok (c.unset f))
    (done : applyFallback r a = .ok r') : r'.own f = .ok (c.unset f) := by
  rcases fallback_builtins c a plain.builtin with none | ⟨f', step, field, fallback, gives, takes, truthy⟩
  · rw [applyFallback, none] at done
    cases done
    rw [unset_of_none plain none] at before ⊢
    exact before.elim id id
  · cases Option.some.inj (field.symm.trans plain.field)
    rcases before with holds | holds
    · have empty : f.empty.truthy = false := by
        rw [Field.empty]
        split <;> rfl
      rw [Tag.applyFallback_of_typed fallback field (plain.owns.stored "") typed holds, unset, empty, gives]
        at done
      exact (Record.wrote_assign typed takes (mapError_eq_ok.mp done)).2
    · rw [Tag.applyFallback_of_typed fallback field (plain.owns.stored "") typed holds, unset, truthy]
        at done
      cases done
      exact holds

/-- Whatever the defaults set, they set no tag and leave the kind alone. -/
theorem applyFallbacks_frame (standard : x.IsBuiltin c) (typed : r.Typed)
    (done : x.applyFallbacks r = .ok r') : r'.Typed ∧ r'.kind = r.kind ∧ ∀ n, r'.has n = r.has n := by
  rw [applyFallbacks, standard.listed] at done
  refine foldlM_keeps (P := fun s => s.Typed ∧ s.kind = r.kind ∧ ∀ n, s.has n = r.has n)
    (fun b member s s' step kept => ?_) done ⟨typed, rfl, fun _ => rfl⟩
  obtain ⟨typed, kind, has⟩ := kept
  have wrote := (Tag.confined_builtins c b member).fallback s s' typed step
  exact ⟨wrote.typed, wrote.kind.trans kind,
    fun n => (wrote.has (Tag.place_ne_tags member) n).trans (has n)⟩

theorem applyFallbacks_keeps (standard : x.IsBuiltin c) (owns : a.Owns c f) (typed : r.Typed)
    (idle : a.fallback = none ∨ r.has a.name = true) (done : x.applyFallbacks r = .ok r') :
    r.Keeps a f r' := by
  rw [applyFallbacks, standard.listed] at done
  refine foldlM_keeps (fun b member s s' step keeps => ?_) done (Record.Keeps.refl typed)
  exact keeps.trans (applyFallback_keeps owns keeps.typed member (keeps.has ▸ idle) step)

theorem applyFallbacks_supplies (standard : x.IsBuiltin c) (plain : a.Plain c f) (typed : r.Typed)
    (unset : r.has a.name = false) (empty : r.own f = .ok f.empty)
    (done : x.applyFallbacks r = .ok r') : r'.own f = .ok (c.unset f) := by
  rw [applyFallbacks, standard.listed] at done
  have supplies : ∀ s s', applyFallback s a = .ok s' → s.Waits c a f → s'.own f = .ok (c.unset f) :=
    fun s s' step waits => applyFallback_self plain waits.typed waits.unset waits.value step
  refine foldlM_reaches plain.builtin supplies (fun b member s s' step waits => ?_) done
    ⟨typed, unset, Or.inl empty⟩
  have wrote := (Tag.confined_builtins c b member).fallback s s' waits.typed step
  have has : s'.has a.name = false :=
    (wrote.has (Tag.place_ne_tags member) a.name).trans waits.unset
  by_cases same : b = a
  · have supplied := supplies s s' (same ▸ step) waits
    exact ⟨⟨wrote.typed, has, Or.inr supplied⟩, fun _ => supplied⟩
  · have own := wrote.own (plain.owns.ne_place member same) plain.owns.stored
    refine ⟨⟨wrote.typed, has, ?_⟩, fun supplied => own.trans supplied⟩
    rw [own]
    exact waits.value

end Extractor

end SheetDoc
