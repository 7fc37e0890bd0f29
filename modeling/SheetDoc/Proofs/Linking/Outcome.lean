import SheetDoc.Proofs.Linking.Frame

namespace SheetDoc

/-- A failure that comes from a field of another type. -/
def Failure.IsMisuse (failure : Failure) : Prop := ∃ fault, failure = .misuse fault

theorem Failure.isMisuse_of_lift {α : Type} {step : Except Misuse α} {failure : Failure}
    (failed : step.mapError Failure.misuse = .error failure) : failure.IsMisuse := by
  cases step <;> cases failed
  exact ⟨_, rfl⟩

theorem Store.search_misuse {s : Store} {target : Int} {seen stack : List Int} {failure : Failure}
    (failed : s.search target seen stack = .error failure) : failure.IsMisuse := by
  fun_induction Store.search s target seen stack with
  | case1 | case2 => cases failed
  | case3 _ _ _ _ _ ih => exact ih failed
  | case4 | case5 =>
    cases failed
    exact ⟨_, rfl⟩
  | case6 _ _ _ _ _ _ _ _ _ ih => exact ih failed

namespace Linking

variable {l : Linking} {failure : Failure}

theorem misuse_problem {r : Record} {message : String}
    (failed : (problem r message l).2 = some failure) : failure.IsMisuse := by
  unfold problem at failed
  split at failed <;> cases failed
  exact ⟨_, rfl⟩

theorem misuse_notice {r : Record} {message : String}
    (failed : (notice r message l).2 = some failure) : failure.IsMisuse := by
  unfold notice at failed
  split at failed <;> cases failed
  exact ⟨_, rfl⟩

theorem misuse_change {uid : Int} {f : Record → Except Misuse Record}
    (failed : (change uid f l).2 = some failure) : failure.IsMisuse := by
  unfold change at failed
  split at failed <;> cases failed
  exact ⟨_, rfl⟩

theorem misuse_andThen {done : Linking × Option Failure}
    {next : Linking → Linking × Option Failure}
    (first : ∀ failure, done.2 = some failure → failure.IsMisuse)
    (second : ∀ l failure, (next l).2 = some failure → failure.IsMisuse)
    (failed : (andThen done next).2 = some failure) : failure.IsMisuse := by
  unfold andThen at failed
  split at failed
  · exact second _ _ failed
  · exact first _ failed

theorem misuse_linkAliases {rs : List Record}
    (failed : (linkAliases rs l).2 = some failure) : failure.IsMisuse := by
  have name : ∀ r n l failure, (linkAlias r n l).2 = some failure → failure.IsMisuse := by
    intro r n l failure failed
    unfold linkAlias at failed
    split at failed
    · exact misuse_problem failed
    · split at failed
      · exact misuse_notice failed
      · exact misuse_change failed
  refine eachUntil_failure (fun r _ l failure failed => ?_) failed
  unfold linkRecordAliases at failed
  split at failed
  · split at failed
    · cases failed
      exact ⟨_, rfl⟩
    · exact eachUntil_failure (fun n _ => name r n) failed
  · exact eachUntil_failure (fun n _ => name r n) failed

theorem misuse_linkTarget {r t : Record}
    (failed : (linkTarget r t l).2 = some failure) : failure.IsMisuse := by
  unfold linkTarget at failed
  split at failed
  · rename_i stopped
    cases failed
    exact Store.search_misuse stopped
  · exact misuse_andThen (fun _ => misuse_change) (fun _ _ => misuse_notice) failed
  · exact misuse_change failed

theorem misuse_linkRequires {rs : List Record}
    (failed : (linkRequires rs l).2 = some failure) : failure.IsMisuse := by
  have entry : ∀ r e l failure, (linkRequire r e l).2 = some failure → failure.IsMisuse := by
    intro r ⟨e, index⟩ l failure failed
    unfold linkRequire at failed
    simp only at failed
    split at failed
    · split at failed
      · cases failed
      · exact misuse_problem failed
    · split at failed
      · cases failed
        exact ⟨_, rfl⟩
      · exact misuse_linkTarget failed
  refine eachUntil_failure (fun r _ l failure failed => ?_) failed
  refine misuse_andThen (fun _ => eachUntil_failure fun e _ => entry r e) (fun l _ failed => ?_)
    failed
  split at failed <;> cases failed
  exact ⟨_, rfl⟩

theorem misuse_resolveAll {g : Registry} {uids : List Int}
    (failed : (resolveAll g uids l).2 = some failure) : failure.IsMisuse := by
  refine eachUntil_failure (fun a _ l failure failed => ?_) failed
  unfold resolveTag at failed
  split at failed
  · cases failed
  · refine eachUntil_failure (fun uid _ l failure failed => ?_) failed
    unfold resolveRecord at failed
    split at failed
    · cases failed
    · simp only at failed
      split at failed
      · exact misuse_problem failed
      · exact eachUntil_failure (fun _ _ _ _ => misuse_problem) failed

end Linking

/-- A linking that ends: by itself, or in a strict run with its first problem. -/
def Linking.Ends (failure : Option Failure) : Prop :=
  ∀ f, failure = some f → ∃ problem, f = .strict problem

/-- What a linking that ends has gone through. -/
structure Store.LinkedBy (g : Registry) (s : Store) (aliased required resolved : Linking) : Prop where
  aliases : Linking.linkAliases s.known { store := s } = (aliased, none)
  requires : Linking.linkRequires s.known aliased = (required, none)
  pointers : Linking.resolveAll g (s.known.map (·.uid)) required = (resolved, none)

theorem Linking.andThen_done {done : Linking × Option Failure}
    {next : Linking → Linking × Option Failure} {l' : Linking} :
    andThen done next = (l', none) ↔ ∃ l, done = (l, none) ∧ next l = (l', none) := by
  obtain ⟨l, _ | failure⟩ := done
  · simp [andThen]
  · simp [andThen]

theorem Linking.Ends.not_misuse {failure : Failure} (ends : Ends (some failure)) :
    ¬failure.IsMisuse := by
  obtain ⟨problem, strict⟩ := ends failure rfl
  rintro ⟨fault, same⟩
  rw [strict] at same
  cases same

/-- A phase that comes before others ends well in a linking that ends. -/
theorem Linking.Ends.phase {phase : Linking × Option Failure}
    {next : Linking → Linking × Option Failure}
    (misuse : ∀ failure, phase.2 = some failure → failure.IsMisuse)
    (ends : Ends (andThen phase next).2) :
    ∃ l, phase = (l, none) ∧ andThen phase next = next l := by
  obtain ⟨l, _ | failure⟩ := phase
  · exact ⟨l, rfl, rfl⟩
  · exact absurd (misuse failure rfl) ends.not_misuse

theorem Store.mem_known_iff {s : Store} {r : Record} :
    r ∈ s.known ↔ r ∈ s.records ∧ r.kind ≠ .unknown := by
  simp [known]

theorem Store.mem_records_of_known {s : Store} {r : Record} (member : r ∈ s.known) :
    r ∈ s.records := (mem_known_iff.mp member).1

theorem Store.kind_ne_of_known {s : Store} {r : Record} (member : r ∈ s.known) :
    r.kind ≠ .unknown := (mem_known_iff.mp member).2

theorem Store.phases_misuse {g : Registry} {s : Store} {failure : Failure}
    (failed : (s.phases g).2 = some failure) : failure.IsMisuse :=
  Linking.misuse_andThen (fun _ => Linking.misuse_andThen (fun _ => Linking.misuse_linkAliases)
    fun _ _ => Linking.misuse_linkRequires) (fun _ _ => Linking.misuse_resolveAll) failed

theorem Store.link_ends {g : Registry} {strict : Bool} {s : Store}
    (ends : Linking.Ends (s.link g strict).2) :
    ∃ aliased required resolved, s.LinkedBy g aliased required resolved ∧
      (s.link g strict).1.store = resolved.store ∧
      Linking.Reports (fun e => e.level = .error) resolved (s.link g strict).1 := by
  obtain ⟨resolved, done, last⟩ := ends.phase fun _ => phases_misuse
  rw [link, last]
  obtain ⟨required, done, pointers⟩ := Linking.andThen_done.mp done
  obtain ⟨aliased, aliases, requires⟩ := Linking.andThen_done.mp done
  refine ⟨aliased, required, resolved, ⟨aliases, requires, pointers⟩, ?_⟩
  unfold Linking.escalate
  split
  · exact ⟨rfl, _, rfl, by simp [Event.fatal]⟩
  · exact ⟨rfl, .refl resolved⟩

end SheetDoc
