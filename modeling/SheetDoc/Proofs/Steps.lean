import Mathlib.Data.List.Forall2
import SheetDoc.Failure

namespace SheetDoc

theorem bind_eq_ok {ε α β : Type} {x : Except ε α} {f : α → Except ε β} {b : β} :
    x >>= f = .ok b ↔ ∃ a, x = .ok a ∧ f a = .ok b := by
  cases x <;> simp [bind, Except.bind]

theorem bind_eq_error {ε α β : Type} {x : Except ε α} {f : α → Except ε β} {e : ε} :
    x >>= f = .error e ↔ x = .error e ∨ ∃ a, x = .ok a ∧ f a = .error e := by
  cases x <;> simp [bind, Except.bind]

theorem mapError_eq_ok {ε ε' α : Type} {x : Except ε α} {f : ε → ε'} {a : α} :
    x.mapError f = .ok a ↔ x = .ok a := by
  cases x <;> simp [Except.mapError]

/-- Two steps that agree seen through a function end alike. -/
theorem map_eq_map {ε α β : Type} {x y : Except ε α} {f : α → β} (same : x.map f = y.map f) :
    (∃ a b, x = .ok a ∧ y = .ok b ∧ f a = f b) ∨ ∃ e, x = .error e ∧ y = .error e := by
  cases x with
  | error e =>
    cases y with
    | error e' =>
      cases same
      exact Or.inr ⟨e, rfl, rfl⟩
    | ok b => cases same
  | ok a =>
    cases y with
    | error e' => cases same
    | ok b => exact Or.inl ⟨a, b, rfl, rfl, Except.ok.inj same⟩

theorem mapM_eq_ok {ε α β : Type} {f : α → Except ε β} {as : List α} {bs : List β} :
    as.mapM f = .ok bs ↔ List.Forall₂ (fun a b => f a = .ok b) as bs := by
  induction as generalizing bs with
  | nil => cases bs <;> simp [pure, Except.pure]
  | cons a rest ih =>
    simp only [List.mapM_cons, bind_eq_ok, List.forall₂_cons_left_iff, ih]
    constructor
    · rintro ⟨b, first, bs, later, done⟩
      exact ⟨b, bs, first, later, (Except.ok.inj done).symm⟩
    · rintro ⟨b, bs, first, later, rfl⟩
      exact ⟨b, first, bs, later, rfl⟩

theorem foldlM_cons_eq_ok {ε α β : Type} {f : β → α → Except ε β} {a : α} {rest : List α}
    {b b' : β} :
    (a :: rest).foldlM f b = .ok b' ↔ ∃ m, f b a = .ok m ∧ rest.foldlM f m = .ok b' := by
  rw [List.foldlM_cons, bind_eq_ok]

theorem foldlM_keeps {ε α β : Type} {f : β → α → Except ε β} {P : β → Prop} {l : List α}
    (keeps : ∀ a ∈ l, ∀ b b', f b a = .ok b' → P b → P b') {b b' : β}
    (done : l.foldlM f b = .ok b') (holds : P b) : P b' := by
  induction l generalizing b with
  | nil =>
    cases done
    exact holds
  | cons a rest ih =>
    obtain ⟨m, first, later⟩ := foldlM_cons_eq_ok.mp done
    exact ih (fun c inside => keeps c (List.mem_cons_of_mem a inside)) later
      (keeps a List.mem_cons_self b m first holds)

theorem foldlM_total {ε α β : Type} {f : β → α → Except ε β} {P : β → Prop} {l : List α}
    (total : ∀ a ∈ l, ∀ b, P b → ∃ b', f b a = .ok b' ∧ P b') {b : β} (holds : P b) :
    ∃ b', l.foldlM f b = .ok b' ∧ P b' := by
  induction l generalizing b with
  | nil => exact ⟨b, rfl, holds⟩
  | cons a rest ih =>
    obtain ⟨m, first, next⟩ := total a List.mem_cons_self b holds
    obtain ⟨b', later, reached⟩ := ih (fun c inside => total c (List.mem_cons_of_mem a inside)) next
    exact ⟨b', foldlM_cons_eq_ok.mpr ⟨m, first, later⟩, reached⟩

/-- What one step of a way brings about, and no step takes back, holds at its end. -/
theorem foldlM_reaches {ε α β : Type} {f : β → α → Except ε β} {P Q : β → Prop} {l : List α} {a : α}
    (member : a ∈ l) (reaches : ∀ b b', f b a = .ok b' → P b → Q b')
    (keeps : ∀ c ∈ l, ∀ b b', f b c = .ok b' → P b → P b' ∧ (Q b → Q b')) {b b' : β}
    (done : l.foldlM f b = .ok b') (holds : P b) : Q b' := by
  induction l generalizing b with
  | nil => cases member
  | cons c rest ih =>
    obtain ⟨m, first, later⟩ := foldlM_cons_eq_ok.mp done
    have kept := (keeps c List.mem_cons_self b m first holds).1
    have others := fun d (inside : d ∈ rest) => keeps d (List.mem_cons_of_mem c inside)
    rcases List.mem_cons.mp member with rfl | inside
    · refine (foldlM_keeps (P := fun s => P s ∧ Q s) ?_ later ⟨kept, reaches b m first holds⟩).2
      intro d inside s s' step both
      have next := others d inside s s' step both.1
      exact ⟨next.1, next.2 both.2⟩
    · exact ih inside others later kept

theorem exists_forall₂ {α β : Type} {R : α → β → Prop} {as : List α}
    (each : ∀ a ∈ as, ∃ b, R a b) : ∃ bs, List.Forall₂ R as bs := by
  induction as with
  | nil => exact ⟨[], .nil⟩
  | cons a rest ih =>
    obtain ⟨b, first⟩ := each a List.mem_cons_self
    obtain ⟨bs, later⟩ := ih fun c inside => each c (List.mem_cons_of_mem a inside)
    exact ⟨b :: bs, .cons first later⟩

theorem mapM_total {ε α β : Type} {f : α → Except ε β} {as : List α}
    (total : ∀ a ∈ as, ∃ b, f a = .ok b) : ∃ bs, as.mapM f = .ok bs := by
  obtain ⟨bs, each⟩ := exists_forall₂ total
  exact ⟨bs, mapM_eq_ok.mpr each⟩

theorem exists_of_forall₂ {α β : Type} {R : α → β → Prop} {as : List α} {bs : List β}
    (related : List.Forall₂ R as bs) {b : β} (member : b ∈ bs) : ∃ a ∈ as, R a b := by
  induction related with
  | nil => cases member
  | cons first _ ih =>
    rcases List.mem_cons.mp member with rfl | later
    · exact ⟨_, List.mem_cons_self, first⟩
    · obtain ⟨a, inside, same⟩ := ih later
      exact ⟨a, List.mem_cons_of_mem _ inside, same⟩

/-- What stands at a place of one list is related to what stands there in the other. -/
theorem getElem?_of_forall₂ {α β : Type} {R : α → β → Prop} {as : List α} {bs : List β}
    (related : List.Forall₂ R as bs) {i : Nat} {b : β} (atI : bs[i]? = some b) :
    ∃ a, as[i]? = some a ∧ R a b := by
  obtain ⟨length, each⟩ := List.forall₂_iff_get.mp related
  obtain ⟨inside, rfl⟩ := List.getElem?_eq_some_iff.mp atI
  have before : i < as.length := by omega
  exact ⟨as[i], List.getElem?_eq_getElem before, each i before inside⟩

theorem forall₂_comp {α β γ : Type} {R : α → β → Prop} {S : β → γ → Prop} {as : List α}
    {bs : List β} {cs : List γ} (first : List.Forall₂ R as bs) (second : List.Forall₂ S bs cs) :
    List.Forall₂ (fun a c => ∃ b, R a b ∧ S b c) as cs := by
  induction first generalizing cs with
  | nil =>
    cases second
    exact .nil
  | cons here _ ih =>
    cases second with
    | cons there later => exact .cons ⟨_, here, there⟩ (ih later)

theorem exists_of_forall₂_comp {α β γ : Type} {R : α → β → Prop} {S : β → γ → Prop} {as : List α}
    {cs : List γ} (related : List.Forall₂ (fun a c => ∃ b, R a b ∧ S b c) as cs) :
    ∃ bs, List.Forall₂ R as bs ∧ List.Forall₂ S bs cs := by
  induction related with
  | nil => exact ⟨[], .nil, .nil⟩
  | cons here _ ih =>
    obtain ⟨b, first, second⟩ := here
    obtain ⟨bs, firsts, seconds⟩ := ih
    exact ⟨b :: bs, .cons first firsts, .cons second seconds⟩

/-- To carry every item of a list through the same steps is to take the list through each step. -/
theorem foldlM_mapM_eq_ok {ε α β : Type} {f : α → β → Except ε β} {steps : List α}
    {bs bs' : List β} (done : steps.foldlM (fun bs a => bs.mapM (f a)) bs = .ok bs') :
    List.Forall₂ (fun b b' => steps.foldlM (fun b a => f a b) b = .ok b') bs bs' := by
  induction steps generalizing bs with
  | nil =>
    cases done
    exact List.forall₂_same.mpr fun _ _ => rfl
  | cons a rest ih =>
    obtain ⟨ms, first, later⟩ := foldlM_cons_eq_ok.mp done
    refine (forall₂_comp (mapM_eq_ok.mp first) (ih later)).imp ?_
    rintro b b' ⟨m, here, there⟩
    exact foldlM_cons_eq_ok.mpr ⟨m, here, there⟩

theorem foldlM_mapM_of_forall₂ {ε α β : Type} {f : α → β → Except ε β} {steps : List α}
    {bs bs' : List β}
    (each : List.Forall₂ (fun b b' => steps.foldlM (fun b a => f a b) b = .ok b') bs bs') :
    steps.foldlM (fun bs a => bs.mapM (f a)) bs = .ok bs' := by
  induction steps generalizing bs with
  | nil =>
    have same : List.Forall₂ Eq bs bs' := each.imp fun _ _ => Except.ok.inj
    rw [List.forall₂_eq_eq_eq] at same
    exact congrArg Except.ok same
  | cons a rest ih =>
    obtain ⟨ms, first, later⟩ :=
      exists_of_forall₂_comp (each.imp fun _ _ done => foldlM_cons_eq_ok.mp done)
    exact foldlM_cons_eq_ok.mpr ⟨ms, mapM_eq_ok.mpr first, ih later⟩

variable {α σ : Type} {step : α → σ → σ × Option Failure}

theorem eachUntil_cons_done {a : α} {rest : List α} {s s' : σ} :
    eachUntil step (a :: rest) s = (s', none) ↔
      ∃ m, step a s = (m, none) ∧ eachUntil step rest m = (s', none) := by
  rw [eachUntil]
  obtain ⟨m, _ | failure⟩ := step a s
  · simp
  · simp

theorem eachUntil_cons_of_done {a : α} {rest : List α} {s : σ} (done : (step a s).2 = none) :
    eachUntil step (a :: rest) s = eachUntil step rest (step a s).1 := by
  rw [eachUntil]
  generalize step a s = reached at done
  obtain ⟨m, _ | failure⟩ := reached
  · rfl
  · cases done

/-- The second part of a way is gone when the first ends well. -/
theorem eachUntil_append (l l' : List α) (s : σ) :
    eachUntil step (l ++ l') s =
      match eachUntil step l s with
      | (m, none) => eachUntil step l' m
      | failed => failed := by
  induction l generalizing s with
  | nil => rfl
  | cons a rest ih =>
    rw [List.cons_append, eachUntil, eachUntil]
    obtain ⟨m, _ | failure⟩ := step a s
    · exact ih m
    · rfl

/-- Where all steps but one do nothing, the way is that step. -/
theorem eachUntil_of_idle {front rest : List α} {a : α}
    (before : ∀ b ∈ front, ∀ s, step b s = (s, none))
    (after : ∀ b ∈ rest, ∀ s, step b s = (s, none)) (s : σ) :
    eachUntil step (front ++ a :: rest) s = step a s := by
  have idle : ∀ s, eachUntil step rest s = (s, none) := by
    intro s
    induction rest with
    | nil => rfl
    | cons b rest ih =>
      rw [eachUntil, after b List.mem_cons_self]
      exact ih fun b inside => after b (List.mem_cons_of_mem _ inside)
  induction front with
  | nil =>
    rw [List.nil_append, eachUntil]
    obtain ⟨m, _ | failure⟩ := step a s
    · exact idle m
    · rfl
  | cons b front ih =>
    rw [List.cons_append, eachUntil, before b List.mem_cons_self]
    exact ih fun b inside => before b (List.mem_cons_of_mem _ inside)

/-- What the steps of a way that ends well add to a list, the way adds in their order. -/
theorem eachUntil_gathers {β : Type} {P : σ → Prop} {view : σ → List β} {told : α → List β}
    {l : List α}
    (each : ∀ a ∈ l, ∀ s s', P s → step a s = (s', none) → P s' ∧ view s' = view s ++ told a)
    {s s' : σ} (holds : P s) (done : eachUntil step l s = (s', none)) :
    P s' ∧ view s' = view s ++ l.flatMap told := by
  induction l generalizing s with
  | nil =>
    cases done
    exact ⟨holds, (List.append_nil _).symm⟩
  | cons a rest ih =>
    obtain ⟨m, first, later⟩ := eachUntil_cons_done.mp done
    obtain ⟨next, here⟩ := each a List.mem_cons_self s m holds first
    obtain ⟨last, there⟩ := ih (fun b inside => each b (List.mem_cons_of_mem a inside)) next later
    refine ⟨last, ?_⟩
    rw [there, here, List.flatMap_cons, List.append_assoc]

/-- Where each step goes on from what has been done before it, the way does, step after step. -/
theorem eachUntil_extends {β : Type} {P : List β → σ → Prop} {added : α → List β} {l : List α}
    (each : ∀ a ∈ l, ∀ front s s', P front s → step a s = (s', none) → P (front ++ added a) s')
    {front : List β} {s s' : σ} (holds : P front s) (done : eachUntil step l s = (s', none)) :
    P (front ++ l.flatMap added) s' := by
  induction l generalizing front s with
  | nil =>
    cases done
    simpa using holds
  | cons a rest ih =>
    obtain ⟨m, first, later⟩ := eachUntil_cons_done.mp done
    have next := each a List.mem_cons_self front s m holds first
    rw [List.flatMap_cons, ← List.append_assoc]
    exact ih (fun b inside => each b (List.mem_cons_of_mem a inside)) next later

/-- The invariant is asked of each step that is taken, also of one that fails. -/
theorem eachUntil_keeps {P : σ → Prop} {l : List α}
    (keeps : ∀ a ∈ l, ∀ s, P s → P (step a s).1) {s : σ} (holds : P s) :
    P (eachUntil step l s).1 := by
  induction l generalizing s with
  | nil => exact holds
  | cons a rest ih =>
    have next := keeps a List.mem_cons_self s holds
    rw [eachUntil]
    split
    · rename_i m done
      rw [done] at next
      exact ih (fun b inside => keeps b (List.mem_cons_of_mem a inside)) next
    · exact next

/-- A failure on the way is the failure of one of its steps. -/
theorem eachUntil_failure {Q : Failure → Prop} {l : List α}
    (each : ∀ a ∈ l, ∀ s failure, (step a s).2 = some failure → Q failure) {s : σ}
    {failure : Failure} (failed : (eachUntil step l s).2 = some failure) : Q failure := by
  induction l generalizing s with
  | nil => cases failed
  | cons a rest ih =>
    rw [eachUntil] at failed
    split at failed
    · exact ih (fun b inside => each b (List.mem_cons_of_mem a inside)) failed
    · exact each a List.mem_cons_self s failure failed

/-- Where each step keeps an invariant and ends well under it, the whole way ends well. -/
theorem eachUntil_total {P : σ → Prop} {l : List α}
    (total : ∀ a ∈ l, ∀ s, P s → (step a s).2 = none ∧ P (step a s).1) {s : σ} (holds : P s) :
    (eachUntil step l s).2 = none ∧ P (eachUntil step l s).1 := by
  induction l generalizing s with
  | nil => exact ⟨rfl, holds⟩
  | cons a rest ih =>
    obtain ⟨done, next⟩ := total a List.mem_cons_self s holds
    rw [eachUntil]
    split
    · rename_i m same
      rw [same] at next
      exact ih (fun b inside => total b (List.mem_cons_of_mem a inside)) next
    · exact ⟨done, next⟩

end SheetDoc
