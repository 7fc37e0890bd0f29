import SheetDoc.Event
import SheetDoc.Failure

namespace SheetDoc

/-- The result of a step with the events it gave rise to. A step that fails keeps the events up to its
failure. -/
structure Report (α : Type) where
  events : List Event
  result : Except Failure α

namespace Report

variable {α β : Type}

def done (value : α) : Report α := ⟨[], .ok value⟩

def fail (failure : Failure) : Report α := ⟨[], .error failure⟩

def ofExcept (result : Except Failure α) : Report α := ⟨[], result⟩

/-- Reports an event and goes on with a value. -/
def tell (event : Event) (value : α) : Report α := ⟨[event], .ok value⟩

def andThen (step : Report α) (next : α → Report β) : Report β :=
  match step.result with
  | .error failure => ⟨step.events, .error failure⟩
  | .ok value => ⟨step.events ++ (next value).events, (next value).result⟩

instance : Monad Report where
  pure := done
  bind := andThen

instance : MonadLift (Except Failure) Report where
  monadLift := ofExcept

/-- Carries a value through a step for each item. -/
def foldl (step : β → α → Report β) (value : β) : List α → Report β
  | [] => done value
  | a :: rest => (step value a).andThen fun next => foldl step next rest

/-- A step for each item, with the results in order. -/
def forEach (step : α → Report β) : List α → Report (List β)
  | [] => done []
  | a :: rest =>
    (step a).andThen fun value => (forEach step rest).andThen fun values => done (value :: values)

theorem done_andThen (value : α) (next : α → Report β) :
    (done value).andThen next = next value := by
  simp [done, andThen]

theorem andThen_assoc {γ : Type} (step : Report α) (next : α → Report β) (last : β → Report γ) :
    (step.andThen next).andThen last = step.andThen fun value => (next value).andThen last := by
  obtain ⟨events, result⟩ := step
  cases result with
  | error failure => simp [andThen]
  | ok value =>
    simp only [andThen]
    cases (next value).result <;> simp

end Report

end SheetDoc
