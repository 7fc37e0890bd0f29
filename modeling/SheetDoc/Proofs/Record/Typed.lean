import SheetDoc.Record.Access

namespace SheetDoc.Record

/-- The field holds a value of its own type. -/
def Holds (r : Record) (f : Field) : Prop := r.strays.get? f = none

namespace Holds

variable {r : Record} {f : Field} (holds : r.Holds f)

include holds

theorem flaw (part : String) : r.flaw f part = .ok () := by
  unfold Record.flaw
  rw [show r.strays.get? f = none from holds]

theorem adding (item : Item) (own : Record → Record) : r.adding f item own = .ok (own r) := by
  have value : r.strayValue? f = none := by simp only [strayValue?, show r.strays.get? f = none from holds]
  have tail : r.tail f = [] := by simp only [Record.tail, show r.strays.get? f = none from holds]
  simp only [Record.adding, holdsList, value, tail]
  rfl

end Holds

theorem contextFor_of_holds {r : Record} (holds : r.Holds .context) (part : String) :
    r.contextFor part = .ok r.context := by
  simp only [Record.contextFor, strayValue?, show r.strays.get? .context = none from holds]

/-- Every field holds a value of its own type. -/
def Typed (r : Record) : Prop := r.strays = []

namespace Typed

variable {r : Record} (typed : r.Typed)

include typed

theorem get? (f : Field) : r.strays.get? f = none := by
  rw [typed]
  rfl

theorem strayValue? (f : Field) : r.strayValue? f = none := by
  simp only [Record.strayValue?, typed.get?]

theorem tail (f : Field) : r.tail f = [] := by
  simp only [Record.tail, typed.get?]

theorem contextFor (part : String) : r.contextFor part = .ok r.context := by
  simp only [Record.contextFor, typed.strayValue?]

theorem readName : r.readName = .ok r.name := by
  rw [Record.readName, typed.contextFor]
  rfl

theorem readKind : r.readKind = .ok r.kind := by
  rw [Record.readKind, typed.contextFor]
  rfl

theorem readPath : r.readPath = .ok r.file.path := by
  simp only [Record.readPath, typed.strayValue?]

theorem canDo (ability : String) : r.canDo ability = .ok () := by
  simp only [Record.canDo, typed.strayValue?]

theorem refer : r.refer = .ok r.reference := by
  simp only [Record.refer, typed.canDo, typed.contextFor]
  rfl

theorem marks (tag : String) : r.marks tag = .ok (r.has tag) := by
  simp only [Record.marks, typed.strayValue?]

theorem sets (tag : String) : r.sets tag = .ok (r.has tag) := by
  simp only [Record.sets, typed.canDo, typed.marks]
  rfl

theorem flaw (f : Field) (part : String) : r.flaw f part = .ok () := by
  simp only [Record.flaw, typed.get?]

theorem adding (f : Field) (item : Item) (own : Record → Record) :
    r.adding f item own = .ok (own r) := by
  simp only [Record.adding, holdsList, typed.strayValue?, typed.tail]
  rfl

theorem read (f : Field) : r.read f = r.own f := by
  simp only [Record.read, typed.get?]

theorem settle (f : Field) : (r.settle f).Typed := by
  simp only [Typed, Record.settle]
  rw [typed]
  rfl

end Typed

end SheetDoc.Record
