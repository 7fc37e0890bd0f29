import SheetDoc.Run.Basic
import SheetDoc.Proofs.Extraction.Draft

namespace SheetDoc

/-- The configuration with another word on whether the run is strict. -/
def Config.withStrict (c : Config) (d : Data) : Config := { c with strict := d }

namespace Run

variable {c : Config} {x : Extractor}

/-- The extractor of a run without tags of its own and without a given registry. -/
theorem isBuiltin_of_prepare (prepared : prepare c [] none = .ok x) : x.IsBuiltin c := by
  obtain ⟨g, standard, made⟩ := bind_eq_ok.mp prepared
  have made : Extractor.make { g with frozen := true } c = .ok x := made
  exact Extractor.isBuiltin_of_make (mapError_eq_ok.mp standard) made

theorem settings_of_prepare (prepared : prepare c [] none = .ok x) :
    x.includeUnknown = c.includesUnknown ∧ x.defaultGroup = c.defaultGroup := by
  obtain ⟨g, _, made⟩ := bind_eq_ok.mp prepared
  have made : Extractor.make { g with frozen := true } c = .ok x := made
  obtain ⟨_, unknown, group, _⟩ := Extractor.make_ok made
  exact ⟨unknown, group⟩

/-- No tag and no step of extraction asks whether the run is strict. -/
theorem prepare_withStrict (c : Config) (d : Data) (more : List Tag) (given : Option Registry) :
    prepare (c.withStrict d) more given = prepare c more given := by
  have builtins : Tag.builtins (c.withStrict d) = Tag.builtins c := rfl
  have registered : Registry.standard (c.withStrict d) more = Registry.standard c more := by
    rw [Registry.standard, builtins, Registry.standard]
  have made : ∀ g, Extractor.make g (c.withStrict d) = Extractor.make g c := fun _ => rfl
  simp only [prepare, registered, made]

/-- The extractor of a run without settings. -/
def filling : Extractor where
  registry := { Registry.builtin .default with frozen := true }
  includeUnknown := false
  defaultGroup := "undefined"
  autofill := [Tag.require, Tag.throw, Tag.content]

theorem prepare_default : prepare .default [] none = .ok filling := by
  rw [prepare, Registry.standard_nil]
  rfl

end Run

end SheetDoc
