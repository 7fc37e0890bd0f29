import SheetDoc.Proofs.Extraction.Precedence
import SheetDoc.Proofs.Extraction.Totality
import SheetDoc.Proofs.Extraction.Unlined

namespace SheetDoc.Extractor

variable {x : Extractor} {c : Config}

/-- Whichever style a comment is written in, above the same rest of a file it gives the same records,
group descriptions and events, but for lines. Where private names are told by a text, either source
is read to its end. -/
theorem parseSource_styles {g : Registry} {frozen : Bool}
    (standard : Registry.standard c [] = .ok g) (made : make { g with frozen := frozen } c = .ok x)
    {ls : List Line} (nonempty : ls ≠ []) (text : ∀ l ∈ ls, IsCommentText l) {rest : Option String}
    (unmarked : ∀ l ∈ (restLines rest).head?, ¬IsMarked l) (file : FileRef) :
    let marked := x.parseSource (sourceOf (lineComment ls) rest) file
    let block := x.parseSource (sourceOf (blockComment ls) rest) file
    marked.events.map Event.unlined = block.events.map Event.unlined ∧
      marked.result.map FileRecords.unlined = block.result.map FileRecords.unlined ∧
      (c.HasTextPrefix → ∃ found found', marked.result = .ok found ∧ block.result = .ok found' ∧
        found.records.map Record.unlined = found'.records.map Record.unlined ∧
        found.groupDescriptions = found'.groupDescriptions) := by
  intro marked block
  have builtin := isBuiltin_of_make standard made
  have alike := scanBlocks_styles nonempty text unmarked
  obtain ⟨events, results⟩ := Report.mk.inj (builtin.blur_parseSource alike file)
  refine ⟨events, results, fun prefixed => ?_⟩
  obtain ⟨found, first⟩ :=
    parseSource_total builtin prefixed (sourceOf (lineComment ls) rest) file
  obtain ⟨found', second⟩ :=
    parseSource_total builtin prefixed (sourceOf (blockComment ls) rest) file
  rw [first, second] at results
  have same : found.unlined = found'.unlined := Except.ok.inj results
  obtain ⟨records, groups⟩ := FileRecords.mk.inj same
  exact ⟨found, found', first, second, records, groups⟩

/-- A comment with a star, an indented line and an empty one. -/
def starredText : List Line :=
  ["* Adds one.".toList, "  @todo".toList, [], "@author me".toList]

theorem parseSource_styles_starred :
    let marked := quiet.parseSource
      "/// * Adds one.\n///   @todo\n/// \n/// @author me\n$a: 1;" ⟨"a.scss", "a.scss"⟩
    let block := quiet.parseSource
      "/**\n * * Adds one.\n *   @todo\n * \n * @author me\n */\n$a: 1;" ⟨"a.scss", "a.scss"⟩
    ∃ found found', marked.result = .ok found ∧ block.result = .ok found' ∧
      found.records.map Record.unlined = found'.records.map Record.unlined := by
  have made : make { Registry.builtin quietConfig with frozen := true } quietConfig = .ok quiet := rfl
  have nonempty : starredText ≠ [] := List.cons_ne_nil _ _
  have text : ∀ l ∈ starredText, IsCommentText l := by decide +kernel
  have unmarked : ∀ l ∈ (restLines (some "$a: 1;")).head?, ¬IsMarked l := by decide +kernel
  have prefixed : quietConfig.HasTextPrefix := fun _ => ⟨_, rfl⟩
  have lines : sourceOf (lineComment starredText) (some "$a: 1;") =
      "/// * Adds one.\n///   @todo\n/// \n/// @author me\n$a: 1;" := by decide +kernel
  have block : sourceOf (blockComment starredText) (some "$a: 1;") =
      "/**\n * * Adds one.\n *   @todo\n * \n * @author me\n */\n$a: 1;" := by decide +kernel
  obtain ⟨_, _, returns⟩ := parseSource_styles (Registry.standard_nil quietConfig) made
    nonempty text unmarked ⟨"a.scss", "a.scss"⟩
  rw [lines, block] at returns
  obtain ⟨found, found', first, second, same, _⟩ := returns prefixed
  exact ⟨found, found', first, second, same⟩

end SheetDoc.Extractor
