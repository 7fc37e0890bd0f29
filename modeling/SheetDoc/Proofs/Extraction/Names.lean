import SheetDoc.Proofs.Extraction.Descriptions

namespace SheetDoc

theorem Tag.owns_context (c : Config) : Tag.rename.Owns c .context := ⟨rename_mem, rfl⟩

theorem Tag.place_ne_file {c : Config} {a : Tag} (builtin : a ∈ builtins c) : a.place ≠ .file := by
  rcases (⟨builtin, rfl⟩ : a.Owns c a.place).cases with context | ⟨_, merges⟩
  · rw [context]
    nofun
  · intro same
    rw [same] at merges
    cases merges

/-- A typed record of a file. -/
structure Record.InFile (file : FileRef) (r : Record) : Prop where
  typed : r.Typed
  file : r.file = file

theorem Record.InFile.wrote {file : FileRef} {f : Field} {r r' : Record} (here : r.InFile file)
    (wrote : r.Wrote f r') (other : f ≠ .file) : r'.InFile file := by
  have same : r'.file = r.file := by
    simpa [Record.own] using wrote.own (Ne.symm other) (by simp)
  exact ⟨wrote.typed, same.trans here.file⟩

theorem Record.context_of_own {r : Record} {context : Context}
    (own : r.own .context = .ok (.context context)) : r.context = context := by
  simpa [Record.own] using own

namespace Extractor

variable {x : Extractor} {c : Config} {b : Block} {file : FileRef} {r r' : Record}

/-- The name that a comment gives in the place of that of the code. -/
def nameOf? (x : Extractor) (b : Block) : Option String := (x.said "name" Tag.readName b).head?

theorem IsBuiltin.preserves_inFile (standard : x.IsBuiltin c) (file : FileRef) :
    x.Preserves (Record.InFile file) (Record.InFile file) where
  tag poster line item r r' here done := by
    rcases applyTag_ok done with rfl | kept | ⟨a, step, m, found, _, parses, parsed, marked⟩
    · exact here
    · exact here.wrote (wrote_keepUnknown here.typed kept) nofun
    · have builtin : a ∈ Tag.builtins c := standard.listed ▸ Registry.mem_of_get? found
      have wrote := (Tag.confined_builtins c a builtin).parse step parses _ r m here.typed parsed
      have written := here.wrote wrote (Tag.place_ne_file builtin)
      exact written.wrote (Record.wrote_mark written.typed marked).1 nofun
  signature r r' here done := by
    obtain ⟨change, rfl⟩ := fillSignatureDefaults_ok here.typed done
    exact ⟨here.typed, here.file⟩
  filling a member r r' here done := by
    have builtin := (standard.filling a member).1
    have wrote := (Tag.confined_builtins c a builtin).autofill r r' here.typed done
    exact here.wrote wrote (Tag.place_ne_file builtin)
  poster p name _ r r' source here done := by
    rcases takeOver_ok done with rfl | ⟨a, f, m, found, field, _, _, inherits, added⟩
    · exact here
    · have builtin : a ∈ Tag.builtins c := standard.listed ▸ Registry.mem_of_get? found
      have merges := (Tag.merges_builtins c a builtin f field).1
      have written := here.wrote (Record.wrote_inherit here.typed source.typed merges inherits).1
        (by rintro rfl; cases merges)
      exact written.wrote (Record.wrote_addTag written.typed added).1 nofun
  fallback a member r r' here done := by
    have builtin : a ∈ Tag.builtins c := standard.listed ▸ member
    have wrote := (Tag.confined_builtins c a builtin).fallback r r' here.typed done
    exact here.wrote wrote (Tag.place_ne_file builtin)

theorem context_of_extract (standard : x.IsBuiltin c) (done : (x.extract b file).result = .ok (some r)) :
    r.context = { (blank b file).context with
      name := (x.nameOf? b).getD (blank b file).context.name } := by
  have first : r.First Tag.rename .context (.context (blank b file).context)
      (fun name => .context { (blank b file).context with name := name })
      (x.said "name" Tag.readName b) := by
    refine extract_first standard (Tag.owns_context c) (by simp [Tag.rename]) rfl rfl rfl rfl nofun ?_ rfl
      done
    intro name r m typed own put
    rw [typed.contextFor, Record.context_of_own own] at put
    cases put
    exact ⟨typed, rfl⟩
  refine Record.context_of_own (first.own.trans (congrArg Except.ok ?_))
  rw [nameOf?]
  cases (x.said "name" Tag.readName b).head? <;> rfl

theorem inFile_of_extract (standard : x.IsBuiltin c) (done : (x.extract b file).result = .ok (some r)) :
    r.InFile file := by
  have start : (blank b file).InFile file := ⟨rfl, rfl⟩
  have here := (standard.preserves_inFile file).extract start done
  rwa [ite_self] at here

/-- A record has the construct of its block, under the name that the comment gives it, and its file. -/
theorem completes_context (standard : x.IsBuiltin c) {bs : List Block} {ps : List Record}
    (made : List.Forall₂ (fun b p => (x.extract b file).result = .ok (some p)) bs ps)
    (done : (x.extract b file).result = .ok (some r)) (completes : x.Completes ps r r') :
    r'.file = file ∧ r'.context = { (blank b file).context with
      name := (x.nameOf? b).getD (blank b file).context.name } := by
  have here := inFile_of_extract standard done
  have files : ∀ p ∈ ps, p.InFile file := by
    intro p member
    obtain ⟨b, _, done⟩ := exists_of_forall₂ made member
    exact inFile_of_extract standard done
  have keeps := completes_spared standard (Tag.owns_context c) rfl rfl here.typed
    (familiar_of_extracts standard made) completes
  refine ⟨((standard.preserves_inFile file).completes files here completes).file, ?_⟩
  rw [← context_of_extract standard done]
  exact Record.context_of_own keeps.own

end Extractor

end SheetDoc
