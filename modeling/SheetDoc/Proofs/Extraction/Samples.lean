import SheetDoc.Proofs.Comment.Samples
import SheetDoc.Proofs.Extraction.Precedence
import SheetDoc.Proofs.Extraction.Totality

namespace SheetDoc.Extractor

variable {x : Extractor} {c : Config} {a : Tag} {f : Field} {r : Record}

/-- What the code does not fill in stays while a draft is finished. -/
theorem finishDraft_keeps (standard : x.IsBuiltin c) (owns : a.Owns c f) (other : f ≠ .parameter)
    (unfilled : a.autofill = none) (typed : r.Typed) :
    ∃ r', x.finishDraft false r = .done (some r') ∧ r.Keeps a f r' := by
  obtain ⟨m, filled⟩ := fillSignatureDefaults_total typed
  have fills : ∀ b ∈ x.autofill, ∀ s : Record, r.Keeps a f s →
      ∃ s', runAutofill s b = .ok s' ∧ r.Keeps a f s' := by
    intro b member s keeps
    obtain ⟨inside, fills⟩ := standard.filling b member
    obtain ⟨s', done⟩ := Tag.runAutofill_builtins b inside s keeps.typed
    exact ⟨s', done, keeps.trans
      (runAutofill_keeps owns keeps.typed inside (by rintro rfl; exact fills unfilled) done)⟩
  obtain ⟨r', autofilled, keeps⟩ := foldlM_total fills (fillSignatureDefaults_keeps owns other typed filled)
  refine ⟨r', ?_, keeps⟩
  have steps : (do return some (← x.autofill.foldlM runAutofill (← fillSignatureDefaults r)) :
      Except Failure (Option Record)) = .ok (some r') :=
    bind_eq_ok.mpr ⟨m, mapError_eq_ok.mpr filled, bind_eq_ok.mpr ⟨r', autofilled, rfl⟩⟩
  exact congrArg Report.ofExcept steps

theorem owns_sample (c : Config) : Tag.sample.Owns c .sample := ⟨by simp [Tag.builtins], rfl⟩

theorem examples_of_keeps {r' : Record} (keeps : r.Keeps Tag.sample .sample r') :
    r'.examples = r.examples :=
  Record.eq_of_list (fun _ _ same => by simpa using same) keeps.own

/-- An example whose code is read is noted. -/
theorem applyTag_sample (standard : x.IsBuiltin c) {raw : String} {e : Example}
    (read : readExample raw = .ok e) (offset : Nat) (poster : Bool) (line : Int) (typed : r.Typed) :
    ∃ r', x.applyTag poster line r ⟨"example", raw, offset⟩ = .done r' ∧ r'.Typed ∧
      r'.examples = r.examples ++ [e] := by
  have found : x.registry.get? "example" = .ok (some Tag.sample) :=
    standard.named Tag.sample (owns_sample c).builtin
  have adds : storing readExample
      (listing .sample .sample fun e r => { r with examples := r.examples ++ [e] }) raw r =
        .ok { r with examples := r.examples ++ [e] } := by
    rw [storing, read]
    exact mapError_eq_ok.mpr (typed.adding _ _ _)
  let m : Record := { r with examples := r.examples ++ [e] }
  have typed' : m.Typed := typed
  have allowed : Tag.sample.allowsKind r.kind = true := rfl
  have multiple : Tag.sample.multiple = true := rfl
  refine ⟨if m.has "example" then m else { m with tags := m.tags ++ ["example"] }, ?_, ?_, ?_⟩
  · rw [applyTag_of_typed found rfl poster line typed, allowed, multiple, adds]
    simp only [Bool.not_true, Bool.and_false, Bool.false_and, Bool.false_eq_true, if_false]
    exact congrArg (fun marked => Report.ofExcept (marked.mapError Failure.misuse))
      (mark_of_typed typed' "example")
  · split_ifs <;> exact typed'
  · split_ifs <;> rfl

/-- A comment that is an example, on a construct of a known kind, makes a record with this example alone
and no complaint, and the code of the example is what is kept of its lines. It is the text of these lines,
those of indentation alone emptied, empty ones at the start and blanks at the end taken off, exactly when
they are laid out as tags are put back. -/
theorem parseBlock_sample {g : Registry} {frozen : Bool} (standard : Registry.standard c [] = .ok g)
    (made : make { g with frozen := frozen } c = .ok x) {b : Block} {file : FileRef} {ls : List Line}
    (single : ∀ l ∈ ls, '\n' ∉ l) (apart : Unindented ls)
    (unregistered : ∀ l ∈ ls, ∀ tag first, tagLine? l = some (tag, first) →
      x.registry.has (String.ofList tag) = false)
    (comment : b.comment = exampleComment ls) (construct : b.poster = false)
    (known : (Context.ofBlock b).kind ≠ .unknown) :
    ∃ r code, x.parseBlock b file = .done (some r) ∧ r.examples = [{ code := String.ofList code }] ∧
      code = Text.unlines (keptLines (codeLines ls)) ∧
      (code = Text.trimRight (Text.unlines (codeLines ls)) ↔ IsVerbatim (codeLines ls)) := by
  have builtin := isBuiltin_of_make standard made
  have sample : x.registry.canonical? "example" = some "example" := by
    have same : Registry.builtin c = g := Except.ok.inj ((Registry.standard_nil c).symm.trans standard)
    subst same
    rw [(make_ok made).1]
    exact Registry.canonical?_builtin (owns_sample c).builtin
  have items := items_exampleComment sample single unregistered
  have context : (blank b file).context = Context.ofBlock b := by rw [blank, construct]; rfl
  have kept : x.skips b file = false := by
    have other : ((Context.ofBlock b).kind == Kind.unknown) = false := beq_false_of_ne known
    rw [skips, context, other, Bool.and_false, Bool.false_and]
  have blank_typed : (blank b file).Typed := rfl
  obtain ⟨m, applied, typed, examples⟩ := applyTag_sample builtin (readExample_keptLines single apart) 0
    b.poster (b.commentStart + (0 : Nat)) blank_typed
  obtain ⟨n, finished, keeps⟩ := finishDraft_keeps builtin (owns_sample c) (by rintro ⟨⟩) rfl typed
  obtain ⟨r, completed⟩ := applyFallbacks_total builtin keeps.typed
  have keeps' := keeps.trans (applyFallbacks_keeps builtin (owns_sample c) keeps.typed (.inl rfl) completed)
  refine ⟨r, _, ?_, (examples_of_keeps keeps').trans examples, rfl, unlines_keptLines_eq_iff single apart⟩
  have tagged : x.applyTags b.poster b.commentStart (blank b file)
      (foldExamples x.registry (Comment.ofText b.comment).items) = .done m := by
    rw [comment, items]
    simp only [applyTags, Report.foldl, applied, Report.done_andThen]
  have extracted : x.extract b file = .done (some n) := by
    rw [extract_eq, kept, if_neg Bool.false_ne_true, tagged, Report.done_andThen, construct, finished]
  rw [parseBlock, extracted, Report.done_andThen]
  simp only [construct, completed]
  rfl

/-- Code with a line between that looks like a tag, blank lines around it and one inside. -/
def mixedCode : List Line :=
  [" \t".toList, "a \x7b".toList, "\t ".toList, "  b".toList, "@include c;".toList, "\x7d  ".toList, []]

def mixedBlock : Block where
  comment := exampleComment mixedCode
  code := "$a: 1;"
  commentStart := 1

theorem parseBlock_sample_mixed :
    make { Registry.builtin quietConfig with frozen := true } quietConfig = .ok quiet ∧
      (∀ l ∈ mixedCode, '\n' ∉ l) ∧ Unindented mixedCode ∧
      (∀ l ∈ mixedCode, ∀ tag first, tagLine? l = some (tag, first) →
        quiet.registry.has (String.ofList tag) = false) ∧
      (Context.ofBlock mixedBlock).kind ≠ .unknown ∧ IsVerbatim (codeLines mixedCode) ∧
      mixedBlock.comment = "@example\n \t\na \x7b\n\t \n  b\n@include c;\n\x7d  \n" ∧
      ∃ r, quiet.parseBlock mixedBlock ⟨"a.scss", "a.scss"⟩ = .done (some r) ∧
        r.examples = [{ code := "a \x7b\n\n  b\n@include c;\n\x7d" }] := by
  have made : make { Registry.builtin quietConfig with frozen := true } quietConfig = .ok quiet := rfl
  have single : ∀ l ∈ mixedCode, '\n' ∉ l := by decide
  have apart : Unindented mixedCode := fun c indent =>
    ⟨"\x7d  ".toList, by decide, by decide, by rintro ⟨⟩; cases indent⟩
  have unregistered : ∀ l ∈ mixedCode, ∀ tag first, tagLine? l = some (tag, first) →
      quiet.registry.has (String.ofList tag) = false := by
    have tags : ∀ l ∈ mixedCode, ∀ parts ∈ tagLine? l, quiet.registry.has (String.ofList parts.1) = false := by
      decide +kernel
    exact fun l member tag first found => tags l member (tag, first) found
  have known : (Context.ofBlock mixedBlock).kind ≠ .unknown := by decide +kernel
  have verbatim : IsVerbatim (codeLines mixedCode) := by decide +kernel
  have comment : mixedBlock.comment = exampleComment mixedCode := rfl
  obtain ⟨r, code, parsed, examples, _, same⟩ :
      ∃ r code, quiet.parseBlock mixedBlock ⟨"a.scss", "a.scss"⟩ = .done (some r) ∧ _ :=
    parseBlock_sample (Registry.standard_nil quietConfig) made single apart unregistered comment rfl known
  have text : String.ofList (Text.trimRight (Text.unlines (codeLines mixedCode))) =
      "a \x7b\n\n  b\n@include c;\n\x7d" := by decide +kernel
  refine ⟨made, single, apart, unregistered, known, verbatim, by decide +kernel, r, parsed, ?_⟩
  rw [examples, same.mpr verbatim, text]

/-- Code with a blank line above one that looks like a tag. -/
def gappedCode : List Line := [['a'], [], "@include b;".toList]

def gappedBlock : Block where
  comment := exampleComment gappedCode
  code := "$a: 1;"
  commentStart := 1

/-- The blank line is lost. -/
theorem parseBlock_sample_gapped :
    (∀ l ∈ gappedCode, '\n' ∉ l) ∧ Unindented gappedCode ∧
      (∀ l ∈ gappedCode, ∀ tag first, tagLine? l = some (tag, first) →
        quiet.registry.has (String.ofList tag) = false) ∧
      (Context.ofBlock gappedBlock).kind ≠ .unknown ∧
      gappedBlock.comment = "@example\na\n\n@include b;" ∧
      String.ofList (Text.trimRight (Text.unlines (codeLines gappedCode))) = "a\n\n@include b;" ∧
      ∃ r, (quiet.parseBlock gappedBlock ⟨"a.scss", "a.scss"⟩).result = .ok (some r) ∧
        r.examples = [{ code := "a\n@include b;" }] ∧
        r.examples ≠ [{ code := String.ofList (Text.trimRight (Text.unlines (codeLines gappedCode))) }] := by
  have apart : Unindented gappedCode := fun c indent =>
    ⟨['a'], by decide, by decide, by rintro ⟨⟩; cases indent⟩
  have unregistered : ∀ l ∈ gappedCode, ∀ tag first, tagLine? l = some (tag, first) →
      quiet.registry.has (String.ofList tag) = false := by
    have tags : ∀ l ∈ gappedCode, ∀ parts ∈ tagLine? l, quiet.registry.has (String.ofList parts.1) = false := by
      decide +kernel
    exact fun l member tag first found => tags l member (tag, first) found
  have comment : Comment.ofText gappedBlock.comment =
      ⟨"", [⟨"example", "\na", 0⟩, ⟨"include", "b;", 3⟩]⟩ := by decide +kernel
  have context : Context.ofBlock gappedBlock =
      { kind := .var, name := "a", value := some "1", scope := some "private", code := "$a: 1;" } := by
    decide +kernel
  have items : foldExamples quiet.registry [⟨"example", "\na", 0⟩, ⟨"include", "b;", 3⟩] =
      [⟨"example", "\na\n@include b;", 0⟩] := by decide +kernel
  have text : String.ofList (Text.trimRight (Text.unlines (codeLines gappedCode))) =
      "a\n\n@include b;" := by decide +kernel
  refine ⟨by decide, apart, unregistered, by decide +kernel, by decide +kernel, text, ?_⟩
  rw [text]
  simp only [parseBlock, extract, context, comment, items]
  exact ⟨_, rfl, rfl, by decide⟩

end SheetDoc.Extractor
