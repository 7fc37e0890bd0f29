import Mathlib.Data.List.ReduceOption
import SheetDoc.Proofs.Extraction.Precedence
import SheetDoc.Proofs.Extraction.Totality

namespace SheetDoc

namespace Report

variable {α β γ : Type} {step step' : α → Report β}

theorem forEach_congr {as : List α} (same : ∀ a ∈ as, step a = step' a) :
    forEach step as = forEach step' as := by
  induction as with
  | nil => rfl
  | cons a rest ih =>
    obtain ⟨here, later⟩ := List.forall_mem_cons.mp same
    rw [forEach, forEach, here, ih later]

/-- What is done with each result can be done with all of them in the end. -/
theorem forEach_andThen_done (f : β → γ) (as : List α) :
    forEach (fun a => (step a).andThen fun b => done (f b)) as =
      (forEach step as).andThen fun bs => done (bs.map f) := by
  induction as with
  | nil => rfl
  | cons a rest ih => simp only [forEach, ih, andThen_assoc, done_andThen, List.map_cons]

end Report

namespace Extractor

variable {x : Extractor} {c : Config} {file : FileRef} {bs : List Block}

/-- Where no block is a poster, all records are drafts of their own. -/
theorem extractAll_of_plain (plain : ∀ b ∈ bs, b.poster = false) :
    x.extractAll file bs =
      (Report.forEach (x.extract · file) bs).andThen fun drafts =>
        .done (drafts.reduceOption.map (false, ·)) := by
  have alike : ∀ b ∈ bs, (x.extract b file).andThen (fun r => .done (b.poster, r)) =
      (x.extract b file).andThen fun r => .done (false, r) := by
    intro b member
    rw [plain b member]
  have drafts : ∀ rs : List (Option Record),
      (rs.map (false, ·)).filterMap (fun d => d.2.map (d.1, ·)) = rs.reduceOption.map (false, ·) := by
    intro rs
    rw [List.reduceOption, List.filterMap_map, List.map_filterMap]
    rfl
  rw [extractAll, Report.forEach_congr alike, Report.forEach_andThen_done, Report.andThen_assoc]
  simp only [Report.done_andThen, drafts]

theorem assemble_of_plain (rs : List Record) :
    x.assemble [] rs = (rs.mapM x.applyFallbacks).map fun records => ⟨records, []⟩ := by
  unfold assemble
  change (rs.mapM x.applyFallbacks >>= fun records => Except.ok _) = _
  cases rs.mapM x.applyFallbacks <;> rfl

theorem parseSource_of_plain {text : String} (plain : ∀ b ∈ scanBlocks text, b.poster = false) :
    x.parseSource text file =
      (Report.forEach (x.extract · file) (scanBlocks text)).andThen fun drafts =>
        .ofExcept ((drafts.reduceOption.mapM x.applyFallbacks).map fun records => ⟨records, []⟩) := by
  rw [parseSource_eq, extractAll_of_plain plain, Report.andThen_assoc]
  refine Report.andThen_congr fun drafts _ => ?_
  rw [Report.done_andThen, List.filter_map, List.filter_map]
  simp only [Function.comp_def, List.filter_false, Bool.not_false, List.filter_true, List.map_nil,
    List.map_map, List.map_id', assemble_of_plain]

/-- The defaults of drafts can be supplied as soon as each of them is made. -/
theorem forEach_parseBlock (standard : x.IsBuiltin c) (plain : ∀ b ∈ bs, b.poster = false) :
    ((Report.forEach (x.extract · file) bs).andThen fun drafts =>
        .ofExcept (drafts.reduceOption.mapM x.applyFallbacks)) =
      (Report.forEach (x.parseBlock · file) bs).andThen fun records => .done records.reduceOption := by
  induction bs with
  | nil => rfl
  | cons b rest ih =>
    obtain ⟨own, plain⟩ := List.forall_mem_cons.mp plain
    simp only [Report.forEach, parseBlock, Report.andThen_assoc, Report.done_andThen, own,
      Bool.false_eq_true, if_false]
    refine Report.andThen_congr fun draft extracted => ?_
    cases draft with
    | none => exact ih plain
    | some r =>
      obtain ⟨r', completed⟩ :=
        applyFallbacks_total standard (standard.keepsTypes.maintains.extract_alike extracted)
      -- the record is there at once, so it can be put in front of what comes of the rest
      have fronted : ∀ drafts : List (Option Record),
          Report.ofExcept ((some r :: drafts).reduceOption.mapM x.applyFallbacks) =
            (Report.ofExcept (drafts.reduceOption.mapM x.applyFallbacks)).andThen
              fun records => .done (r' :: records) := by
        intro drafts
        rw [List.reduceOption_cons_of_some, List.mapM_cons, completed]
        cases drafts.reduceOption.mapM x.applyFallbacks <;> rfl
      have first : Report.ofExcept ((x.applyFallbacks r).map some) = .done (some r') := by
        rw [completed]
        rfl
      simp only [first, Report.done_andThen, fronted, ← Report.andThen_assoc]
      rw [ih plain, Report.andThen_assoc]
      rfl

/-- To read a source without posters is to parse its blocks one after another: it has the records of the
blocks, in their order, no group descriptions, and the same events. Where private names are told by a
text, it is read to its end. -/
theorem parseSource_blockwise {g : Registry} {frozen : Bool}
    (standard : Registry.standard c [] = .ok g) (made : make { g with frozen := frozen } c = .ok x)
    {text : String} (plain : ∀ b ∈ scanBlocks text, b.poster = false) (file : FileRef) :
    x.parseSource text file =
        (Report.forEach (x.parseBlock · file) (scanBlocks text)).andThen
          (fun records => .done ⟨records.reduceOption, []⟩) ∧
      (c.HasTextPrefix → ∃ found, (x.parseSource text file).result = .ok found) := by
  have builtin := isBuiltin_of_make standard made
  refine ⟨?_, fun prefixed => parseSource_total builtin prefixed text file⟩
  have grouped : ∀ drafts : List (Option Record),
      Report.ofExcept ((drafts.reduceOption.mapM x.applyFallbacks).map (FileRecords.mk · [])) =
        (Report.ofExcept (drafts.reduceOption.mapM x.applyFallbacks)).andThen
          fun records => .done ⟨records, []⟩ := by
    intro drafts
    cases drafts.reduceOption.mapM x.applyFallbacks <;> rfl
  rw [parseSource_of_plain plain]
  simp only [grouped, ← Report.andThen_assoc]
  rw [forEach_parseBlock builtin plain, Report.andThen_assoc]
  simp only [Report.done_andThen]

theorem parseSource_blockwise_variable :
    let text := "/// Hi\n$a: 1;\n/// Ho\n/// @todo x\n/// @todo\n@mixin m {}"
    let file : FileRef := ⟨"a.scss", "a.scss"⟩
    quiet.parseSource text file =
        (Report.forEach (quiet.parseBlock · file) (scanBlocks text)).andThen
          (fun records => .done ⟨records.reduceOption, []⟩) ∧
      ∃ found, (quiet.parseSource text file).result = .ok found := by
  intro text file
  have made : make { Registry.builtin quietConfig with frozen := true } quietConfig = .ok quiet := rfl
  have plain : ∀ b ∈ scanBlocks text, b.poster = false := by decide +kernel
  obtain ⟨same, total⟩ :=
    parseSource_blockwise (Registry.standard_nil quietConfig) made plain file
  exact ⟨same, total fun _ => ⟨_, rfl⟩⟩

end Extractor

end SheetDoc
