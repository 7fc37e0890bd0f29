import SheetDoc.Proofs.Block.Styles
import SheetDoc.Proofs.Extraction.Blind

namespace SheetDoc

/-- An event without its line. -/
def Event.unlined (e : Event) : Event := { e with line := none }

/-- A context without the lines of its code. -/
def Context.unlined (c : Context) : Context := { c with lineStart := none, lineEnd := none }

/-- A record without the lines that it and its comment stand on. -/
def Record.unlined (r : Record) : Record := { r with context := r.context.unlined, commentLine := 0 }

/-- The veil that covers all lines and nothing else. -/
def Veil.lines : Veil := { codeLine := fun _ => none, commentLine := fun _ => 0 }

theorem Record.unlined_eq : Record.unlined = Veil.lines.hide := rfl

namespace Report

variable {α β γ δ : Type} {f : α → γ} {g : β → δ}

/-- A report without the lines of its events, the value seen through a function. -/
def blur (f : α → β) (s : Report α) : Report β := ⟨s.events.map Event.unlined, s.result.map f⟩

theorem blur_map (h : γ → δ) (f : α → γ) (s : Report α) : (s.map f).blur h = s.blur (h ∘ f) := by
  obtain ⟨events, _ | a⟩ := s <;> rfl

theorem blur_andThen {s s' : Report α} {next next' : α → Report β} (first : s.blur f = s'.blur f)
    (later : ∀ a a', f a = f a' → (next a).blur g = (next' a').blur g) :
    (s.andThen next).blur g = (s'.andThen next').blur g := by
  obtain ⟨events, result⟩ := s
  obtain ⟨events', result'⟩ := s'
  obtain ⟨told, same⟩ := Report.mk.inj first
  rcases map_eq_map same with ⟨a, a', rfl, rfl, alike⟩ | ⟨failure, rfl, rfl⟩
  · obtain ⟨told', same'⟩ := Report.mk.inj (later a a' alike)
    simp only [blur, andThen, List.map_append, told, told', same']
  · exact congrArg (Report.mk · _) told

theorem blur_andThen_of_eq {s : Report α} {next next' : α → Report β}
    (later : ∀ a, (next a).blur g = (next' a).blur g) :
    (s.andThen next).blur g = (s.andThen next').blur g :=
  blur_andThen (f := id) rfl fun a a' same => by
    cases same
    exact later a

theorem blur_foldl {R : α → α → Prop} {step step' : β → α → Report β} {as as' : List α}
    (each : ∀ a a', R a a' → ∀ b b', g b = g b' → (step b a).blur g = (step' b' a').blur g)
    (related : List.Forall₂ R as as') {b b' : β} (same : g b = g b') :
    (foldl step b as).blur g = (foldl step' b' as').blur g := by
  induction related generalizing b b' with
  | nil => exact congrArg (fun value => (⟨[], .ok value⟩ : Report δ)) same
  | cons here _ ih => exact blur_andThen (each _ _ here b b' same) fun _ _ next => ih next

theorem blur_forEach {R : α → α → Prop} {step step' : α → Report β} {as as' : List α}
    (each : ∀ a a', R a a' → (step a).blur g = (step' a').blur g)
    (related : List.Forall₂ R as as') :
    (forEach step as).blur (List.map g) = (forEach step' as').blur (List.map g) := by
  induction related with
  | nil => rfl
  | cons here _ ih =>
    refine blur_andThen (each _ _ here) fun b b' same => blur_andThen ih fun bs bs' others => ?_
    change (⟨[], .ok (g b :: bs.map g)⟩ : Report (List δ)) = ⟨[], .ok (g b' :: bs'.map g)⟩
    rw [same, others]

end Report

open Record

theorem Block.Alike.context {b b' : Block} (alike : b.Alike b') :
    (Context.ofBlock b).unlined = (Context.ofBlock b').unlined := by
  unfold Context.ofBlock Block.codeLine
  simp only [alike.code]
  by_cases none : b'.code = ""
  · simp only [if_pos none]
    rfl
  · simp only [if_neg none]
    generalize (String.ofList ((Text.lines b'.code.toList).headD [])).toList = line
    cases callableHead? line with
    | some head => rfl
    | none =>
      cases placeholderHead? line with
      | some name => rfl
      | none =>
        cases variableHead? line with
        | some name => rfl
        | none => cases ruleHead? line <;> rfl

namespace Extractor

variable {x : Extractor} {c : Config} {a : Tag} {r r' : Record}

theorem map_unlined_foldExamplesFrom (g : Registry) (last : Tagged) (items : List Tagged) :
    (foldExamplesFrom g last items).map Tagged.unlined =
      foldExamplesFrom g last.unlined (items.map Tagged.unlined) := by
  induction items generalizing last with
  | nil => rfl
  | cons item rest ih =>
    have tags : item.unlined.tag = item.tag ∧ last.unlined.tag = last.tag := ⟨rfl, rfl⟩
    simp only [List.map_cons, foldExamplesFrom, tags.1, tags.2]
    split
    · exact ih _
    · exact congrArg (last.unlined :: ·) (ih item)

theorem map_unlined_foldExamples (g : Registry) (items : List Tagged) :
    (foldExamples g items).map Tagged.unlined = foldExamples g (items.map Tagged.unlined) := by
  cases items with
  | nil => rfl
  | cons item rest => exact map_unlined_foldExamplesFrom g item rest

theorem blank_unlined {b b' : Block} (alike : b.Alike b') (file : FileRef) :
    (blank b file).unlined = (blank b' file).unlined := by
  have description := congrArg Comment.description alike.comment
  have context : (if b.poster then { kind := .unknown } else Context.ofBlock b : Context).unlined =
      (if b'.poster then { kind := .unknown } else Context.ofBlock b' : Context).unlined := by
    rw [alike.poster]
    split
    · rfl
    · exact alike.context
  simp only [Record.unlined, blank, context]
  exact congrArg (fun words => ({ context := _, file := file, description := words } : Record))
    description

/-- The records of a file without the lines that they stand on. -/
def FileRecords.unlined (found : FileRecords) : FileRecords :=
  { found with records := found.records.map Record.unlined }

/-- Where a tag stands goes into the event alone, which is told without it. -/
theorem blur_applyTag_line {poster : Bool} {line line' : Int} {item item' : Tagged}
    (alike : item.unlined = item'.unlined) :
    (x.applyTag poster line r item).blur id = (x.applyTag poster line' r item').blur id := by
  obtain ⟨tag, raw, -⟩ := Tagged.mk.inj alike
  unfold applyTag
  rw [tag, raw]
  cases x.registry.get? item'.tag with
  | error fault => rfl
  | ok entry =>
    cases entry with
    | none => rfl
    | some a =>
      simp only
      cases a.parse with
      | none => rfl
      | some parse =>
        refine Report.blur_andThen_of_eq fun path => Report.blur_andThen_of_eq fun objection => ?_
        cases objection with
        | some message => rfl
        | none =>
          simp only
          cases parse item'.raw r with
          | ok m => rfl
          | error failure => cases failure <;> rfl

theorem blind_keepUnknown (tag raw : String) : Veil.lines.Blind (keepUnknown · tag raw) := by
  intro r
  simp only [keepUnknown, Veil.strayValue?_hide]
  cases r.strayValue? .unknown <;> rfl

variable (standard : x.IsBuiltin c)

include standard

theorem IsBuiltin.blur_applyTag {poster : Bool} {line line' : Int} {item item' : Tagged}
    (alike : item.unlined = item'.unlined) (same : r.unlined = r'.unlined) :
    (x.applyTag poster line r item).blur unlined =
      (x.applyTag poster line' r' item').blur unlined := by
  have seen : ∀ (line : Int) (item : Tagged) (r : Record),
      (x.applyTag poster line r item).blur unlined =
        (x.applyTag poster line r.unlined item).blur id := by
    intro line item r
    rw [unlined_eq, standard.applyTag_hide fun _ => blind_keepUnknown item.tag item.raw,
      Report.blur_map]
    rfl
  rw [seen, seen, same]
  exact blur_applyTag_line alike

theorem IsBuiltin.blur_extract {b b' : Block} (alike : b.Alike b') (file : FileRef) :
    (x.extract b file).blur (Option.map unlined) = (x.extract b' file).blur (Option.map unlined) := by
  have blank := blank_unlined alike file
  have kind : (Extractor.blank b file).context.kind = (Extractor.blank b' file).context.kind :=
    congrArg (fun r => r.context.kind) blank
  have items : List.Forall₂ (fun t t' : Tagged => t.unlined = t'.unlined)
      (foldExamples x.registry (Comment.ofText b.comment).items)
      (foldExamples x.registry (Comment.ofText b'.comment).items) := by
    rw [← List.forall₂_map_right_iff, ← List.forall₂_map_left_iff, List.forall₂_eq_eq_eq,
      map_unlined_foldExamples, map_unlined_foldExamples]
    exact congrArg (foldExamples x.registry) (congrArg Comment.items alike.comment)
  rw [extract_eq, extract_eq, skips, skips, kind, alike.poster]
  split
  · rfl
  · refine Report.blur_andThen (f := unlined) ?_ fun r r' same => ?_
    · refine Report.blur_foldl (fun item item' here r r' same => ?_) items blank
      exact standard.blur_applyTag here same
    · have seen : ∀ r, (x.finishDraft b'.poster r).blur (Option.map unlined) =
          (x.finishDraft b'.poster r.unlined).blur id := by
        intro r
        rw [unlined_eq, standard.finishDraft_hide, Report.blur_map]
        rfl
      rw [seen, seen, same]

theorem IsBuiltin.blur_extractAll {bs bs' : List Block} (alike : List.Forall₂ Block.Alike bs bs')
    (file : FileRef) :
    (x.extractAll file bs).blur (List.map (Prod.map id unlined)) =
      (x.extractAll file bs').blur (List.map (Prod.map id unlined)) := by
  have kept : ∀ found : List (Bool × Option Record),
      (found.filterMap fun d => d.2.map (d.1, ·)).map (Prod.map id unlined) =
        (found.map (Prod.map id (Option.map unlined))).filterMap fun d => d.2.map (d.1, ·) := by
    intro found
    rw [List.map_filterMap, List.filterMap_map]
    congr 1
    funext d
    obtain ⟨poster, _ | r⟩ := d <;> rfl
  refine Report.blur_andThen (f := List.map (Prod.map id (Option.map unlined))) ?_ ?_
  · refine Report.blur_forEach (fun b b' here => ?_) alike
    refine Report.blur_andThen (standard.blur_extract here file) fun r r' same => ?_
    change (⟨[], .ok (b.poster, r.map unlined)⟩ : Report (Bool × Option Record)) =
      ⟨[], .ok (b'.poster, r'.map unlined)⟩
    rw [here.poster, same]
  · intro found found' same
    have alike : (found.filterMap fun d => d.2.map (d.1, ·)).map (Prod.map id unlined) =
        (found'.filterMap fun d => d.2.map (d.1, ·)).map (Prod.map id unlined) := by
      rw [kept, kept, same]
    exact congrArg (fun kept => (⟨[], .ok kept⟩ : Report (List (Bool × Record)))) alike

/-- Two sources of which the blocks read the same, one by one, give the same records and the same
events, but for their lines. -/
theorem IsBuiltin.blur_parseSource {text text' : String}
    (alike : List.Forall₂ Block.Alike (scanBlocks text) (scanBlocks text')) (file : FileRef) :
    (x.parseSource text file).blur FileRecords.unlined =
      (x.parseSource text' file).blur FileRecords.unlined := by
  have side : ∀ (keep : Bool → Bool) (found : List (Bool × Record)),
      ((found.filter fun d => keep d.1).map (·.2)).map unlined =
        ((found.map (Prod.map id unlined)).filter fun d => keep d.1).map (·.2) := by
    intro keep found
    rw [List.filter_map, List.map_map, List.map_map]
    rfl
  rw [parseSource_eq, parseSource_eq]
  refine Report.blur_andThen (standard.blur_extractAll alike file) fun found found' same => ?_
  have posters := side id found
  have own := side not found
  rw [same, ← side] at posters own
  have assembled := congrArg₂ x.assemble posters own
  rw [unlined_eq, standard.assemble_hide, standard.assemble_hide] at assembled
  exact congrArg Report.ofExcept assembled

end Extractor

end SheetDoc
