import SheetDoc.Extraction
import SheetDoc.Proofs.Steps

namespace SheetDoc

namespace Report

variable {α β : Type}

/-- A report of which the value is seen through a function. -/
def map (f : α → β) (s : Report α) : Report β := ⟨s.events, s.result.map f⟩

theorem andThen_congr {s : Report α} {next next' : α → Report β}
    (later : ∀ a, s.result = .ok a → next a = next' a) : s.andThen next = s.andThen next' := by
  obtain ⟨events, _ | a⟩ := s
  · rfl
  · simp only [andThen, later a rfl]

theorem andThen_eq_ok {step : Report α} {next : α → Report β} {b : β} :
    (step.andThen next).result = .ok b ↔ ∃ a, step.result = .ok a ∧ (next a).result = .ok b := by
  obtain ⟨events, _ | a⟩ := step
  · simp [andThen]
  · simp [andThen]

theorem foldl_keeps {step : β → α → Report β} {P : β → Prop} {l : List α}
    (keeps : ∀ a ∈ l, ∀ b b', (step b a).result = .ok b' → P b → P b') {b b' : β}
    (done : (foldl step b l).result = .ok b') (holds : P b) : P b' := by
  induction l generalizing b with
  | nil =>
    cases done
    exact holds
  | cons a rest ih =>
    obtain ⟨m, first, later⟩ := andThen_eq_ok.mp done
    exact ih (fun c inside => keeps c (List.mem_cons_of_mem a inside)) later
      (keeps a List.mem_cons_self b m first holds)

theorem forEach_eq_ok {step : α → Report β} {as : List α} {bs : List β} :
    (forEach step as).result = .ok bs ↔ List.Forall₂ (fun a b => (step a).result = .ok b) as bs := by
  induction as generalizing bs with
  | nil => cases bs <;> simp [forEach, done]
  | cons a rest ih =>
    simp only [forEach, andThen_eq_ok, List.forall₂_cons_left_iff, ih]
    constructor
    · rintro ⟨b, first, bs, later, done⟩
      exact ⟨b, bs, first, later, (Except.ok.inj done).symm⟩
    · rintro ⟨b, bs, first, later, rfl⟩
      exact ⟨b, first, bs, later, rfl⟩

end Report

/-- The blocks of some lines begin in them, each below the one before. -/
theorem scanLines_ordered (number : Nat) (ls : List Line) :
    (scanLines number ls).Pairwise (fun b b' => b.commentStart < b'.commentStart) ∧
      ∀ b ∈ scanLines number ls, (number : Int) ≤ b.commentStart := by
  fun_induction scanLines number ls with
  | case1 => simp
  | case2 number line rest _ ih =>
    refine ⟨ih.1, fun b member => ?_⟩
    have := ih.2 b member
    omega
  | case3 number line rest style opens found after next block ih =>
    have start : (if style == .poster then block else block.withCode next after).commentStart =
        number := by
      split
      · rfl
      · exact block.commentStart_withCode next after
    refine ⟨List.pairwise_cons.mpr ⟨fun b member => ?_, ih.1⟩, fun b member => ?_⟩
    · have below := ih.2 b member
      omega
    · rcases List.mem_cons.mp member with rfl | later
      · omega
      · have below := ih.2 b later
        omega

namespace Extractor

variable {x : Extractor} {file : FileRef}

/-- The drafts of blocks: each block of which something is kept, with the record made of it. -/
inductive Drafts (parse : Block → Report (Option Record)) :
    List Block → List (Block × Record) → Prop
  | nil : Drafts parse [] []
  | skip {b bs ds} : (parse b).result = .ok none → Drafts parse bs ds → Drafts parse (b :: bs) ds
  | keep {b r bs ds} : (parse b).result = .ok (some r) → Drafts parse bs ds →
      Drafts parse (b :: bs) ((b, r) :: ds)

section

variable {parse : Block → Report (Option Record)} {bs : List Block} {ds : List (Block × Record)}

theorem Drafts.sublist (drafts : Drafts parse bs ds) : (ds.map (·.1)).Sublist bs := by
  induction drafts with
  | nil => exact .slnil
  | skip _ _ ih => exact ih.cons _
  | keep _ _ ih => exact ih.cons_cons _

theorem Drafts.made (drafts : Drafts parse bs ds) :
    ∀ d ∈ ds, (parse d.1).result = .ok (some d.2) := by
  induction drafts with
  | nil => simp
  | skip _ _ ih => exact ih
  | keep made _ ih => exact List.forall_mem_cons.mpr ⟨made, ih⟩

/-- Blocks have one list of drafts. -/
theorem Drafts.unique {ds' : List (Block × Record)} (drafts : Drafts parse bs ds)
    (others : Drafts parse bs ds') : ds = ds' := by
  induction drafts generalizing ds' with
  | nil =>
    cases others
    rfl
  | skip made _ ih =>
    cases others with
    | skip _ later => exact ih later
    | keep kept _ => cases made.symm.trans kept
  | keep made _ ih =>
    cases others with
    | skip skipped _ => cases made.symm.trans skipped
    | keep kept later =>
      cases made.symm.trans kept
      exact congrArg (_ :: ·) (ih later)

end

theorem drafts_of_extractAll {bs : List Block} {found : List (Bool × Record)}
    (done : (x.extractAll file bs).result = .ok found) :
    ∃ ds, Drafts (x.extract · file) bs ds ∧ found = ds.map fun d => (d.1.poster, d.2) := by
  obtain ⟨made, each, last⟩ := Report.andThen_eq_ok.mp done
  cases last
  clear done
  replace each := Report.forEach_eq_ok.mp each
  induction each with
  | nil => exact ⟨[], .nil, rfl⟩
  | cons first _ ih =>
    obtain ⟨ds, drafts, same⟩ := ih
    obtain ⟨r, extracted, done⟩ := Report.andThen_eq_ok.mp first
    cases done
    cases r with
    | none => exact ⟨ds, .skip extracted drafts, by simpa using same⟩
    | some r => exact ⟨_, .keep extracted drafts, by simpa using same⟩

theorem extractAll_of_drafts {bs : List Block} {ds : List (Block × Record)}
    (drafts : Drafts (x.extract · file) bs ds) :
    (x.extractAll file bs).result = .ok (ds.map fun d => (d.1.poster, d.2)) := by
  have each : ∃ made, List.Forall₂ (fun b found =>
        ((x.extract b file).andThen fun r => .done (b.poster, r)).result = .ok found) bs made ∧
      made.filterMap (fun found => found.2.map (found.1, ·)) =
        ds.map fun d => (d.1.poster, d.2) := by
    induction drafts with
    | nil => exact ⟨[], .nil, rfl⟩
    | @skip b bs ds made _ ih =>
      obtain ⟨later, each, same⟩ := ih
      exact ⟨(b.poster, none) :: later, .cons (Report.andThen_eq_ok.mpr ⟨none, made, rfl⟩) each, same⟩
    | @keep b r bs ds made _ ih =>
      obtain ⟨later, each, same⟩ := ih
      exact ⟨(b.poster, some r) :: later,
        .cons (Report.andThen_eq_ok.mpr ⟨some r, made, rfl⟩) each,
        congrArg ((b.poster, r) :: ·) same⟩
  obtain ⟨made, each, same⟩ := each
  exact Report.andThen_eq_ok.mpr ⟨made, Report.forEach_eq_ok.mpr each, congrArg Except.ok same⟩

/-- The posters among drafts. -/
def postersOf (ds : List (Block × Record)) : List Record := (ds.filter (·.1.poster)).map (·.2)

/-- The drafts that become records. -/
def ownOf (ds : List (Block × Record)) : List Record := (ds.filter (!·.1.poster)).map (·.2)

/-- The records of a file from the drafts of its posters and of its other blocks. -/
def assemble (x : Extractor) (posters records : List Record) : Except Failure FileRecords := do
  let merged ← x.mergePosters posters records
  let records ← merged.mapM x.applyFallbacks
  return { records := records, groupDescriptions := x.describedGroups posters }

theorem parseSource_eq (text : String) (file : FileRef) :
    x.parseSource text file = (x.extractAll file (scanBlocks text)).andThen fun found =>
      .ofExcept (x.assemble ((found.filter (·.1)).map (·.2)) ((found.filter (!·.1)).map (·.2))) :=
  rfl

/-- A draft becomes a record by what posters say, the first first, and by the defaults. -/
def Completes (x : Extractor) (posters : List Record) (own r : Record) : Prop :=
  ∃ m, posters.foldlM (fun r poster => x.mergePoster poster r) own = .ok m ∧
    x.applyFallbacks m = .ok r

theorem sides_of_drafts (ds : List (Block × Record)) :
    ((ds.map fun d => (d.1.poster, d.2)).filter (·.1)).map (·.2) = postersOf ds ∧
      ((ds.map fun d => (d.1.poster, d.2)).filter (!·.1)).map (·.2) = ownOf ds := by
  simp [postersOf, ownOf, List.filter_map, Function.comp_def]

theorem parseSource_ok {text : String} {found : FileRecords}
    (done : (x.parseSource text file).result = .ok found) :
    ∃ ds, Drafts (x.extract · file) (scanBlocks text) ds ∧
      List.Forall₂ (x.Completes (postersOf ds)) (ownOf ds) found.records ∧
      found.groupDescriptions = x.describedGroups (postersOf ds) := by
  obtain ⟨all, extracted, done⟩ := Report.andThen_eq_ok.mp done
  obtain ⟨ds, drafts, rfl⟩ := drafts_of_extractAll extracted
  obtain ⟨merged, merging, done⟩ := bind_eq_ok.mp done
  obtain ⟨records, completing, done⟩ := bind_eq_ok.mp done
  cases done
  obtain ⟨posters, own⟩ := sides_of_drafts ds
  rw [posters, own] at merging
  refine ⟨ds, drafts, ?_, congrArg x.describedGroups posters⟩
  exact forall₂_comp (foldlM_mapM_eq_ok (mapError_eq_ok.mp merging)) (mapM_eq_ok.mp completing)

/-- A source whose posters can be merged into its drafts, and whose defaults can be supplied, is
read to its end. -/
theorem parseSource_of_drafts {text : String} {ds : List (Block × Record)} {merged records : List Record}
    (drafts : Drafts (x.extract · file) (scanBlocks text) ds)
    (merging : x.mergePosters (postersOf ds) (ownOf ds) = .ok merged)
    (completing : merged.mapM x.applyFallbacks = .ok records) :
    (x.parseSource text file).result = .ok ⟨records, x.describedGroups (postersOf ds)⟩ := by
  refine Report.andThen_eq_ok.mpr ⟨_, extractAll_of_drafts drafts, ?_⟩
  obtain ⟨posters, own⟩ := sides_of_drafts ds
  simp only [posters, own]
  exact bind_eq_ok.mpr ⟨merged, mapError_eq_ok.mpr merging, bind_eq_ok.mpr ⟨records, completing, rfl⟩⟩

/-- A source whose drafts all become records is read to its end. -/
theorem parseSource_of_completes {text : String} {ds : List (Block × Record)} {records : List Record}
    (drafts : Drafts (x.extract · file) (scanBlocks text) ds)
    (completed : List.Forall₂ (x.Completes (postersOf ds)) (ownOf ds) records) :
    (x.parseSource text file).result = .ok ⟨records, x.describedGroups (postersOf ds)⟩ := by
  obtain ⟨merged, merging, completing⟩ := exists_of_forall₂_comp completed
  exact parseSource_of_drafts drafts (foldlM_mapM_of_forall₂ merging) (mapM_eq_ok.mpr completing)

/-- Records in the order of a source: each is completed from the draft of a block, and the blocks
begin one below the other. -/
def FollowsSource (x : Extractor) (text : String) (file : FileRef) (rs : List Record) : Prop :=
  ∃ (sources : List (Block × Record)) (posters : List Record),
    sources.Pairwise (fun d d' => d.1.commentStart < d'.1.commentStart) ∧
    (∀ d ∈ sources, d.1 ∈ scanBlocks text ∧ (x.extract d.1 file).result = .ok (some d.2)) ∧
    List.Forall₂ (fun d r => x.Completes posters d.2 r) sources rs

theorem parseSource_follows {text : String} {found : FileRecords}
    (done : (x.parseSource text file).result = .ok found) :
    x.FollowsSource text file found.records := by
  obtain ⟨ds, drafts, completed, _⟩ := parseSource_ok done
  refine ⟨ds.filter (!·.1.poster), postersOf ds, ?_, ?_, List.forall₂_map_left_iff.mp completed⟩
  · have ordered := (scanLines_ordered 1 _).1.sublist drafts.sublist
    exact (List.pairwise_map.mp ordered).sublist List.filter_sublist
  · intro d member
    have inside := List.mem_of_mem_filter member
    exact ⟨drafts.sublist.subset (List.mem_map.mpr ⟨d, inside, rfl⟩), drafts.made d inside⟩

end Extractor

end SheetDoc
