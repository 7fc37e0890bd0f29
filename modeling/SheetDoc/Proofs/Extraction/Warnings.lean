import SheetDoc.Proofs.Block.Places
import SheetDoc.Proofs.Extraction.Precedence

namespace SheetDoc

namespace Report

variable {α β : Type} {e : Event}

theorem mem_events_andThen {step : Report α} {next : α → Report β} :
    e ∈ (step.andThen next).events ↔
      e ∈ step.events ∨ ∃ a, step.result = .ok a ∧ e ∈ (next a).events := by
  obtain ⟨events, failure | a⟩ := step
  · simp [andThen]
  · simp [andThen]

/-- What is told on the way through a list is told by a step, on what the steps before it make. -/
theorem mem_events_foldl {step : β → α → Report β} {l : List α} {b : β}
    (told : e ∈ (foldl step b l).events) :
    ∃ front a rest m, l = front ++ a :: rest ∧ (foldl step b front).result = .ok m ∧
      e ∈ (step m a).events := by
  induction l generalizing b with
  | nil => cases told
  | cons a rest ih =>
    rcases mem_events_andThen.mp told with here | ⟨m, first, later⟩
    · exact ⟨[], a, rest, b, rfl, rfl, here⟩
    · obtain ⟨front, a', rest', m', split, reached, there⟩ := ih later
      exact ⟨a :: front, a', rest', m', congrArg (a :: ·) split,
        andThen_eq_ok.mpr ⟨m, first, reached⟩, there⟩

theorem mem_events_forEach {step : α → Report β} {l : List α}
    (told : e ∈ (forEach step l).events) : ∃ a ∈ l, e ∈ (step a).events := by
  induction l with
  | nil => cases told
  | cons a rest ih =>
    rcases mem_events_andThen.mp told with here | ⟨_, _, told⟩
    · exact ⟨a, List.mem_cons_self, here⟩
    · rcases mem_events_andThen.mp told with later | ⟨_, _, told⟩
      · obtain ⟨a', inside, there⟩ := ih later
        exact ⟨a', List.mem_cons_of_mem a inside, there⟩
      · cases told

end Report

/-- The event reports on the syntax of a comment. -/
def Event.IsSyntax (e : Event) : Prop := e.kind = "syntax"

namespace Extractor

variable {x : Extractor} {b : Block} {file : FileRef} {e : Event}

/-- What a tag is refused for on a record: it may not stand there, or its value is none. -/
def Refuses (x : Extractor) (poster : Bool) (r : Record) (item : Tagged) (message : String) : Prop :=
  ∃ a parse, x.registry.get? item.tag = .ok (some a) ∧ a.parse = some parse ∧
    (objection? poster r a = .ok (some message) ∨
      ∃ fault, objection? poster r a = .ok none ∧ parse item.raw r = .error (.tag fault) ∧
        fault.message = message)

/-- An event warns of a tag of a block that is refused where it is met. The tag may have been given
more lines than its own. -/
def WarnsOf (x : Extractor) (b : Block) (file : FileRef) (item : Tagged) (e : Event) : Prop :=
  ∃ met r path message, x.Meets b file met r ∧ met.tag = item.tag ∧ met.offset = item.offset ∧
    x.Refuses b.poster r met message ∧ r.readPath = .ok path ∧
    e = .warning "syntax" message (some path) (some (b.commentStart + item.offset))

theorem WarnsOf.isSyntax {item : Tagged} (warns : x.WarnsOf b file item e) : e.IsSyntax := by
  obtain ⟨_, _, _, _, _, _, _, _, _, rfl⟩ := warns
  rfl

theorem WarnsOf.line {item : Tagged} (warns : x.WarnsOf b file item e) :
    e.line = some (b.commentStart + item.offset) := by
  obtain ⟨_, _, _, _, _, _, _, _, _, rfl⟩ := warns
  rfl

theorem mem_foldExamplesFrom {g : Registry} {last : Tagged} {items : List Tagged} {told : Tagged}
    (member : told ∈ foldExamplesFrom g last items) :
    ∃ item ∈ last :: items, told.tag = item.tag ∧ told.offset = item.offset := by
  induction items generalizing last with
  | nil =>
    cases List.mem_singleton.mp member
    exact ⟨told, List.mem_cons_self, rfl, rfl⟩
  | cons next rest ih =>
    simp only [foldExamplesFrom] at member
    split at member
    · obtain ⟨item, inside, same⟩ := ih member
      rcases List.mem_cons.mp inside with rfl | later
      · exact ⟨_, List.mem_cons_self, same⟩
      · exact ⟨item, List.mem_cons_of_mem _ (List.mem_cons_of_mem _ later), same⟩
    · rcases List.mem_cons.mp member with rfl | later
      · exact ⟨told, List.mem_cons_self, rfl, rfl⟩
      · obtain ⟨item, inside, same⟩ := ih later
        exact ⟨item, List.mem_cons_of_mem _ inside, same⟩

theorem mem_foldExamples {g : Registry} {items : List Tagged} {told : Tagged}
    (member : told ∈ foldExamples g items) :
    ∃ item ∈ items, told.tag = item.tag ∧ told.offset = item.offset := by
  cases items with
  | nil => cases member
  | cons item rest => exact mem_foldExamplesFrom member

theorem mem_events_applyTag {poster : Bool} {line : Int} {r : Record} {item : Tagged}
    (told : e ∈ (x.applyTag poster line r item).events) :
    ∃ path message, r.readPath = .ok path ∧ x.Refuses poster r item message ∧
      e = .warning "syntax" message (some path) (some line) := by
  unfold applyTag at told
  split at told
  · cases told
  · split at told <;> cases told
  · rename_i a found
    split at told
    · cases told
    · rename_i parse parses
      rcases Report.mem_events_andThen.mp told with silent | ⟨path, read, told⟩
      · cases silent
      · rcases Report.mem_events_andThen.mp told with silent | ⟨objection, asked, told⟩
        · cases silent
        · replace read := mapError_eq_ok.mp read
          replace asked := mapError_eq_ok.mp asked
          cases objection with
          | some message =>
            exact ⟨path, message, read, ⟨a, parse, found, parses, Or.inl asked⟩,
              List.mem_singleton.mp told⟩
          | none =>
            simp only at told
            split at told
            · cases told
            · rename_i fault refused
              exact ⟨path, fault.message, read,
                ⟨a, parse, found, parses, Or.inr ⟨fault, asked, refused, rfl⟩⟩,
                List.mem_singleton.mp told⟩
            · cases told

theorem mem_events_extract (told : e ∈ (x.extract b file).events) :
    ∃ item ∈ (Comment.ofText b.comment).items, x.WarnsOf b file item e := by
  rw [extract_eq] at told
  split at told
  · cases told
  · rcases Report.mem_events_andThen.mp told with tags | ⟨_, _, code⟩
    · obtain ⟨front, met, rest, r, split, reached, warned⟩ := Report.mem_events_foldl tags
      obtain ⟨path, message, read, refused, rfl⟩ := mem_events_applyTag warned
      have member : met ∈ foldExamples x.registry (Comment.ofText b.comment).items := by
        rw [split]
        exact List.mem_append_right _ List.mem_cons_self
      obtain ⟨item, inside, tag, offset⟩ := mem_foldExamples member
      exact ⟨item, inside, met, r, path, message, ⟨front, rest, split, reached⟩, tag, offset, refused,
        read, by rw [offset]⟩
    · unfold finishDraft at code
      split at code <;> cases code

theorem mem_events_parseSource {text : String} (told : e ∈ (x.parseSource text file).events) :
    ∃ b ∈ scanBlocks text, ∃ item ∈ (Comment.ofText b.comment).items, x.WarnsOf b file item e := by
  rcases Report.mem_events_andThen.mp told with blocks | ⟨_, _, merging⟩
  · rcases Report.mem_events_andThen.mp blocks with each | ⟨_, _, kept⟩
    · obtain ⟨b, inside, told⟩ := Report.mem_events_forEach each
      rcases Report.mem_events_andThen.mp told with extracted | ⟨_, _, sided⟩
      · exact ⟨b, inside, mem_events_extract extracted⟩
      · cases sided
    · cases kept
  · cases merging

theorem syntax_parseSource {text : String} (told : e ∈ (x.parseSource text file).events) :
    e.IsSyntax := by
  obtain ⟨_, _, _, _, warns⟩ := mem_events_parseSource told
  exact warns.isSyntax

/-- A tag of a block stands in the line that its offset counts to from where the comment begins, or
in the line below where a delimiter comes first; and every event of a source warns of such a tag, with
the line that its offset counts to. -/
theorem parseSource_warnings (x : Extractor) (text : String) (file : FileRef) :
    (∀ b ∈ scanBlocks text, ∀ item ∈ (Comment.ofText b.comment).items,
      ∃ number : Nat, b.commentStart + item.offset = number ∧
        item.StandsIn (sourceLines text) (number + b.lead (sourceLines text))) ∧
    ∀ e ∈ (x.parseSource text file).events,
      ∃ b ∈ scanBlocks text, ∃ item ∈ (Comment.ofText b.comment).items,
        x.WarnsOf b file item e ∧ ∃ number : Nat, e.line = some (number : Int) ∧
          item.StandsIn (sourceLines text) (number + b.lead (sourceLines text)) := by
  refine ⟨fun b inside item tagged => mem_scanBlocks_items inside tagged, fun e told => ?_⟩
  obtain ⟨b, inside, item, tagged, warns⟩ := mem_events_parseSource told
  obtain ⟨number, counted, stands⟩ := mem_scanBlocks_items inside tagged
  exact ⟨b, inside, item, tagged, warns, number, by rw [warns.line, counted], stands⟩

def delimitedText : String := "////\n/// @group\n////\n"

def delimitedPoster : Block := ⟨"@group", "", 1, none, none, true⟩

theorem scanBlocks_delimited : scanBlocks delimitedText = [delimitedPoster] := by decide +kernel

theorem warned_delimited : Event.warning "syntax" "@group requires a value" (some "a.scss") (some 1) ∈
    (quiet.parseSource delimitedText ⟨"a.scss", "a.scss"⟩).events := by
  unfold parseSource extractAll
  rw [scanBlocks_delimited]
  exact List.mem_singleton.mpr rfl

theorem parseSource_warnings_group :
    delimitedPoster.lead (sourceLines delimitedText) = 1 ∧
      ∃ item ∈ (Comment.ofText delimitedPoster.comment).items,
        quiet.WarnsOf delimitedPoster ⟨"a.scss", "a.scss"⟩ item
          (.warning "syntax" "@group requires a value" (some "a.scss") (some 1)) ∧
        item.StandsIn (sourceLines delimitedText) 2 := by
  have lead : delimitedPoster.lead (sourceLines delimitedText) = 1 := by decide +kernel
  obtain ⟨b, inside, item, tagged, warns, number, line, stands⟩ :=
    (parseSource_warnings quiet delimitedText ⟨"a.scss", "a.scss"⟩).2 _ warned_delimited
  rw [scanBlocks_delimited, List.mem_singleton] at inside
  subst inside
  obtain rfl : number = 1 := Int.ofNat.inj (Option.some.inj line).symm
  rw [lead] at stands
  exact ⟨lead, item, tagged, warns, stands⟩

/-- A warning about a poster between delimiters has the line above its tag: here the first, which is
the delimiter. -/
theorem parseSource_warnings_delimited :
    (¬∀ b ∈ scanBlocks delimitedText, ∀ item ∈ (Comment.ofText b.comment).items,
      ∃ number : Nat, b.commentStart + item.offset = number ∧
        item.StandsIn (sourceLines delimitedText) number) ∧
    ¬∀ e ∈ (quiet.parseSource delimitedText ⟨"a.scss", "a.scss"⟩).events,
      ∃ b ∈ scanBlocks delimitedText, ∃ item ∈ (Comment.ofText b.comment).items,
        quiet.WarnsOf b ⟨"a.scss", "a.scss"⟩ item e ∧ ∃ number : Nat, e.line = some (number : Int) ∧
          item.StandsIn (sourceLines delimitedText) number := by
  have comment : (Comment.ofText delimitedPoster.comment).items = [⟨"group", "", 0⟩] := rfl
  have above : ¬Tagged.StandsIn (sourceLines delimitedText) 1 ⟨"group", "", 0⟩ := by
    rintro ⟨line, listed, inside⟩
    have first : lineAt? (sourceLines delimitedText) 1 = some "////".toList := by decide +kernel
    cases Option.some.inj (first.symm.trans listed)
    exact absurd inside (by decide)
  have elsewhere : ∀ b ∈ scanBlocks delimitedText, ∀ item ∈ (Comment.ofText b.comment).items,
      ∀ number : Nat, b.commentStart + item.offset = number →
        ¬item.StandsIn (sourceLines delimitedText) number := by
    rw [scanBlocks_delimited]
    simp only [List.forall_mem_singleton, comment]
    intro number counted
    obtain rfl : number = 1 := by
      simp only [delimitedPoster] at counted
      omega
    exact above
  refine ⟨fun each => ?_, fun each => ?_⟩
  · have inside : delimitedPoster ∈ scanBlocks delimitedText :=
      scanBlocks_delimited ▸ List.mem_singleton_self _
    have tagged : ⟨"group", "", 0⟩ ∈ (Comment.ofText delimitedPoster.comment).items :=
      comment ▸ List.mem_singleton_self _
    obtain ⟨number, counted, stands⟩ := each _ inside _ tagged
    exact elsewhere _ inside _ tagged number counted stands
  · obtain ⟨b, inside, item, tagged, warns, number, line, stands⟩ := each _ warned_delimited
    have counted := Option.some.inj (warns.line.symm.trans line)
    exact elsewhere _ inside _ tagged number counted stands

end Extractor

end SheetDoc
