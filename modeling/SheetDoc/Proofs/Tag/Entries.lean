import SheetDoc.Proofs.Record.Typed
import SheetDoc.Proofs.Text.Names
import SheetDoc.Tag.Builtin

namespace SheetDoc

/-- What stands between the parts of a tag's value. -/
structure Gaps where
  start : List Char
  afterType : List Char
  beforeBracket : List Char
  beforeDash : List Char
  afterDash : List Char
  ending : List Char

/-- All gaps are blank, and a dash stands apart from what is in front of it. -/
structure Gaps.IsBlank (g : Gaps) : Prop where
  start : Text.allBlank g.start = true
  afterType : Text.allBlank g.afterType = true
  beforeBracket : Text.allBlank g.beforeBracket = true
  beforeDash : Text.allBlank g.beforeDash = true
  apart : g.beforeDash ≠ []
  afterDash : Text.allBlank g.afterDash = true
  ending : Text.allBlank g.ending = true

instance (g : Gaps) : Decidable g.IsBlank :=
  decidable_of_iff (Text.allBlank g.start = true ∧ Text.allBlank g.afterType = true ∧
      Text.allBlank g.beforeBracket = true ∧ Text.allBlank g.beforeDash = true ∧ g.beforeDash ≠ [] ∧
      Text.allBlank g.afterDash = true ∧ Text.allBlank g.ending = true)
    ⟨fun ⟨start, afterType, beforeBracket, beforeDash, apart, afterDash, ending⟩ =>
        ⟨start, afterType, beforeBracket, beforeDash, apart, afterDash, ending⟩,
      fun blank => ⟨blank.start, blank.afterType, blank.beforeBracket, blank.beforeDash, blank.apart,
        blank.afterDash, blank.ending⟩⟩

namespace Gaps

variable (g : Gaps)

/-- A text behind a type in braces, where there is one. -/
def typed (type : Option (List Char)) (tail : List Char) : List Char :=
  type.elim tail fun t => '\x7b' :: (t ++ '\x7d' :: (g.afterType ++ tail))

/-- A text behind a part in brackets, where there is one. -/
def bracketed (opening closing : Char) (part : Option (List Char)) (tail : List Char) : List Char :=
  part.elim tail fun p => g.beforeBracket ++ opening :: (p ++ closing :: tail)

/-- A text behind a description, where there is one. -/
def described (description : Option (List Char)) (tail : List Char) : List Char :=
  description.elim tail fun d => g.beforeDash ++ '-' :: (g.afterDash ++ (d ++ tail))

end Gaps

section

variable {g : Gaps} {s tail : List Char} {opening closing : Char}

section

variable {P : Char → Prop} (gap : ∀ c, Text.isBlank c = true → P c)

include gap

theorem head?_of_allBlank {b : List Char} (blank : Text.allBlank b = true) : ∀ c ∈ b.head?, P c :=
  fun c first => gap c (List.all_eq_true.mp blank c (List.mem_of_head? first))

/-- What a text behind a description begins with. -/
theorem head?_described (blank : g.IsBlank) (description : Option (List Char))
    (behind : ∀ c ∈ tail.head?, P c) : ∀ c ∈ (g.described description tail).head?, P c := by
  cases description with
  | none => exact behind
  | some d =>
    obtain ⟨c, r, before⟩ := List.exists_cons_of_ne_nil blank.apart
    have first := head?_of_allBlank gap blank.beforeDash
    rw [before] at first
    simp only [Gaps.described, Option.elim_some, before]
    exact first

/-- What a text behind a part in brackets begins with. -/
theorem head?_bracketed (blank : g.IsBlank) (sign : P opening) (part : Option (List Char))
    (behind : ∀ c ∈ tail.head?, P c) : ∀ c ∈ (g.bracketed opening closing part tail).head?, P c := by
  cases part with
  | none => exact behind
  | some p =>
    have first := head?_of_allBlank gap blank.beforeBracket
    simp only [Gaps.bracketed, Option.elim_some]
    cases before : g.beforeBracket with
    | nil =>
      rintro c ⟨⟩
      exact sign
    | cons d r =>
      rw [before] at first
      exact first

end

theorem optionalPart_of_head (other : ∀ c ∈ (Text.trimLeft s).head?, c ≠ opening) :
    optionalPart opening closing s = (none, Text.trimLeft s) := by
  unfold optionalPart
  cases body : Text.trimLeft s with
  | nil => rfl
  | cons c r =>
    rw [body] at other
    have here : bracketed? opening closing (c :: r) = none := if_neg (other c rfl)
    simp only [here]

theorem optionalPart_bracketed {b p : List Char} (blank : Text.allBlank b = true)
    (solid : Text.isBlank opening = false) (absent : closing ∉ p) (tail : List Char) :
    optionalPart opening closing (b ++ opening :: (p ++ closing :: tail)) = (some p, Text.trimLeft tail) := by
  have body : Text.trimLeft (b ++ opening :: (p ++ closing :: tail)) = opening :: (p ++ closing :: tail) := by
    rw [Text.trimLeft_append blank, Text.trimLeft_of_head solid]
  have here : bracketed? opening closing (opening :: (p ++ closing :: tail)) = some (p, tail) :=
    (if_pos rfl).trans (Text.breakAt?_append absent tail)
  simp only [optionalPart, body, here]

/-- The type in front of a text is taken off with the blanks around it. -/
theorem optionalPart_typed (blank : g.IsBlank) {type : Option (List Char)} (absent : ∀ t ∈ type, '\x7d' ∉ t)
    (solid : ∀ c ∈ tail.head?, Text.isBlank c = false ∧ c ≠ '\x7b') :
    optionalPart '\x7b' '\x7d' (g.start ++ g.typed type tail) = (type, tail) := by
  have stays : Text.trimLeft tail = tail := Text.trimLeft_of_solid fun c first => (solid c first).1
  cases type with
  | none =>
    have body : Text.trimLeft (g.start ++ g.typed none tail) = tail :=
      (Text.trimLeft_append blank.start tail).trans stays
    rw [optionalPart_of_head (by rw [body]; exact fun c first => (solid c first).2), body]
  | some t =>
    have sign : Text.isBlank '\x7b' = false := by decide
    have part := optionalPart_bracketed blank.start sign (absent t rfl) (g.afterType ++ tail)
    rwa [Text.trimLeft_append blank.afterType, stays] at part

theorem trimLeft_described (blank : g.IsBlank) (description : Option (List Char)) (tail : List Char) :
    Text.trimLeft (g.described description tail) =
      description.elim (Text.trimLeft tail) fun d => '-' :: (g.afterDash ++ (d ++ tail)) := by
  cases description with
  | none => rfl
  | some d => exact (Text.trimLeft_append blank.beforeDash _).trans (Text.trimLeft_of_head (by decide) _)

/-- A part in brackets in front of a description is taken off. -/
theorem optionalPart_described (blank : g.IsBlank) (solid : Text.isBlank opening = false) (dash : opening ≠ '-')
    {part : Option (List Char)} (absent : ∀ p ∈ part, closing ∉ p) (description : Option (List Char)) :
    optionalPart opening closing (g.bracketed opening closing part (g.described description g.ending)) =
      (part, Text.trimLeft (g.described description g.ending)) := by
  cases part with
  | none =>
    refine optionalPart_of_head fun c first => ?_
    change c ∈ (Text.trimLeft (g.described description g.ending)).head? at first
    rw [trimLeft_described blank] at first
    cases description with
    | none =>
      rw [Option.elim_none, Text.trimLeft_of_allBlank blank.ending] at first
      cases first
    | some d =>
      cases first
      exact dash.symm
  | some p => exact optionalPart_bracketed blank.beforeBracket solid (absent p rfl) _

theorem trimmedText_of_trimmed (trimmed : Text.IsTrimmed s) : trimmedText s = String.ofList s :=
  congrArg String.ofList trimmed

/-- Of a description the first dash goes, with the blanks around. -/
theorem trimmedText_described (blank : g.IsBlank) {description : Option (List Char)}
    (trimmed : ∀ d ∈ description, Text.IsTrimmed d) :
    trimmedText (afterDash (Text.trimLeft (g.described description g.ending))) =
      String.ofList (description.getD []) := by
  rw [trimLeft_described blank]
  cases description with
  | none =>
    rw [Option.elim_none, Text.trimLeft_of_allBlank blank.ending]
    rfl
  | some d =>
    have same : Text.trim (Text.trimLeft (g.afterDash ++ (d ++ g.ending))) = d := by
      rw [Text.trim_trimLeft, Text.trim_between blank.afterDash blank.ending]
      exact trimmed d rfl
    exact congrArg String.ofList same

end

/-- The parts of a typed entry as they are written. -/
structure EntryParts where
  type : Option (List Char)
  name : List Char
  value : Option (List Char)
  description : Option (List Char)

/-- A name in a typed entry. -/
structure IsEntryName (s : List Char) : Prop where
  nonempty : s ≠ []
  all : ∀ c ∈ s, isEntryNameChar c = true
  undashed : s.head? ≠ some '-'

namespace EntryParts

/-- No part ends before it is over. -/
structure IsPlain (e : EntryParts) : Prop where
  type : ∀ t ∈ e.type, t ≠ [] ∧ Text.IsTrimmed t ∧ '\x7d' ∉ t
  name : IsEntryName e.name
  value : ∀ v ∈ e.value, Text.IsTrimmed v ∧ ']' ∉ v
  description : ∀ d ∈ e.description, Text.IsTrimmed d

def text (e : EntryParts) (g : Gaps) : String :=
  String.ofList (g.start ++ g.typed e.type
    (e.name ++ g.bracketed '[' ']' e.value (g.described e.description g.ending)))

/-- The entry that is meant. -/
def entry (e : EntryParts) : TypedEntry where
  name := String.ofList e.name
  type := e.type.map String.ofList
  value := e.value.map String.ofList
  description := String.ofList (e.description.getD [])

end EntryParts

section

variable {g : Gaps} {s : List Char}

/-- What follows a name does not go on with it. -/
theorem head?_behindName (blank : g.IsBlank) (value description : Option (List Char)) :
    ∀ c ∈ (g.bracketed '[' ']' value (g.described description g.ending)).head?, isEntryNameChar c = false := by
  have gap : ∀ c, Text.isBlank c = true → isEntryNameChar c = false := fun c blank => by
    simp [isEntryNameChar, blank]
  have described := head?_described gap blank description (head?_of_allBlank gap blank.ending)
  exact head?_bracketed gap blank (by decide) value described

theorem entryName_append {n : List Char} (name : IsEntryName n)
    (apart : ∀ c ∈ s.head?, isEntryNameChar c = false) : entryName (n ++ s) = n := by
  obtain ⟨c, r, rfl⟩ := List.exists_cons_of_ne_nil name.nonempty
  have first : ((c :: r ++ s).head? == some '-') = false := beq_false_of_ne name.undashed
  rw [entryName, first, List.takeWhile_append_of_pos name.all]
  cases s with
  | nil => simp
  | cons d s => simp [apart d rfl]

/-- An entry that is written with blanks between its parts is read back. -/
theorem readTypedEntry_text {e : EntryParts} (plain : e.IsPlain) (blank : g.IsBlank) (tag : String) :
    readTypedEntry tag (e.text g) = .ok e.entry := by
  let rest := g.bracketed '[' ']' e.value (g.described e.description g.ending)
  have solid : ∀ c ∈ (e.name ++ rest).head?, Text.isBlank c = false ∧ c ≠ '\x7b' := by
    obtain ⟨c, r, same⟩ := List.exists_cons_of_ne_nil plain.name.nonempty
    have here := plain.name.all c (by simp [same])
    rw [same]
    rintro c ⟨⟩
    simp_all [isEntryNameChar]
  have type : optionalPart '\x7b' '\x7d' (e.text g).toList = (e.type, e.name ++ rest) := by
    rw [EntryParts.text, String.toList_ofList]
    exact optionalPart_typed blank (fun t given => (plain.type t given).2.2) solid
  have name : entryName (e.name ++ rest) = e.name :=
    entryName_append plain.name (head?_behindName blank e.value e.description)
  have value : optionalPart '[' ']' rest = (e.value, Text.trimLeft (g.described e.description g.ending)) :=
    optionalPart_described blank (by decide) (by decide) (fun v given => (plain.value v given).2) _
  have typed : e.type.any Text.allBlank = false := by
    cases type : e.type with
    | none => rfl
    | some t =>
      obtain ⟨nonempty, trimmed, -⟩ := plain.type t type
      refine Bool.eq_false_iff.mpr fun void => nonempty ?_
      rw [← trimmed, Text.trim, Text.trimLeft_of_allBlank void]
      rfl
  have types : e.type.map trimmedText = e.type.map String.ofList :=
    Option.map_congr fun t given => trimmedText_of_trimmed (plain.type t given).2.1
  have values : e.value.map trimmedText = e.value.map String.ofList :=
    Option.map_congr fun v given => trimmedText_of_trimmed (plain.value v given).1
  simp only [readTypedEntry, type, name, List.drop_left, value, plain.name.nonempty, typed, if_false,
    Bool.false_eq_true, types, values, trimmedText_described blank plain.description]
  rfl

end

def TypedEntry.parameter (e : TypedEntry) : Parameter := ⟨e.name, e.type, e.description, e.value⟩

def TypedEntry.property (e : TypedEntry) : Property := ⟨e.name, e.type, e.value, e.description⟩

namespace Tag

section

variable {raw : String} {r : Record}

theorem parseParameter_eq (holds : r.Holds .parameter) (raw : String) : parseParameter raw r =
    match readTypedEntry "parameter" raw with
    | .error fault => .error (.tag fault)
    | .ok e =>
      if r.parameters.any (·.name = e.name) then .error (.tag (.repeatedParameter e.name))
      else .ok { r with parameters := r.parameters ++ [e.parameter] } := by
  unfold parseParameter
  cases readTypedEntry "parameter" raw with
  | error fault => rfl
  | ok e =>
    simp only [holds.flaw, holds.adding]
    rfl

theorem parse_property (holds : r.Holds .property) (raw : String) : property.parse.map (· raw r) = some
    (match readTypedEntry "property" raw with
    | .error fault => .error (.tag fault)
    | .ok e => .ok { r with properties := r.properties ++ [e.property] }) := by
  unfold property storing
  simp only [Option.map_some, holds.adding]
  cases readTypedEntry "property" raw <;> rfl

end

/-- A typed entry is read back and stands behind the others, a parameter where its name is new. Whatever
else the text is, an entry is added or the text is refused. -/
theorem parse_typedEntry (r : Record) :
    (∀ (e : EntryParts) (g : Gaps), e.IsPlain → g.IsBlank →
      (r.Holds .parameter → (∀ p ∈ r.parameters, p.name ≠ e.entry.name) →
        parameter.parse.map (· (e.text g) r) =
          some (.ok { r with parameters := r.parameters ++ [e.entry.parameter] })) ∧
      (r.Holds .property → property.parse.map (· (e.text g) r) =
        some (.ok { r with properties := r.properties ++ [e.entry.property] }))) ∧
    ∀ raw : String,
      (r.Holds .parameter →
        (∃ p, parameter.parse.map (· raw r) = some (.ok { r with parameters := r.parameters ++ [p] })) ∨
          ∃ fault, parameter.parse.map (· raw r) = some (.error (.tag fault))) ∧
      (r.Holds .property →
        (∃ p, property.parse.map (· raw r) = some (.ok { r with properties := r.properties ++ [p] })) ∨
          ∃ fault, property.parse.map (· raw r) = some (.error (.tag fault))) := by
  have parses : ∀ raw, parameter.parse.map (· raw r) = some (parseParameter raw r) := fun _ => rfl
  refine ⟨fun e g plain blank => ⟨fun holds fresh => ?_, fun holds => ?_⟩, fun raw => ⟨fun holds => ?_,
    fun holds => ?_⟩⟩
  · have known : r.parameters.any (·.name = e.entry.name) = false := by simpa using fresh
    rw [parses, parseParameter_eq holds, readTypedEntry_text plain blank]
    simp only [known, Bool.false_eq_true, if_false]
  · rw [parse_property holds, readTypedEntry_text plain blank]
  · rw [parses, parseParameter_eq holds]
    split
    · exact .inr ⟨_, rfl⟩
    · split_ifs
      · exact .inr ⟨_, rfl⟩
      · exact .inl ⟨_, rfl⟩
  · rw [parse_property holds]
    split
    · exact .inr ⟨_, rfl⟩
    · exact .inl ⟨_, rfl⟩

/-- Brackets and dashes in every part, on several lines. -/
def dashedEntry : EntryParts where
  type := some "Map | \x7bx".toList
  name := "$x-y".toList
  value := some "a[1, \x7bb\x7d".toList
  description := some "- [y] z\n  \x7bw\x7d -".toList

def wideGaps : Gaps where
  start := "\n ".toList
  afterType := "\t".toList
  beforeBracket := " \n".toList
  beforeDash := " ".toList
  afterDash := "  ".toList
  ending := "\n".toList

/-- A record with a documented parameter. -/
def documented : Record where
  context := { kind := .mixin, name := "m" }
  file := { path := "a.scss", name := "a.scss" }
  parameters := [{ name := "$y" }]

theorem parse_typedEntry_dashed :
    dashedEntry.IsPlain ∧ wideGaps.IsBlank ∧ documented.Holds .parameter ∧ documented.Holds .property ∧
      dashedEntry.text wideGaps = "\n \x7bMap | \x7bx\x7d\t$x-y \n[a[1, \x7bb\x7d] -  - [y] z\n  \x7bw\x7d -\n" ∧
      parameter.parse.map (· (dashedEntry.text wideGaps) documented) = some (.ok { documented with
        parameters := [{ name := "$y" },
          { name := "$x-y", type := some "Map | \x7bx", value := some "a[1, \x7bb\x7d"
            description := "- [y] z\n  \x7bw\x7d -" }] }) ∧
      property.parse.map (· (dashedEntry.text wideGaps) documented) = some (.ok { documented with
        properties := [
          { path := "$x-y", type := some "Map | \x7bx", value := some "a[1, \x7bb\x7d"
            description := "- [y] z\n  \x7bw\x7d -" }] }) := by
  have plain : dashedEntry.IsPlain := by
    refine ⟨?_, ⟨by decide, by decide, by decide⟩, ?_, ?_⟩
    all_goals
      rintro _ ⟨⟩
      decide
  have blank : wideGaps.IsBlank := by decide
  obtain ⟨adds, defines⟩ := (parse_typedEntry documented).1 dashedEntry wideGaps plain blank
  exact ⟨plain, blank, rfl, rfl, by decide +kernel, adds rfl (by decide), defines rfl⟩

end Tag

end SheetDoc
