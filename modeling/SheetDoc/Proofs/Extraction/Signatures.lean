import SheetDoc.Proofs.Code.Commented
import SheetDoc.Proofs.Extraction.Typed

namespace SheetDoc

/-- A parameter with the default of its name, unless it has one. -/
def Parameter.fill (defaults : Assoc String String) (p : Parameter) : Parameter :=
  { p with value := p.value.or (defaults.get? p.name) }

theorem Extractor.fillSignatureDefaults_of_typed {r : Record} (typed : r.Typed)
    (callable : r.kind = .mixin ∨ r.kind = .function) : fillSignatureDefaults r =
      .ok { r with parameters := r.parameters.map (Parameter.fill (signatureDefaults r.context.code)) } := by
  let own := Value.list (r.parameters.map .parameter)
  rw [fillSignatureDefaults, Record.readKind, typed.contextFor, typed.read, typed.flaw]
  change (if (r.kind = .function ∨ r.kind = .mixin) ∧ own.truthy = true then Except.ok _
    else Except.ok r) = _
  by_cases void : r.parameters = []
  · have none : own.truthy = false := by
      simp only [own, void]
      rfl
    rw [if_neg (by simp [none]), void, List.map_nil, ← void]
  · have some : own.truthy = true := by
      obtain ⟨p, ps, same⟩ := List.exists_cons_of_ne_nil void
      simp only [own, same]
      rfl
    rw [if_pos ⟨callable.symm, some⟩]
    refine congrArg (fun ps => Except.ok { r with parameters := ps }) (List.map_congr_left ?_)
    rintro ⟨name, type, description, _ | value⟩ _ <;> rfl

namespace Signature.Commented

variable {s : Signature.Commented} {word : List Char}

/-- Without its comments, and with words for its strings, a signature gives back its parameters and
defaults. As it is written, where strings and comments nest, it does so exactly when it has no comments or
no parameters, and then a documented parameter takes its whole default. -/
theorem read_iff_uncommented (laid : (s.bare word).IsLaid) (nests : (s.bare word).Nests)
    (distinct : (s.slots.map Slot.name).Nodup) (quiet : s.IsQuiet) :
    (signatureDefaults (s.bare word).code = (s.bare word).defaults ∧
        signatureParameters (s.bare word).code = s.parameters) ∧
      (signatureDefaults s.written.code = s.uncommented.defaults ∧
          signatureParameters s.written.code = s.parameters ↔ s.slots = [] ∨ s.Uncommented) ∧
      (s.slots = [] ∨ s.Uncommented → ∀ r : Record, r.Typed → r.kind = s.kind →
        r.context.code = s.written.code → Extractor.fillSignatureDefaults r =
          .ok { r with parameters := r.parameters.map (Parameter.fill s.uncommented.defaults) }) := by
  have bare := read_of_laid laid (nested_pieces laid nests) (by rwa [Commented.bare, map, List.map_map])
  have meant : s.slots = [] ∨ s.Uncommented → signatureDefaults s.written.code = s.uncommented.defaults ∧
      signatureParameters s.written.code = s.parameters := by
    intro plain
    by_cases void : s.slots = []
    · obtain ⟨defaults, parameters⟩ := read_none laid quiet void
      refine ⟨defaults.trans ?_, parameters.trans ?_⟩
      · rw [Signature.defaults, Commented.uncommented, map, void]
        rfl
      · rw [Signature.parameters, void]
        rfl
    · exact read_of_uncommented laid quiet distinct void (plain.resolve_left void)
  refine ⟨⟨bare.1, bare.2.trans List.map_map⟩, ⟨?_, meant⟩, ?_⟩
  · rintro ⟨defaults, parameters⟩
    exact or_iff_not_imp_left.mpr fun some => uncommented_of_read laid quiet distinct some defaults parameters
  · intro plain r typed kind code
    rw [Extractor.fillSignatureDefaults_of_typed typed (by rw [kind]; exact laid.callable), code,
      (meant plain).1]

/-- The characters of a default outside of its quotes. -/
def plain (text : List Char) (unquoted : ∀ c ∈ text, c ≠ '"' ∧ c ≠ '\'') : List Fragment :=
  text.pmap Fragment.plain unquoted

/-- A colon in a string, and commas and brackets in strings that nest. -/
def quotedSignature : Signature.Commented where
  indent := []
  kind := .mixin
  gap := [.blanks [' '] rfl]
  name := ['m']
  opening := []
  slots :=
    [⟨[], ['a'], [], .given [.blanks [' '] rfl] [.quoted '"' "x: y".toList (.inl rfl) (by decide)] []⟩,
      ⟨[.blanks [' '] rfl], ['b'], [], .given [.blanks ['\n'] rfl]
        (plain ['f', '('] (by decide) ++ .quoted '"' "1, 2".toList (.inl rfl) (by decide) ::
          (plain [','] (by decide) ++ .quoted '\'' "[\"]".toList (.inr rfl) (by decide) ::
            plain [')'] (by decide))) []⟩,
      ⟨[.blanks [' '] rfl], ['c'], [], .bare⟩]
  inner := []
  rest := [' ', '{', '}']

/-- The record of the signature with two documented parameters, one of them with a default. -/
def quotedRecord : Record where
  context := { kind := .mixin, name := "m", code := quotedSignature.written.code }
  file := { path := "a.scss", name := "a.scss" }
  parameters := [{ name := "$b" }, { name := "$a", value := some "0" }]

theorem read_iff_uncommented_quoted :
    (quotedSignature.bare ['s']).IsLaid ∧ (quotedSignature.bare ['s']).Nests ∧
      (quotedSignature.slots.map Slot.name).Nodup ∧ quotedSignature.IsQuiet ∧
      (quotedSignature.bare ['s']).code = "@mixin m($a: \"s\", $b:\nf(\"s\",'s'), $c) \x7b\x7d" ∧
      signatureDefaults (quotedSignature.bare ['s']).code =
        [("$a", "\"s\""), ("$b", "f(\"s\",'s')")] ∧
      quotedSignature.written.code =
        "@mixin m($a: \"x: y\", $b:\nf(\"1, 2\",'[\"]'), $c) \x7b\x7d" ∧
      signatureDefaults quotedSignature.written.code =
        [("$a", "\"x: y\""), ("$b", "f(\"1, 2\",'[\"]')")] ∧
      signatureParameters quotedSignature.written.code = ["$a", "$b", "$c"] ∧
      Extractor.fillSignatureDefaults quotedRecord = .ok { quotedRecord with
        parameters := [{ name := "$b", value := some "f(\"1, 2\",'[\"]')" },
          { name := "$a", value := some "0" }] } := by
  have laid : (quotedSignature.bare ['s']).IsLaid :=
    ⟨⟨⟨rfl, .inl rfl, by decide⟩, by decide, by decide, by decide⟩, by decide +kernel, nofun⟩
  have nests : (quotedSignature.bare ['s']).Nests := by
    unfold Nests
    decide +kernel
  have distinct : (quotedSignature.slots.map Slot.name).Nodup := by decide
  have quiet : quotedSignature.IsQuiet := by
    unfold IsQuiet
    decide +kernel
  have none : quotedSignature.Uncommented := by
    unfold Uncommented
    decide
  obtain ⟨⟨bare, _⟩, read, fill⟩ := read_iff_uncommented laid nests distinct quiet
  obtain ⟨defaults, parameters⟩ := read.mpr (.inr none)
  refine ⟨laid, nests, distinct, quiet, by decide +kernel, bare, by decide +kernel, defaults, parameters, ?_⟩
  exact fill (.inr none) quotedRecord rfl rfl rfl

/-- A comment behind the comma of the first parameter. -/
def notedSignature : Signature.Commented where
  indent := []
  kind := .mixin
  gap := [.blanks [' '] rfl]
  name := ['m']
  opening := []
  slots :=
    [⟨[.blanks ['\n', ' ', ' '] rfl], ['a'], [], .given [.blanks [' '] rfl] (plain ['1'] (by decide)) []⟩,
      ⟨[.blanks [' '] rfl, .line " first".toList (by decide), .blanks [' ', ' '] rfl], ['b'], [],
        .given [.blanks [' '] rfl] (plain ['2'] (by decide)) [.blanks ['\n'] rfl]⟩]
  inner := []
  rest := [' ', '{', '}']

/-- A comma in the string of the first parameter. -/
def partedSignature : Signature.Commented where
  indent := []
  kind := .mixin
  gap := [.blanks [' '] rfl]
  name := ['m']
  opening := []
  slots :=
    [⟨[], ['a'], [], .given [.blanks [' '] rfl] [.quoted '"' [','] (.inl rfl) (by decide)] []⟩,
      ⟨[.blanks [' '] rfl], ['b'], [], .given [.blanks [' '] rfl] (plain ['1'] (by decide)) []⟩]
  inner := []
  rest := [' ', '{', '}']

/-- With the comment the second parameter is lost, and with the comma the default of the first one is cut. -/
theorem not_read_noted :
    ((notedSignature.bare ['s']).IsLaid ∧ (notedSignature.bare ['s']).Nests ∧
      (notedSignature.slots.map Slot.name).Nodup ∧
      notedSignature.written.code = "@mixin m(\n  $a: 1, // first\n  $b: 2\n) \x7b\x7d" ∧
      notedSignature.uncommented.defaults = [("$a", "1"), ("$b", "2")] ∧
      signatureDefaults notedSignature.written.code = [("$a", "1")] ∧
      notedSignature.parameters = ["$a", "$b"] ∧
      signatureParameters notedSignature.written.code = ["$a"]) ∧
    (partedSignature.bare ['s']).IsLaid ∧ (partedSignature.bare ['s']).Nests ∧
      (partedSignature.slots.map Slot.name).Nodup ∧
      partedSignature.written.code = "@mixin m($a: \",\", $b: 1) \x7b\x7d" ∧
      partedSignature.uncommented.defaults = [("$a", "\",\""), ("$b", "1")] ∧
      signatureDefaults partedSignature.written.code = [("$a", "\""), ("$b", "1")] := by
  have noted : (notedSignature.bare ['s']).IsLaid :=
    ⟨⟨⟨rfl, .inl rfl, by decide⟩, by decide, by decide, by decide⟩, by decide +kernel, nofun⟩
  have parted : (partedSignature.bare ['s']).IsLaid :=
    ⟨⟨⟨rfl, .inl rfl, by decide⟩, by decide, by decide, by decide⟩, by decide +kernel, nofun⟩
  have nests : (notedSignature.bare ['s']).Nests ∧ (partedSignature.bare ['s']).Nests := by
    unfold Nests
    decide +kernel
  exact ⟨⟨noted, nests.1, by decide +kernel⟩, parted, nests.2, by decide +kernel⟩

end Signature.Commented

end SheetDoc
