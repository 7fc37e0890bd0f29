import Mathlib.Data.List.Nodup
import SheetDoc.Proofs.Code.Nesting
import SheetDoc.Proofs.Data.Merge

namespace SheetDoc

/-- What ends a parameter: nothing, the dots of a rest parameter, or a default behind a colon with what
stands on either side of it. -/
inductive Ending (γ δ : Type)
  | bare
  | rest
  | given (before : γ) (value : δ) (after : γ)

/-- A parameter as it is written, with what stands on either side of its name. -/
structure Slot (γ δ : Type) where
  before : γ
  name : List Char
  after : γ
  ending : Ending γ δ

/-- A signature as it is written, with what stands between its parts, and the code behind it. -/
structure Signature (γ δ : Type) where
  indent : List Char
  kind : Kind
  gap : γ
  name : List Char
  opening : γ
  slots : List (Slot γ δ)
  /-- What stands in a list without parameters. -/
  inner : γ
  rest : List Char

abbrev Ending.Written := Ending (List Char) (List Char)

abbrev Slot.Written := Slot (List Char) (List Char)

/-- A signature all of whose parts are texts. -/
abbrev Signature.Written := Signature (List Char) (List Char)

def Ending.dots {γ δ : Type} : Ending γ δ → List Char
  | rest => ['.', '.', '.']
  | _ => []

/-- A default with its colon. -/
def Ending.text : Ending.Written → List Char
  | given before value after => ':' :: (before ++ (value ++ after))
  | _ => []

/-- A default with the blanks at its ends taken off, and the rest of what stands around it kept. -/
def Ending.read : Ending.Written → Ending.Written
  | given before value after => given [] (Text.trim (before ++ (value ++ after))) []
  | e => e

namespace Slot

def label {γ δ : Type} (p : Slot γ δ) : List Char := '$' :: p.name

/-- A parameter up to its default. -/
def front (p : Slot.Written) : List Char := p.before ++ ((p.label ++ p.ending.dots) ++ p.after)

def text (p : Slot.Written) : List Char := p.front ++ p.ending.text

/-- A parameter with the default that is read for it. -/
def read (p : Slot.Written) : Slot.Written := { p with ending := p.ending.read }

/-- The default of a parameter, under its name. -/
def default? (p : Slot.Written) : Option (String × String) :=
  match p.ending with
  | .given _ value _ => some (String.ofList p.label, String.ofList value)
  | _ => none

end Slot

namespace Signature

variable (s : Signature.Written)

/-- The texts between the commas. A list without parameters has one as well. -/
def pieces : List (List Char) := if s.slots = [] then [s.inner] else s.slots.map Slot.text

def text : List Char :=
  s.indent ++ '@' :: (s.kind.word.toList ++ (s.gap ++ (s.name ++ (s.opening ++ '(' ::
    ([','].intercalate s.pieces ++ ')' :: s.rest)))))

def code : String := String.ofList s.text

def defaults : Assoc String String := s.slots.filterMap Slot.default?

def parameters {γ δ : Type} (s : Signature γ δ) : List String :=
  s.slots.map fun p => String.ofList p.label

end Signature

def Ending.IsLaid : Ending.Written → Prop
  | given before value after =>
    Text.allBlank before = true ∧ Text.IsTrimmed value ∧ Text.allBlank after = true
  | _ => True

def Ending.Nests : Ending.Written → Prop
  | given _ value _ => nested [] value = true
  | _ => True

/-- Blanks alone stand on either side of the name. -/
structure Slot.Fronts (p : Slot.Written) : Prop where
  before : Text.allBlank p.before = true
  name : Text.IsName p.name
  after : Text.allBlank p.after = true

structure Slot.IsLaid (p : Slot.Written) : Prop extends p.Fronts where
  ending : p.ending.IsLaid

instance (e : Ending.Written) : Decidable e.IsLaid :=
  match e with
  | .bare | .rest => isTrue trivial
  | .given before value after => inferInstanceAs (Decidable
      (Text.allBlank before = true ∧ Text.IsTrimmed value ∧ Text.allBlank after = true))

instance (e : Ending.Written) : Decidable e.Nests :=
  match e with
  | .bare | .rest => isTrue trivial
  | .given _ value _ => inferInstanceAs (Decidable (nested [] value = true))

instance (p : Slot.Written) : Decidable p.IsLaid :=
  decidable_of_iff (Text.allBlank p.before = true ∧ Text.IsName p.name ∧ Text.allBlank p.after = true ∧
      p.ending.IsLaid)
    ⟨fun ⟨before, name, after, ending⟩ => ⟨⟨before, name, after⟩, ending⟩,
      fun laid => ⟨laid.before, laid.name, laid.after, laid.ending⟩⟩

/-- A keyword and a name. -/
structure Signature.IsNamed {γ δ : Type} (s : Signature γ δ) : Prop where
  indent : Text.allBlank s.indent = true
  callable : s.kind = .mixin ∨ s.kind = .function
  name : Text.IsName s.name

/-- Blanks alone stand between the keyword, the name and the list. -/
structure Signature.Opens (s : Signature.Written) : Prop extends s.IsNamed where
  gap : Text.allBlank s.gap = true
  parted : s.gap ≠ []
  opening : Text.allBlank s.opening = true

structure Signature.IsLaid (s : Signature.Written) : Prop extends s.Opens where
  slots : ∀ p ∈ s.slots, p.IsLaid
  inner : s.slots = [] → Text.allBlank s.inner = true

/-- The brackets of the defaults nest, and their commas stand inside brackets. -/
def Signature.Nests (s : Signature.Written) : Prop := ∀ p ∈ s.slots, p.ending.Nests

theorem callableHead?_keyword {indent t : List Char} {kind : Kind}
    (blank : Text.allBlank indent = true) (callable : kind = .mixin ∨ kind = .function) :
    callableHead? (indent ++ '@' :: (kind.word.toList ++ t)) =
      ((afterBlanks? t).bind readName?).map (kind, ·) := by
  have body : Text.trimLeft (indent ++ '@' :: (kind.word.toList ++ t)) =
      '@' :: (kind.word.toList ++ t) := by
    rw [Text.trimLeft_append blank]
    exact Text.trimLeft_of_head (by decide) _
  have own : Text.after? ('@' :: kind.word.toList) ('@' :: (kind.word.toList ++ t)) = some t :=
    Text.after?_eq_some_iff.mpr rfl
  unfold callableHead?
  simp only [body]
  rcases callable with rfl | rfl
  · simp only [own]
  · have other : Text.after? ('@' :: Kind.mixin.word.toList)
        ('@' :: (Kind.function.word.toList ++ t)) = none := rfl
    simp only [other, own]
    rfl

theorem afterBlanks?_append {b t : List Char} (blank : Text.allBlank b = true) (some : b ≠ []) :
    afterBlanks? (b ++ t) = .some (Text.trimLeft t) := by
  obtain ⟨c, r, rfl⟩ := List.exists_cons_of_ne_nil some
  obtain ⟨first, more⟩ := Bool.and_eq_true_iff.mp blank
  rw [List.cons_append, afterBlanks?, if_pos first, Text.trimLeft_append more]

namespace Signature

variable {s : Signature.Written}

theorem callableHead?_text (named : s.IsNamed) (gap : Text.allBlank s.gap = true) (parted : s.gap ≠ [])
    (apart : ∀ c ∈ s.opening.head?, Text.isNameChar c = false) : callableHead? s.text =
      some (s.kind, s.name, s.opening ++ '(' :: ([','].intercalate s.pieces ++ ')' :: s.rest)) := by
  let list := [','].intercalate s.pieces ++ ')' :: s.rest
  have apart : ∀ c ∈ (s.opening ++ '(' :: list).head?, Text.isNameChar c = false := by
    cases opening : s.opening with
    | nil =>
      rintro c ⟨⟩
      decide
    | cons d r =>
      rw [opening] at apart
      exact apart
  have stays : Text.trimLeft (s.name ++ (s.opening ++ '(' :: list)) =
      s.name ++ (s.opening ++ '(' :: list) := by
    obtain ⟨c, r, same⟩ := List.exists_cons_of_ne_nil named.name.nonempty
    rw [same]
    exact Text.trimLeft_of_head (Text.isBlank_of_isNameChar (named.name.all c (by simp [same]))) _
  rw [text, callableHead?_keyword named.indent named.callable, afterBlanks?_append gap parted, stays,
    Option.bind_some, readName?_append named.name apart]
  rfl

/-- What stands in the list is split at the commas between its pieces. -/
theorem signatureArguments_text (opens : s.Opens) (nests : ∀ p ∈ s.pieces, nested [] p = true) :
    signatureArguments s.text =
      if Text.allBlank (s.pieces.getLastD []) then s.pieces.dropLast else s.pieces := by
  let list := [','].intercalate s.pieces ++ ')' :: s.rest
  have head : callableHead? s.text = some (s.kind, s.name, s.opening ++ '(' :: list) :=
    callableHead?_text opens.toIsNamed opens.gap opens.parted fun c first =>
      Text.isNameChar_of_isBlank (List.all_eq_true.mp opens.opening c (List.mem_of_head? first))
  have enters : Text.after? ['('] (Text.trimLeft (s.opening ++ '(' :: list)) = some list := by
    rw [Text.trimLeft_append opens.opening, Text.trimLeft_of_head (by decide)]
    exact Text.after?_eq_some_iff.mpr rfl
  have nonempty : s.pieces ≠ [] := by
    unfold pieces
    split_ifs with none
    · exact List.cons_ne_nil _ _
    · simpa using none
  simp only [signatureArguments, head, enters, list, untilClosed_intercalate nests, splitArguments,
    topLevelPieces_intercalate nonempty nests]

theorem allBlank_slot (p : Slot.Written) : Text.allBlank p.text = false := by
  refine Bool.eq_false_iff.mpr fun blank => ?_
  have sign := List.all_eq_true.mp blank '$' (by simp [Slot.text, Slot.front, Slot.label])
  revert sign
  decide

theorem signatureArguments_of_slots (opens : s.Opens) (nests : ∀ p ∈ s.pieces, nested [] p = true)
    (some : s.slots ≠ []) : signatureArguments s.text = s.slots.map Slot.text := by
  have pieces : s.pieces = s.slots.map Slot.text := if_neg some
  rw [signatureArguments_text opens nests, pieces, if_neg]
  obtain ⟨ps, p, same⟩ := List.eq_nil_or_concat s.slots |>.resolve_left some
  simp [same, allBlank_slot]

end Signature

/-- The default that is read from one argument. -/
def argumentDefault? (argument : List Char) : Option (String × String) :=
  match Text.breakAt? ':' argument with
  | none => none
  | some (name, value) =>
    if isVariableName (Text.trim name) then
      some (String.ofList (Text.trim name), String.ofList (Text.trim value))
    else none

theorem signatureDefaults_eq (code : String) : signatureDefaults code =
    Assoc.ofList ((signatureArguments code.toList).filterMap argumentDefault?) := rfl

section

variable {p : Slot.Written}

theorem Slot.Fronts.absent (fronts : p.Fronts) : ':' ∉ p.front := by
  have dots : ':' ∉ p.ending.dots := by cases p.ending <;> simp [Ending.dots]
  simp [Slot.front, Slot.label, Text.not_mem_of_allBlank fronts.before (c := ':') (by decide),
    fronts.name.not_mem (c := ':') (by decide), dots,
    Text.not_mem_of_allBlank fronts.after (c := ':') (by decide)]

theorem Slot.Fronts.trim (fronts : p.Fronts) : Text.trim p.front = p.label ++ p.ending.dots := by
  have text : ∀ c ∈ p.label ++ p.ending.dots, Text.isBlank c = false := by
    have sign : Text.isBlank '$' = false := by decide
    have dots : ∀ c ∈ p.ending.dots, Text.isBlank c = false := by
      cases p.ending <;> simp [Ending.dots, show Text.isBlank '.' = false by decide]
    simpa [Slot.label, sign, or_imp, forall_and] using
      ⟨fun c member => Text.isBlank_of_isNameChar (fronts.name.all c member), dots⟩
  have trimmed : Text.IsTrimmed (p.label ++ p.ending.dots) := Text.isTrimmed_iff.mpr
    ⟨fun c first => text c (List.mem_of_head? first), fun c last => text c (List.mem_of_getLast? last)⟩
  rw [Slot.front, Text.trim_between fronts.before fronts.after]
  exact trimmed

theorem argumentName_slot (fronts : p.Fronts) : argumentName p.text = p.label := by
  have front : p.text.takeWhile (· != ':') = p.front := by
    rw [Slot.text, Text.takeWhile_append_of_absent fronts.absent]
    cases p.ending <;> simp [Ending.text]
  have bare : ['.', '.', '.'].isSuffixOf p.label = false := by
    refine Bool.eq_false_iff.mpr fun ends => ?_
    have dot : '.' ∈ p.label := (List.isSuffixOf_iff_suffix.mp ends).subset (by simp)
    exact fronts.name.not_mem (c := '.') (by decide) (by simpa [Slot.label] using dot)
  unfold argumentName
  rw [front, fronts.trim]
  cases ending : p.ending with
  | bare => simp [Ending.dots, bare]
  | rest =>
    have ends : ['.', '.', '.'].isSuffixOf (p.label ++ ['.', '.', '.']) = true :=
      List.isSuffixOf_iff_suffix.mpr (List.suffix_append _ _)
    simp [Ending.dots, ends]
  | given before value after => simp [Ending.dots, bare]

/-- The default that is read has what stands around it, but for blanks. -/
theorem argumentDefault?_slot (fronts : p.Fronts) : argumentDefault? p.text = p.read.default? := by
  have none : p.ending.text = [] → argumentDefault? p.text = none := by
    intro void
    have whole : Text.breakAt? ':' p.text = .none := by
      rw [Slot.text, void, List.append_nil]
      exact Text.breakAt?_eq_none fronts.absent
    simp only [argumentDefault?, whole]
  unfold Slot.default? Slot.read
  cases ending : p.ending with
  | bare => exact none (by rw [ending]; rfl)
  | rest => exact none (by rw [ending]; rfl)
  | given before value after =>
    have parts : Text.breakAt? ':' p.text = some (p.front, before ++ (value ++ after)) := by
      rw [Slot.text, ending]
      exact Text.breakAt?_append fronts.absent _
    have label : Text.trim p.front = p.label := by
      rw [fronts.trim, ending]
      exact List.append_nil _
    have sign : isVariableName p.label = true := rfl
    simp only [argumentDefault?, parts, label, sign, if_true]
    rfl

theorem Slot.IsLaid.read (laid : p.IsLaid) : p.read.default? = p.default? := by
  unfold Slot.default? Slot.read
  cases ending : p.ending with
  | bare => rfl
  | rest => rfl
  | given before value after =>
    obtain ⟨blank, trimmed, blank'⟩ : Text.allBlank before = true ∧ Text.IsTrimmed value ∧
        Text.allBlank after = true := by simpa [Ending.IsLaid, ending] using laid.ending
    simp only [Ending.read, Text.trim_between blank blank' value, show Text.trim value = value from trimmed]
    rfl

theorem nested_slot (laid : p.IsLaid) (nests : p.ending.Nests) : nested [] p.text = true := by
  have blank : ∀ {b : List Char}, Text.allBlank b = true → ∀ c ∈ b, isInert c = true :=
    fun blank c member => isInert_of_isBlank (List.all_eq_true.mp blank c member)
  have label : ∀ c ∈ p.label ++ p.ending.dots, isInert c = true := by
    have sign : isInert '$' = true := by decide
    have dots : ∀ c ∈ p.ending.dots, isInert c = true := by
      cases p.ending <;> simp [Ending.dots, show isInert '.' = true by decide]
    simpa [Slot.label, sign, or_imp, forall_and] using
      ⟨fun c member => isInert_of_isNameChar (laid.name.all c member), dots⟩
  rw [Slot.text, Slot.front, List.append_assoc, nested_append_of_inert (blank laid.before),
    List.append_assoc, nested_append_of_inert label, nested_append_of_inert (blank laid.after)]
  cases ending : p.ending with
  | bare => rfl
  | rest => rfl
  | given before value after =>
    obtain ⟨front, _, back⟩ : Text.allBlank before = true ∧ Text.IsTrimmed value ∧
        Text.allBlank after = true := by simpa [Ending.IsLaid, ending] using laid.ending
    have inner : nested [] value = true := by simpa [Ending.Nests, ending] using nests
    rw [Ending.text, nested_cons_of_inert (by decide), nested_append_of_inert (blank front),
      nested_append inner, ← List.append_nil after, nested_append_of_inert (blank back)]
    rfl

end

namespace Signature

variable {s : Signature.Written}

theorem keys_defaults (s : Signature.Written) : (Assoc.keys s.defaults).Sublist s.parameters := by
  unfold defaults parameters
  induction s.slots with
  | nil => exact .slnil
  | cons p ps ih =>
    rw [List.filterMap_cons, List.map_cons]
    split
    · exact ih.cons _
    · rename_i entry given
      have key : entry.1 = String.ofList p.label := by
        unfold Slot.default? at given
        split at given
        · cases given
          rfl
        · cases given
      rw [Assoc.keys, List.map_cons, key]
      exact ih.cons_cons _

theorem nodup_parameters (distinct : (s.slots.map Slot.name).Nodup) : s.parameters.Nodup := by
  have injective : Function.Injective fun n : List Char => String.ofList ('$' :: n) := by
    intro n n' same
    simpa using String.ofList_injective same
  have labels : s.parameters = (s.slots.map Slot.name).map fun n => String.ofList ('$' :: n) := by
    rw [List.map_map]
    rfl
  rw [labels]
  exact List.Nodup.map injective distinct

/-- Of a signature whose names are laid out with blanks each parameter is read, with what stands
around its default. -/
theorem read_of_fronts (opens : s.Opens) (fronts : ∀ p ∈ s.slots, p.Fronts)
    (inner : s.slots = [] → Text.allBlank s.inner = true)
    (nests : ∀ p ∈ s.pieces, nested [] p = true) (distinct : (s.slots.map Slot.name).Nodup) :
    signatureDefaults s.code = s.slots.filterMap (·.read.default?) ∧
      signatureParameters s.code = s.parameters := by
  have arguments : signatureArguments s.text = s.slots.map Slot.text := by
    by_cases none : s.slots = []
    · rw [signatureArguments_text opens nests, pieces, if_pos none, none]
      exact if_pos (inner none)
    · exact signatureArguments_of_slots opens nests none
  have names : (s.slots.map Slot.text).map argumentName = s.slots.map Slot.label := by
    rw [List.map_map]
    exact List.map_congr_left fun p member => argumentName_slot (fronts p member)
  have signs : (s.slots.map Slot.label).filter isVariableName = s.slots.map Slot.label :=
    List.filter_eq_self.mpr (List.forall_mem_map.mpr fun _ _ => rfl)
  have given : (s.slots.map Slot.text).filterMap argumentDefault? =
      s.slots.filterMap (·.read.default?) := by
    rw [List.filterMap_map]
    exact List.filterMap_congr fun p member => argumentDefault?_slot (fronts p member)
  have single : Assoc.Distinct (s.slots.filterMap (·.read.default?)) := by
    let read : Signature.Written := { s with slots := s.slots.map Slot.read }
    have names : read.slots.map Slot.name = s.slots.map Slot.name := by
      rw [List.map_map]
      rfl
    have keys := (nodup_parameters (s := read) (names ▸ distinct)).sublist read.keys_defaults
    rw [defaults, List.filterMap_map] at keys
    exact Assoc.distinct_iff_nodup.mpr keys
  constructor
  · rw [signatureDefaults_eq, code, String.toList_ofList, arguments, given]
    exact Assoc.update_of_distinct (m := []) single
  · rw [signatureParameters, code, String.toList_ofList, arguments, names, signs, List.map_map]
    rfl

theorem read_of_laid (laid : s.IsLaid) (nests : ∀ p ∈ s.pieces, nested [] p = true)
    (distinct : (s.slots.map Slot.name).Nodup) :
    signatureDefaults s.code = s.defaults ∧ signatureParameters s.code = s.parameters := by
  obtain ⟨read, names⟩ := read_of_fronts laid.toOpens (fun p member => (laid.slots p member).toFronts)
    laid.inner nests distinct
  exact ⟨read.trans (List.filterMap_congr fun p member => (laid.slots p member).read), names⟩

theorem nested_pieces (laid : s.IsLaid) (nests : s.Nests) : ∀ p ∈ s.pieces, nested [] p = true := by
  intro piece member
  unfold pieces at member
  split_ifs at member with none
  · rw [List.mem_singleton.mp member]
    have inert : ∀ c ∈ s.inner, isInert c = true :=
      fun c inside => isInert_of_isBlank (List.all_eq_true.mp (laid.inner none) c inside)
    rw [← List.append_nil s.inner, nested_append_of_inert inert]
    rfl
  · obtain ⟨p, inside, rfl⟩ := List.mem_map.mp member
    exact nested_slot (laid.slots p inside) (nests p inside)

/-- A signature that is laid out with blanks, whose defaults nest and keep their commas inside brackets,
gives back its parameters and their defaults in order, whatever the code goes on with. -/
theorem read_back (laid : s.IsLaid) (nests : s.Nests) (distinct : (s.slots.map Slot.name).Nodup) :
    signatureDefaults s.code = s.defaults ∧ signatureParameters s.code = s.parameters :=
  read_of_laid laid (nested_pieces laid nests) distinct

/-- Brackets in brackets, a default on several lines, one that is empty, and a rest parameter. -/
def nestedSignature : Signature.Written where
  indent := []
  kind := .mixin
  gap := [' ']
  name := "m-1".toList
  opening := [' ']
  slots :=
    [⟨"\n  ".toList, "a".toList, [], .bare⟩,
      ⟨[' '], "b".toList, [' '], .given [' '] "map-get($m, [1, (2: x,\n 3)])".toList "\n ".toList⟩,
      ⟨[], "c".toList, [], .given [] [] []⟩, ⟨[' '], "d".toList, ['\t'], .rest⟩]
  inner := []
  rest := " \x7b x: y(1) \x7d".toList

theorem read_back_nested :
    nestedSignature.IsLaid ∧ nestedSignature.Nests ∧ (nestedSignature.slots.map Slot.name).Nodup ∧
      nestedSignature.code =
        "@mixin m-1 (\n  $a, $b : map-get($m, [1, (2: x,\n 3)])\n ,$c:, $d...\t) \x7b x: y(1) \x7d" ∧
      signatureDefaults nestedSignature.code =
        [("$b", "map-get($m, [1, (2: x,\n 3)])"), ("$c", "")] ∧
      signatureParameters nestedSignature.code = ["$a", "$b", "$c", "$d"] := by
  have laid : nestedSignature.IsLaid :=
    ⟨⟨⟨rfl, .inl rfl, by decide⟩, by decide, by decide, by decide⟩, by decide +kernel, nofun⟩
  have nests : nestedSignature.Nests := by
    unfold Nests
    decide +kernel
  have distinct : (nestedSignature.slots.map Slot.name).Nodup := by decide
  obtain ⟨defaults, parameters⟩ := read_back laid nests distinct
  exact ⟨laid, nests, distinct, by decide +kernel, defaults, parameters⟩

end Signature

end SheetDoc
