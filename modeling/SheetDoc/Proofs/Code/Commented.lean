import SheetDoc.Proofs.Code.Signatures

namespace SheetDoc

/-- What may stand between the parts of a signature. -/
inductive Filler
  | blanks (text : List Char) (blank : Text.allBlank text = true)
  /-- A comment up to the end of its line. -/
  | line (text : List Char) (single : '\n' ∉ text)
  | block (text : List Char) (closed : Text.occurs ['*', '/'] (text ++ ['*']) = false)

/-- A part of a default: a character outside of quotes, a text in quotes of one kind, or a comment. -/
inductive Fragment
  | plain (c : Char) (unquoted : c ≠ '"' ∧ c ≠ '\'')
  | quoted (quote : Char) (inner : List Char) (sign : quote = '"' ∨ quote = '\'')
      (closed : ∀ c ∈ inner, c ≠ quote ∧ c ≠ '\\' ∧ c ≠ '\n')
  | filler (f : Filler)

namespace Filler

def isComment : Filler → Bool
  | blanks _ _ => false
  | _ => true

def text : Filler → List Char
  | blanks b _ => b
  | line t _ => '/' :: '/' :: t ++ ['\n']
  | block t _ => '/' :: '*' :: t ++ ['*', '/']

/-- What is left when a comment is deleted. The end of its line stays. -/
def bare : Filler → List Char
  | blanks b _ => b
  | line _ _ => ['\n']
  | block _ _ => []

end Filler

namespace Fragment

def filler? : Fragment → Option Filler
  | filler f => some f
  | _ => none

def text : Fragment → List Char
  | plain c _ => [c]
  | quoted q inner _ _ => q :: (inner ++ [q])
  | filler f => f.text

def uncommented : Fragment → List Char
  | filler f => f.bare
  | f => f.text

/-- The text without comments, with a word in place of what stands in quotes. -/
def worded (word : List Char) : Fragment → List Char
  | quoted q _ _ _ => q :: (word ++ [q])
  | f => f.uncommented

end Fragment

section

variable {γ δ γ' δ' : Type} (f : γ → γ') (g : δ → δ')

def Ending.map : Ending γ δ → Ending γ' δ'
  | bare => bare
  | rest => rest
  | given before value after => given (f before) (g value) (f after)

def Slot.map (p : Slot γ δ) : Slot γ' δ' :=
  { before := f p.before, name := p.name, after := f p.after, ending := p.ending.map f g }

def Signature.map (s : Signature γ δ) : Signature γ' δ' :=
  { indent := s.indent, kind := s.kind, gap := f s.gap, name := s.name, opening := f s.opening
    slots := s.slots.map (Slot.map f g), inner := f s.inner, rest := s.rest }

end

/-- A signature with comments and quoted strings. -/
abbrev Signature.Commented := Signature (List Filler) (List Fragment)

def Ending.fillers : Ending (List Filler) (List Fragment) → List Filler
  | given before value after => before ++ (value.filterMap Fragment.filler? ++ after)
  | _ => []

def Slot.fillers (p : Slot (List Filler) (List Fragment)) : List Filler :=
  p.before ++ (p.after ++ p.ending.fillers)

namespace Signature.Commented

variable (s : Signature.Commented)

/-- The signature as it stands in the code. -/
def written : Signature.Written :=
  s.map (List.flatMap Filler.text) (List.flatMap Fragment.text)

/-- The signature with its comments deleted. -/
def uncommented : Signature.Written :=
  s.map (List.flatMap Filler.bare) (List.flatMap Fragment.uncommented)

/-- The signature with its comments deleted, and with a word in all quotes. -/
def bare (word : List Char) : Signature.Written :=
  s.map (List.flatMap Filler.bare) (List.flatMap (Fragment.worded word))

/-- No comment stands in the signature, but for one in a list without parameters. -/
def Uncommented : Prop :=
  ∀ f ∈ s.gap ++ (s.opening ++ s.slots.flatMap Slot.fillers), f.isComment = false

/-- What stands in strings and comments nests like the code around it. -/
def IsQuiet : Prop := ∀ p ∈ s.written.pieces, nested [] p = true

end Signature.Commented

section

variable {fs : List Filler}

theorem allBlank_bare (fs : List Filler) : Text.allBlank (fs.flatMap Filler.bare) = true := by
  rw [Text.allBlank, List.all_flatMap, List.all_eq_true]
  intro f _
  cases f with
  | blanks b blank => exact blank
  | line => rfl
  | block => rfl

theorem text_of_uncommented (none : ∀ f ∈ fs, f.isComment = false) :
    fs.flatMap Filler.text = fs.flatMap Filler.bare := by
  refine List.flatMap_congr fun f member => ?_
  cases f with
  | blanks => rfl
  | line => cases none _ member
  | block => cases none _ member

/-- The first character of text among fillers is that of a comment. -/
theorem exists_slash {f : Filler} (member : f ∈ fs) (comment : f.isComment = true) :
    ∃ b t, Text.allBlank b = true ∧ fs.flatMap Filler.text = b ++ '/' :: t := by
  induction fs with
  | nil => cases member
  | cons f' fs ih =>
    rw [List.flatMap_cons]
    cases f' with
    | blanks b blank =>
      have later : f ∈ fs := (List.mem_cons.mp member).resolve_left fun same => by
        rw [same] at comment
        cases comment
      obtain ⟨b', t, blank', same⟩ := ih later
      exact ⟨b ++ b', t, by rw [Text.allBlank, List.all_append]; exact Bool.and_eq_true_iff.mpr ⟨blank, blank'⟩,
        by simp [Filler.text, same]⟩
    | line => exact ⟨[], _, rfl, rfl⟩
    | block => exact ⟨[], _, rfl, rfl⟩

/-- A gap either holds no comment or its first text is one. -/
theorem uncommented_or_slash (fs : List Filler) : (∀ f ∈ fs, f.isComment = false) ∨
    ∃ b t, Text.allBlank b = true ∧ fs.flatMap Filler.text = b ++ '/' :: t := by
  by_cases some : ∃ f ∈ fs, f.isComment = true
  · obtain ⟨f, member, comment⟩ := some
    exact .inr (exists_slash member comment)
  · exact .inl fun f member => Bool.eq_false_iff.mpr fun comment => some ⟨f, member, comment⟩

theorem allBlank_text_iff : Text.allBlank (fs.flatMap Filler.text) = true ↔
    ∀ f ∈ fs, f.isComment = false := by
  constructor
  · intro blank
    refine (uncommented_or_slash fs).resolve_right ?_
    rintro ⟨b, t, _, slash⟩
    exact Text.not_mem_of_allBlank blank (c := '/') (by decide) (by simp [slash])
  · intro none
    rw [text_of_uncommented none]
    exact allBlank_bare fs

theorem uncommented_of_count (none : fs.countP Filler.isComment = 0) : ∀ f ∈ fs, f.isComment = false :=
  fun f member => by simpa using List.countP_eq_zero.mp none f member

/-- Each comment adds to the text of a gap. -/
theorem countP_isComment_le (fs : List Filler) :
    fs.countP Filler.isComment ≤ Text.ink (fs.flatMap Filler.text) := by
  induction fs with
  | nil => exact Nat.zero_le _
  | cons f fs ih =>
    rw [List.flatMap_cons, Text.ink_append, List.countP_cons, Nat.add_comm]
    refine Nat.add_le_add ?_ ih
    cases f with
    | blanks => exact Nat.zero_le _
    | line | block => exact Text.ink_pos (c := '/') List.mem_cons_self (by decide)

end

section

variable {b t n : List Char}

theorem trim_slash (blank : Text.allBlank b = true) : Text.trim ((b ++ '/' :: t).takeWhile (· != ':')) =
    '/' :: Text.trimRight (t.takeWhile (· != ':')) := by
  rw [Text.takeWhile_append_of_absent (Text.not_mem_of_allBlank blank (by decide)),
    Text.trim_append_left blank]
  exact Text.trimRight_cons_of_text (by decide) _

/-- What begins with a comment is taken for no parameter. -/
theorem isVariableName_argumentName (blank : Text.allBlank b = true) :
    isVariableName (argumentName (b ++ '/' :: t)) = false := by
  unfold argumentName
  simp only [trim_slash blank]
  split
  · cases ('/' :: Text.trimRight (t.takeWhile (· != ':'))).length - 3 <;> rfl
  · rfl

theorem argumentDefault?_slash (blank : Text.allBlank b = true) :
    argumentDefault? (b ++ '/' :: t) = none := by
  unfold argumentDefault?
  split
  · rfl
  · rename_i name value found
    rw [Text.breakAt?_fst found, trim_slash blank]
    rfl

/-- A name has all the text in front of the colon but dots. -/
theorem mem_argumentName {s : List Char} {c : Char}
    (member : c ∈ Text.trim (s.takeWhile (· != ':'))) (other : c ≠ '.') : c ∈ argumentName s := by
  simp only [argumentName]
  split
  · rename_i ends
    obtain ⟨front, same⟩ := List.isSuffixOf_iff_suffix.mp ends
    rw [← same] at member ⊢
    simpa [other] using member
  · exact member

end

namespace Slot

variable {p : Slot.Written}

theorem before_of_argumentName (same : argumentName p.text = p.label) {b t : List Char}
    (blank : Text.allBlank b = true) : p.before ≠ b ++ '/' :: t := by
  intro slash
  have text : p.text = b ++ '/' :: (t ++ (p.label ++ p.ending.dots ++ p.after) ++ p.ending.text) := by
    simp [Slot.text, front, slash]
  have sign : isVariableName p.label = true := rfl
  rw [← same, text, isVariableName_argumentName blank] at sign
  cases sign

theorem after_of_argumentName (before : Text.allBlank p.before = true) (name : Text.IsName p.name)
    (same : argumentName p.text = p.label) {b t : List Char} (blank : Text.allBlank b = true) :
    p.after ≠ b ++ '/' :: t := by
  intro slash
  have dots : ':' ∉ p.ending.dots := by cases p.ending <;> simp [Ending.dots]
  have absent : ':' ∉ p.before ++ (p.label ++ p.ending.dots ++ b) := by
    simp [label, Text.not_mem_of_allBlank before (c := ':') (by decide),
      name.not_mem (c := ':') (by decide), dots,
      Text.not_mem_of_allBlank blank (c := ':') (by decide)]
  have text : p.text = (p.before ++ (p.label ++ p.ending.dots ++ b)) ++ '/' :: (t ++ p.ending.text) := by
    simp [Slot.text, front, slash]
  have listed : '/' ∈ Text.trim (p.text.takeWhile (· != ':')) := by
    rw [text, Text.takeWhile_append_of_absent absent]
    exact Text.mem_trim (by simp) (by decide)
  have inside := mem_argumentName listed (by decide)
  rw [same] at inside
  exact name.not_mem (c := '/') (by decide) (by simpa [label] using inside)

end Slot

namespace Signature

variable {s : Signature.Written} {b t : List Char}

theorem signatureArguments_of_gap (named : s.IsNamed) (blank : Text.allBlank b = true)
    (gap : s.gap = b ++ '/' :: t) : signatureArguments s.text = [] := by
  have none : ∀ rest, (afterBlanks? (s.gap ++ rest)).bind readName? = none := by
    intro rest
    rw [gap]
    by_cases void : b = []
    · subst void
      rfl
    · rw [List.append_assoc, afterBlanks?_append blank void]
      rfl
  have head : callableHead? s.text = .none := by
    rw [text, callableHead?_keyword named.indent named.callable, none]
    rfl
  simp only [signatureArguments, head]

theorem signatureArguments_of_opening (named : s.IsNamed) (gap : Text.allBlank s.gap = true)
    (parted : s.gap ≠ []) (blank : Text.allBlank b = true) (opening : s.opening = b ++ '/' :: t) :
    signatureArguments s.text = [] := by
  have apart : ∀ c ∈ s.opening.head?, Text.isNameChar c = false := by
    rw [opening]
    cases b with
    | nil =>
      rintro c ⟨⟩
      decide
    | cons d b =>
      rintro c ⟨⟩
      exact Text.isNameChar_of_isBlank (Bool.and_eq_true_iff.mp blank).1
  have none : ∀ rest, Text.after? ['('] (Text.trimLeft (s.opening ++ rest)) = none := by
    intro rest
    rw [opening, List.append_assoc, Text.trimLeft_append blank, List.cons_append,
      Text.trimLeft_of_head (by decide)]
    rfl
  simp only [signatureArguments, callableHead?_text named gap parted apart, none]

end Signature

section

variable {fs : List Fragment} {word : List Char}

theorem head?_worded (fs : List Fragment) : (fs.flatMap (Fragment.worded word)).head? =
    (fs.flatMap Fragment.uncommented).head? := by
  induction fs with
  | nil => rfl
  | cons f fs ih =>
    have own : (f.worded word).head? = f.uncommented.head? := by cases f <;> rfl
    simp only [List.flatMap_cons, List.head?_append, own, ih]

theorem getLast?_worded (fs : List Fragment) : (fs.flatMap (Fragment.worded word)).getLast? =
    (fs.flatMap Fragment.uncommented).getLast? := by
  induction fs with
  | nil => rfl
  | cons f fs ih =>
    have own : (f.worded word).getLast? = f.uncommented.getLast? := by
      cases f with
      | plain | filler => rfl
      | quoted q inner =>
        exact (List.getLast?_concat (l := q :: word)).trans (List.getLast?_concat (l := q :: inner)).symm
    simp only [List.flatMap_cons, List.getLast?_append, own, ih]

/-- What stands in quotes has no say in whether a default is trimmed. -/
theorem isTrimmed_worded : Text.IsTrimmed (fs.flatMap (Fragment.worded word)) ↔
    Text.IsTrimmed (fs.flatMap Fragment.uncommented) := by
  rw [Text.isTrimmed_iff, Text.isTrimmed_iff, head?_worded, getLast?_worded]

theorem value_of_uncommented (none : ∀ f ∈ fs.filterMap Fragment.filler?, f.isComment = false) :
    fs.flatMap Fragment.text = fs.flatMap Fragment.uncommented := by
  refine List.flatMap_congr fun f member => ?_
  cases f with
  | plain | quoted => rfl
  | filler f =>
    have plain : f.isComment = false := none f (List.mem_filterMap.mpr ⟨_, member, rfl⟩)
    have single : [f].flatMap Filler.text = [f].flatMap Filler.bare :=
      text_of_uncommented (by simpa using plain)
    rwa [List.flatMap_singleton, List.flatMap_singleton] at single

/-- Each comment adds to the text of a default. -/
theorem ink_uncommented_le (fs : List Fragment) :
    Text.ink (fs.flatMap Fragment.uncommented) + (fs.filterMap Fragment.filler?).countP Filler.isComment ≤
      Text.ink (fs.flatMap Fragment.text) := by
  induction fs with
  | nil => exact Nat.le_refl _
  | cons f fs ih =>
    rw [List.flatMap_cons, List.flatMap_cons, Text.ink_append, Text.ink_append]
    cases f with
    | plain | quoted =>
      rw [List.filterMap_cons_none rfl]
      simp only [Fragment.uncommented]
      omega
    | filler f =>
      have own := countP_isComment_le [f]
      have blank := Text.ink_of_allBlank (allBlank_bare [f])
      rw [List.filterMap_cons_some (show (Fragment.filler f).filler? = some f from rfl), List.countP_cons]
      simp only [List.flatMap_singleton, List.countP_singleton] at own blank
      simp only [Fragment.uncommented, Fragment.text]
      omega

end

section

variable {α β : Type} {l : List α}

/-- When two readings of a list give the same, and something for the same items, each item is read
alike. -/
theorem eq_of_filterMap_eq {f g : α → Option β} (alike : ∀ a ∈ l, (f a).isSome = (g a).isSome)
    (same : l.filterMap f = l.filterMap g) : ∀ a ∈ l, f a = g a := by
  induction l with
  | nil => exact List.forall_mem_nil _
  | cons a l ih =>
    obtain ⟨here, later⟩ := List.forall_mem_cons.mp alike
    cases first : f a with
    | none =>
      have other : g a = none := by simpa [first] using here
      rw [List.filterMap_cons_none first, List.filterMap_cons_none other] at same
      exact List.forall_mem_cons.mpr ⟨first.trans other.symm, ih later same⟩
    | some b =>
      obtain ⟨b', other⟩ : ∃ b', g a = some b' := Option.isSome_iff_exists.mp (by simpa [first] using here)
      rw [List.filterMap_cons_some first, List.filterMap_cons_some other] at same
      obtain ⟨head, tail⟩ := List.cons.inj same
      exact List.forall_mem_cons.mpr ⟨by rw [first, other, head], ih later tail⟩

/-- When as many items are left as there were, none has been taken out. -/
theorem eq_of_filter_eq {f g : α → β} {q : β → Bool} (same : (l.map f).filter q = l.map g) :
    ∀ a ∈ l, f a = g a := by
  have length : ((l.map f).filter q).length = (l.map f).length := by
    rw [same, List.length_map, List.length_map]
  rw [List.filter_eq_self.mpr (List.length_filter_eq_length_iff.mp length)] at same
  exact List.map_inj_left.mp same

end

namespace Slot

variable {word : List Char}

/-- A parameter as it stands in the code. -/
def written (p : Slot (List Filler) (List Fragment)) : Slot.Written :=
  p.map (List.flatMap Filler.text) (List.flatMap Fragment.text)

def uncommented (p : Slot (List Filler) (List Fragment)) : Slot.Written :=
  p.map (List.flatMap Filler.bare) (List.flatMap Fragment.uncommented)

def bare (word : List Char) (p : Slot (List Filler) (List Fragment)) : Slot.Written :=
  p.map (List.flatMap Filler.bare) (List.flatMap (Fragment.worded word))

variable {p : Slot (List Filler) (List Fragment)}

theorem isLaid_uncommented (laid : (p.bare word).IsLaid) : p.uncommented.IsLaid := by
  refine ⟨⟨laid.before, laid.name, laid.after⟩, ?_⟩
  have own := laid.ending
  obtain ⟨pb, name, pa, e⟩ := p
  cases e with
  | bare | rest => exact trivial
  | given b v a => exact ⟨own.1, isTrimmed_worded.mp own.2.1, own.2.2⟩

theorem written_of_uncommented (none : ∀ f ∈ p.fillers, f.isComment = false) :
    p.written = p.uncommented := by
  obtain ⟨before, later⟩ := List.forall_mem_append.mp none
  obtain ⟨after, ending⟩ := List.forall_mem_append.mp later
  have own : p.ending.map (List.flatMap Filler.text) (List.flatMap Fragment.text) =
      p.ending.map (List.flatMap Filler.bare) (List.flatMap Fragment.uncommented) := by
    cases same : p.ending with
    | bare | rest => rfl
    | given b v a =>
      rw [same] at ending
      obtain ⟨front, later⟩ := List.forall_mem_append.mp ending
      obtain ⟨value, back⟩ := List.forall_mem_append.mp later
      simp only [Ending.map, text_of_uncommented front, value_of_uncommented value,
        text_of_uncommented back]
  simp only [written, uncommented, map, text_of_uncommented before, text_of_uncommented after, own]

/-- Around the name of a parameter that is read no comment stands. -/
theorem fronts_of_argumentName (name : Text.IsName p.name)
    (same : argumentName p.written.text = p.label) : p.written.Fronts := by
  have before : Text.allBlank p.written.before = true := by
    refine allBlank_text_iff.mpr ((uncommented_or_slash p.before).resolve_right ?_)
    rintro ⟨b, t, blank, slash⟩
    exact before_of_argumentName same blank slash
  refine ⟨before, name, allBlank_text_iff.mpr ((uncommented_or_slash p.after).resolve_right ?_)⟩
  rintro ⟨b, t, blank, slash⟩
  exact after_of_argumentName before name same blank slash

/-- No comment stands at a default that is read as it is meant. -/
theorem uncommented_of_default? (fronts : p.written.Fronts)
    (same : p.written.read.default? = p.uncommented.default?) :
    ∀ f ∈ p.fillers, f.isComment = false := by
  refine List.forall_mem_append.mpr ⟨allBlank_text_iff.mp fronts.before,
    List.forall_mem_append.mpr ⟨allBlank_text_iff.mp fronts.after, ?_⟩⟩
  obtain ⟨pb, name, pa, e⟩ := p
  cases e with
  | bare | rest => exact List.forall_mem_nil _
  | given b v a =>
    have value : Text.trim (b.flatMap Filler.text ++ (v.flatMap Fragment.text ++ a.flatMap Filler.text)) =
        v.flatMap Fragment.uncommented :=
      String.ofList_injective (Prod.mk.inj (Option.some.inj same)).2
    -- nothing but comments is left to make a difference
    have counts := congrArg Text.ink value
    rw [Text.ink_trim, Text.ink_append, Text.ink_append] at counts
    have front := countP_isComment_le b
    have inner := ink_uncommented_le v
    have back := countP_isComment_le a
    exact List.forall_mem_append.mpr ⟨uncommented_of_count (by omega),
      List.forall_mem_append.mpr ⟨uncommented_of_count (by omega), uncommented_of_count (by omega)⟩⟩

end Slot

namespace Signature.Commented

variable {s : Signature.Commented} {word : List Char}

theorem isNamed_written (laid : (s.bare word).IsLaid) : s.written.IsNamed :=
  ⟨laid.indent, laid.callable, laid.name⟩

theorem opens_written (laid : (s.bare word).IsLaid) (gap : ∀ f ∈ s.gap, f.isComment = false)
    (opening : ∀ f ∈ s.opening, f.isComment = false) : s.written.Opens := by
  refine ⟨isNamed_written laid, allBlank_text_iff.mpr gap, ?_, allBlank_text_iff.mpr opening⟩
  intro void
  exact laid.parted ((text_of_uncommented gap).symm.trans void)

/-- Where a comment stands in front of the list, nothing is read. -/
theorem uncommented_of_arguments (laid : (s.bare word).IsLaid)
    (some : signatureArguments s.written.text ≠ []) :
    (∀ f ∈ s.gap, f.isComment = false) ∧ ∀ f ∈ s.opening, f.isComment = false := by
  have gap : ∀ f ∈ s.gap, f.isComment = false := by
    refine (uncommented_or_slash s.gap).resolve_right ?_
    rintro ⟨b, t, blank, slash⟩
    exact some (signatureArguments_of_gap (isNamed_written laid) blank slash)
  refine ⟨gap, (uncommented_or_slash s.opening).resolve_right ?_⟩
  rintro ⟨b, t, blank, slash⟩
  have parted : s.written.gap ≠ [] := fun void =>
    laid.parted ((text_of_uncommented gap).symm.trans void)
  exact some (signatureArguments_of_opening (isNamed_written laid) (allBlank_text_iff.mpr gap) parted
    blank slash)

/-- Of a list without parameters nothing is read, whatever stands in it. -/
theorem read_none (laid : (s.bare word).IsLaid) (quiet : s.IsQuiet) (none : s.slots = []) :
    signatureDefaults s.written.code = [] ∧ signatureParameters s.written.code = [] := by
  have read : (signatureArguments s.written.text).filterMap argumentDefault? = [] ∧
      ((signatureArguments s.written.text).map argumentName).filter isVariableName = [] := by
    by_cases void : signatureArguments s.written.text = []
    · rw [void]
      exact ⟨rfl, rfl⟩
    · obtain ⟨gap, opening⟩ := uncommented_of_arguments laid void
      have pieces : s.written.pieces = [s.written.inner] := if_pos (by rw [written, map, none]; rfl)
      have listed := signatureArguments_text (opens_written laid gap opening) quiet
      rw [pieces] at listed
      rcases uncommented_or_slash s.inner with blank | ⟨b, t, blank, slash⟩
      · exact absurd (listed.trans (if_pos (allBlank_text_iff.mpr blank))) void
      · have text : Text.allBlank s.written.inner ≠ true := fun blank' =>
          Text.not_mem_of_allBlank blank' (c := '/') (by decide) (by simp [written, map, slash])
        have inner : s.written.inner = b ++ '/' :: t := slash
        rw [listed.trans (if_neg text), inner]
        simp [argumentDefault?_slash blank, isVariableName_argumentName blank]
  constructor
  · rw [signatureDefaults_eq, code, String.toList_ofList, read.1]
    rfl
  · rw [signatureParameters, code, String.toList_ofList, read.2]
    rfl

theorem parameters_written (s : Signature.Commented) : s.written.parameters = s.parameters := by
  unfold parameters
  exact List.map_map

theorem names_written (s : Signature.Commented) :
    s.written.slots.map Slot.name = s.slots.map Slot.name := List.map_map

theorem forall_slots_written {P : Slot.Written → Prop} (holds : ∀ p ∈ s.slots, P p.written) :
    ∀ p ∈ s.written.slots, P p := List.forall_mem_map.mpr holds

/-- A signature without comments is read as it is meant. -/
theorem read_of_uncommented (laid : (s.bare word).IsLaid) (quiet : s.IsQuiet)
    (distinct : (s.slots.map Slot.name).Nodup) (some : s.slots ≠ []) (none : s.Uncommented) :
    signatureDefaults s.written.code = s.uncommented.defaults ∧
      signatureParameters s.written.code = s.parameters := by
  obtain ⟨gap, later⟩ := List.forall_mem_append.mp none
  obtain ⟨opening, slots⟩ := List.forall_mem_append.mp later
  have each : ∀ p ∈ s.slots, p.written = p.uncommented := fun p member =>
    Slot.written_of_uncommented fun f inside => slots f (List.mem_flatMap.mpr ⟨p, member, inside⟩)
  have whole : s.written.IsLaid := by
    refine ⟨opens_written laid gap opening, forall_slots_written fun p member => ?_,
      fun void => absurd (List.map_eq_nil_iff.mp void) some⟩
    rw [each p member]
    exact Slot.isLaid_uncommented (laid.slots _ (List.mem_map_of_mem member))
  have defaults : s.written.defaults = s.uncommented.defaults :=
    congrArg (List.filterMap Slot.default?) (List.map_congr_left each)
  rw [← parameters_written, ← defaults]
  exact read_of_laid whole quiet (s.names_written ▸ distinct)

/-- A signature that is read as it is meant has no comments. -/
theorem uncommented_of_read (laid : (s.bare word).IsLaid) (quiet : s.IsQuiet)
    (distinct : (s.slots.map Slot.name).Nodup) (some : s.slots ≠ [])
    (defaults : signatureDefaults s.written.code = s.uncommented.defaults)
    (parameters : signatureParameters s.written.code = s.parameters) : s.Uncommented := by
  have listed : signatureArguments s.written.text ≠ [] := by
    intro void
    rw [signatureParameters, code, String.toList_ofList, void] at parameters
    exact some (List.map_eq_nil_iff.mp parameters.symm)
  obtain ⟨gap, opening⟩ := uncommented_of_arguments laid listed
  have opens := opens_written laid gap opening
  have some' : s.written.slots ≠ [] := fun void => some (List.map_eq_nil_iff.mp void)
  have fronts : ∀ p ∈ s.slots, p.written.Fronts := by
    have arguments : signatureArguments s.written.text = s.slots.map (·.written.text) :=
      (signatureArguments_of_slots opens quiet some').trans List.map_map
    have named : ((s.slots.map fun p => argumentName p.written.text).filter isVariableName) =
        s.slots.map Slot.label := by
      have labels : s.parameters = (s.slots.map Slot.label).map String.ofList := by
        rw [List.map_map]
        rfl
      rw [signatureParameters, code, String.toList_ofList, arguments, List.map_map, labels] at parameters
      exact List.map_injective_iff.mpr (fun _ _ => String.ofList_injective) parameters
    intro p member
    have name : Text.IsName p.name := (laid.slots _ (List.mem_map_of_mem member)).name
    exact Slot.fronts_of_argumentName name (eq_of_filter_eq named p member)
  have read : s.slots.filterMap (·.written.read.default?) =
      s.slots.filterMap (·.uncommented.default?) := by
    have own := (read_of_fronts opens (forall_slots_written fronts) (fun void => absurd void some') quiet
      (s.names_written ▸ distinct)).1.symm.trans defaults
    exact List.filterMap_map.symm.trans (own.trans List.filterMap_map)
  have alike : ∀ p ∈ s.slots, (p.written.read.default?).isSome = (p.uncommented.default?).isSome := by
    rintro ⟨b, name, a, e⟩ -
    cases e <;> rfl
  have each := eq_of_filterMap_eq alike read
  refine List.forall_mem_append.mpr ⟨gap, List.forall_mem_append.mpr ⟨opening, fun f inside => ?_⟩⟩
  obtain ⟨p, member, inside⟩ := List.mem_flatMap.mp inside
  exact Slot.uncommented_of_default? (fronts p member) (each p member) f inside

end Signature.Commented

end SheetDoc
