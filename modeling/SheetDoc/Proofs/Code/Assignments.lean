import Mathlib.Data.List.Basic
import SheetDoc.Code.Construct
import SheetDoc.Proofs.Text.Names

namespace SheetDoc

/-- Blanks within a line. -/
structure IsGap (b : List Char) : Prop where
  blank : Text.allBlank b = true
  single : '\n' ∉ b

/-- A flag with the gap in front of it. -/
abbrev FlagPart := List Char × List Char

def FlagPart.text (f : FlagPart) : List Char := f.1 ++ '!' :: f.2

structure FlagPart.IsWritten (f : FlagPart) : Prop where
  gap : IsGap f.1
  word : f.2 ∈ flagWords

/-- The declaration of a variable on one line, as it is written. -/
structure Assignment where
  name : List Char
  /-- What stands on either side of the colon. -/
  before : List Char
  after : List Char
  value : List Char
  flags : List FlagPart
  /-- What stands in front of the semicolon. -/
  gap : List Char
  /-- A comment behind the semicolon, with what stands between them. -/
  comment : Option (List Char × List Char)

/-- A value without signs that mean something to the code around it. -/
structure IsValue (v : List Char) : Prop where
  nonempty : v ≠ []
  trimmed : Text.IsTrimmed v
  plain : ∀ c ∈ v, c ∉ ['!', ';', '\x7b', '\x7d', '/', '\n']

namespace Assignment

variable (d : Assignment)

/-- From the value to the semicolon. -/
def body : List Char := d.value ++ (d.flags.flatMap FlagPart.text ++ (d.gap ++ [';']))

def statement : List Char := '$' :: (d.name ++ (d.before ++ ':' :: (d.after ++ d.body)))

def trailer : List Char := d.comment.elim [] fun (gap, text) => gap ++ '/' :: '/' :: text

def line : List Char := d.statement ++ d.trailer

/-- The word of the last flag. -/
def scope : List Char := (d.flags.map (·.2)).getLastD privateScope

structure IsWritten : Prop where
  name : Text.IsName d.name
  before : IsGap d.before
  after : IsGap d.after
  value : IsValue d.value
  flags : ∀ f ∈ d.flags, f.IsWritten
  gap : IsGap d.gap
  comment : ∀ k ∈ d.comment, IsGap k.1 ∧ '\n' ∉ k.2

end Assignment

section

variable {s v : List Char}

theorem flagAt?_eq_none (other : ∀ c ∈ (Text.trimLeft s).head?, c ≠ '!') : flagAt? s = none := by
  unfold flagAt?
  refine List.findSome?_eq_none_iff.mpr fun word _ => ?_
  have absent : Text.after? ('!' :: word) (Text.trimLeft s) = none := by
    cases body : Text.trimLeft s with
    | nil => rfl
    | cons c r =>
      rw [Text.after?, if_neg]
      exact fun same => other c (by rw [body]; rfl) same.symm
  rw [absent]

theorem takeFlags_of_some {word rest : List Char} (found : flagAt? s = some (word, rest)) :
    takeFlags s = ((takeFlags rest).1, word :: (takeFlags rest).2) := by
  rw [takeFlags]
  split
  · rename_i found'
    rw [found] at found'
    cases found'
    rfl
  · rename_i none
    rw [found] at none
    cases none

theorem takeFlags_of_none {c : Char} (none : flagAt? (c :: s) = none) :
    takeFlags (c :: s) = (c :: (takeFlags s).1, (takeFlags s).2) := by
  rw [takeFlags]
  split
  · rename_i found
    rw [none] at found
    cases found
  · rfl

/-- A text that does not end with a blank has no flag but one behind it. -/
theorem takeFlags_append (last : ∀ c ∈ v.getLast?, Text.isBlank c = false) (absent : '!' ∉ v)
    (s : List Char) : takeFlags (v ++ s) = (v ++ (takeFlags s).1, (takeFlags s).2) := by
  induction v with
  | nil => rfl
  | cons c r ih =>
    have text : (Text.trimLeft (c :: r)) ≠ [] := by
      intro void
      have final : (c :: r).getLast (List.cons_ne_nil c r) ∈ c :: r := List.getLast_mem _
      have blank := List.dropWhile_eq_nil_iff.mp void _ final
      rw [last _ (List.getLast?_eq_some_getLast _)] at blank
      cases blank
    have none : flagAt? (c :: r ++ s) = none := by
      refine flagAt?_eq_none fun d first same => ?_
      have more : ¬((c :: r).dropWhile Text.isBlank).isEmpty = true := fun void =>
        text (List.isEmpty_iff.mp void)
      have body : Text.trimLeft (c :: r ++ s) = Text.trimLeft (c :: r) ++ s := by
        rw [Text.trimLeft, List.dropWhile_append, if_neg more]
        rfl
      rw [body, List.head?_append_of_ne_nil _ text] at first
      exact absent (same ▸ (List.dropWhile_sublist _).subset (List.mem_of_mem_head? first))
    have later : ∀ d ∈ r.getLast?, Text.isBlank d = false := by
      cases r with
      | nil => rintro _ ⟨⟩
      | cons => simpa using last
    rw [List.cons_append] at none ⊢
    rw [takeFlags_of_none none, ih later fun inside => absent (List.mem_cons_of_mem c inside)]
    rfl

theorem flagAt?_flag {f : FlagPart} (written : f.IsWritten) {rest : List Char}
    (ends : rest.head?.any Text.isWordChar = false) : flagAt? (f.text ++ rest) = some (f.2, rest) := by
  have body : Text.trimLeft (f.text ++ rest) = '!' :: (f.2 ++ rest) := by
    rw [FlagPart.text, List.append_assoc, Text.trimLeft_append written.gap.blank]
    exact Text.trimLeft_of_head (by decide) _
  obtain ⟨gap, word⟩ := f
  have listed : word ∈ flagWords := written.word
  unfold flagAt?
  rw [body]
  simp only [flagWords, List.mem_cons, List.not_mem_nil, or_false] at listed
  rcases listed with rfl | rfl <;> simp [flagWords, Text.after?, ends]

theorem head?_flags {fs : List FlagPart} (written : ∀ f ∈ fs, f.IsWritten) :
    (fs.flatMap FlagPart.text).head?.any Text.isWordChar = false := by
  cases fs with
  | nil => rfl
  | cons f fs =>
    obtain ⟨gap, word⟩ := f
    have blank := (written _ List.mem_cons_self).gap.blank
    cases gap with
    | nil => rfl
    | cons c r =>
      have other := Text.isNameChar_of_isBlank (Bool.and_eq_true_iff.mp blank).1
      exact (Bool.or_eq_false_iff.mp other).1

theorem takeFlags_flags {fs : List FlagPart} (written : ∀ f ∈ fs, f.IsWritten) :
    takeFlags (fs.flatMap FlagPart.text) = ([], fs.map (·.2)) := by
  induction fs with
  | nil => rw [List.flatMap_nil, takeFlags]; rfl
  | cons f fs ih =>
    obtain ⟨here, later⟩ := List.forall_mem_cons.mp written
    rw [List.flatMap_cons, takeFlags_of_some (flagAt?_flag here (head?_flags later)), ih later]
    rfl

theorem exists_of_flagAt? {word rest : List Char} (found : flagAt? s = some (word, rest)) :
    ∃ b, Text.allBlank b = true ∧ word ∈ flagWords ∧ s = b ++ ('!' :: word ++ rest) := by
  obtain ⟨w, listed, at_w⟩ := List.exists_of_findSome?_eq_some found
  split at at_w
  · rename_i tail same
    split at at_w
    · cases at_w
    · cases at_w
      refine ⟨s.takeWhile Text.isBlank, List.all_eq_true.mpr fun c => List.mem_takeWhile_imp, listed, ?_⟩
      rw [← Text.after?_eq_some_iff.mp same]
      exact List.takeWhile_append_dropWhile.symm
  · cases at_w

/-- What is no part of a flag stays. -/
theorem mem_takeFlags {c : Char} (member : c ∈ s) (text : Text.isBlank c = false)
    (other : ∀ w ∈ flagWords, c ∉ '!' :: w) : c ∈ (takeFlags s).1 := by
  fun_induction takeFlags s with
  | case1 s word rest found flags words same ih =>
    obtain ⟨b, blank, listed, parts⟩ := exists_of_flagAt? found
    rw [parts, List.mem_append, List.mem_append] at member
    have behind := (member.resolve_left (Text.not_mem_of_allBlank blank text)).resolve_left (other word listed)
    simpa [same] using ih behind
  | case2 => cases member
  | case3 d r _ flags words same ih =>
    rcases List.mem_cons.mp member with rfl | later
    · exact List.mem_cons_self
    · exact List.mem_cons_of_mem d (by simpa [same] using ih later)

end

namespace Assignment

variable {d : Assignment}

theorem last_flagged {v : List Char} (value : IsValue v) {fs : List FlagPart}
    (written : ∀ f ∈ fs, f.IsWritten) :
    ∀ c ∈ (v ++ fs.flatMap FlagPart.text).getLast?, Text.isBlank c = false := by
  rcases List.eq_nil_or_concat fs with rfl | ⟨fs, f, rfl⟩
  · rw [List.flatMap_nil, List.append_nil]
    exact (Text.isTrimmed_iff.mp value.trimmed).2
  · have listed : f.2 ∈ flagWords := (written f (by simp)).word
    obtain ⟨gap, word⟩ := f
    simp only [flagWords, List.mem_cons, List.not_mem_nil, or_false] at listed
    rcases listed with rfl | rfl <;> simp [FlagPart.text] <;> decide

theorem IsWritten.absent (written : d.IsWritten) : ':' ∉ '$' :: (d.name ++ d.before) := by
  simp [written.name.not_mem (c := ':') (by decide),
    Text.not_mem_of_allBlank written.before.blank (c := ':') (by decide)]

theorem breakAt?_line (written : d.IsWritten) :
    Text.breakAt? ':' d.line = some ('$' :: (d.name ++ d.before), d.after ++ (d.body ++ d.trailer)) := by
  rw [← Text.breakAt?_append written.absent]
  simp [line, statement]

theorem variableValue_line (written : d.IsWritten) : variableValue d.line =
    (Text.trim (takeFlags (dropSemicolon (Text.trim (d.body ++ d.trailer)))).1,
      (takeFlags (dropSemicolon (Text.trim (d.body ++ d.trailer)))).2.getLastD privateScope) := by
  rw [variableValue, breakAt?_line written, Option.elim_some,
    Text.trim_append_left written.after.blank]

/-- Without a comment the value and the last flag are read as they are written. -/
theorem variableValue_bare (written : d.IsWritten) (none : d.comment = none) :
    variableValue d.line = (d.value, d.scope) := by
  have trailer : d.trailer = [] := by rw [Assignment.trailer, none]; rfl
  have head := (Text.isTrimmed_iff.mp written.value.trimmed).1
  have last := last_flagged written.value written.flags
  have body : d.body = d.value ++ d.flags.flatMap FlagPart.text ++ d.gap ++ [';'] := by
    simp [Assignment.body]
  have trimmed : Text.IsTrimmed d.body := by
    refine Text.isTrimmed_iff.mpr ⟨?_, fun c ends => ?_⟩
    · rwa [Assignment.body, List.head?_append_of_ne_nil _ written.value.nonempty]
    · rw [body, List.getLast?_concat] at ends
      cases ends
      decide
  have dropped : dropSemicolon d.body = d.value ++ d.flags.flatMap FlagPart.text := by
    rw [dropSemicolon, body, if_pos List.getLast?_concat, List.dropLast_concat,
      Text.trimRight_append _ written.gap.blank]
    exact Text.trimRight_of_last last
  have plain : '!' ∉ d.value := fun inside => written.value.plain '!' inside (by decide)
  rw [variableValue_line written, trailer, List.append_nil, show Text.trim d.body = d.body from trimmed,
    dropped, takeFlags_append (Text.isTrimmed_iff.mp written.value.trimmed).2 plain,
    takeFlags_flags written.flags, List.append_nil]
  exact congrArg (·, d.scope) written.value.trimmed

/-- A comment takes the semicolon into the value. -/
theorem mem_variableValue (written : d.IsWritten) (some : d.comment ≠ none) :
    ';' ∈ (variableValue d.line).1 := by
  obtain ⟨⟨gap, text⟩, comment⟩ := Option.ne_none_iff_exists'.mp some
  have head := (Text.isTrimmed_iff.mp written.value.trimmed).1
  obtain ⟨front, inside, rest, trimmed⟩ : ∃ front, ';' ∈ front ∧ ∃ rest,
      Text.trim (d.body ++ d.trailer) = front ++ '/' :: rest := by
    obtain ⟨c, r, value⟩ := List.exists_cons_of_ne_nil written.value.nonempty
    refine ⟨d.body ++ gap, by simp [body], Text.trimRight ('/' :: text), ?_⟩
    have whole : d.body ++ d.trailer = (d.body ++ gap) ++ '/' :: '/' :: text := by
      simp [trailer, comment]
    have solid : Text.allBlank ('/' :: '/' :: text) = false := rfl
    have start : Text.trimLeft (d.body ++ d.trailer) = d.body ++ d.trailer := by
      simp only [body, value, List.cons_append]
      exact Text.trimLeft_of_head (head c (by rw [value]; rfl)) _
    rw [Text.trim, start, whole, Text.trimRight_append_of_text _ solid,
      Text.trimRight_cons_of_text (by decide)]
  have kept : ';' ∈ dropSemicolon (Text.trim (d.body ++ d.trailer)) := by
    rw [trimmed, dropSemicolon]
    split_ifs
    · refine Text.mem_trimRight ?_ (by decide)
      rw [List.dropLast_append_cons]
      exact List.mem_append_left _ inside
    · exact List.mem_append_left _ inside
  rw [variableValue_line written]
  exact Text.mem_trim (mem_takeFlags kept (by decide) (by decide)) (by decide)

end Assignment

/-- The signs that the scanner goes by, but for the semicolon. -/
def scannedSigns : List Char := ['\x7b', '\x7d', '/', '\n']

theorem IsGap.absent {b : List Char} (gap : IsGap b) {c : Char} (sign : c ∈ scannedSigns) : c ∉ b := by
  simp only [scannedSigns, List.mem_cons, List.not_mem_nil, or_false] at sign
  rcases sign with rfl | rfl | rfl | rfl
  · exact Text.not_mem_of_allBlank gap.blank (by decide)
  · exact Text.not_mem_of_allBlank gap.blank (by decide)
  · exact Text.not_mem_of_allBlank gap.blank (by decide)
  · exact gap.single

namespace Assignment

variable {d : Assignment}

theorem not_mem_statement (written : d.IsWritten) {c : Char} (sign : c ∈ scannedSigns) :
    c ∉ d.statement := by
  have own : c ∉ ['$', ':', ';', '!'] ∧ Text.isNameChar c = false ∧ ∀ w ∈ flagWords, c ∉ w := by
    revert c
    decide
  have listed : ∀ c ∈ scannedSigns, c ∈ ['!', ';', '\x7b', '\x7d', '/', '\n'] := by decide
  have value : c ∉ d.value := fun inside => written.value.plain c inside (listed c sign)
  have flags : c ∉ d.flags.flatMap FlagPart.text := by
    intro inside
    obtain ⟨f, listed, inside⟩ := List.mem_flatMap.mp inside
    obtain ⟨gap, word⟩ := written.flags f listed
    rcases List.mem_append.mp inside with inside | inside
    · exact gap.absent sign inside
    · exact own.2.2 f.2 word ((List.mem_cons.mp inside).resolve_left (by rintro rfl; exact own.1 (by simp)))
  have name := written.name.not_mem own.2.1
  simp only [statement, body, List.mem_cons, List.mem_append, List.not_mem_nil, or_false, not_or] at own ⊢
  exact ⟨own.1.1, name, written.before.absent sign, own.1.2.1, written.after.absent sign, value, flags,
    written.gap.absent sign, own.1.2.2.1⟩

theorem getLast?_statement (d : Assignment) : d.statement.getLast? = some ';' := by
  have ends : d.statement = '$' :: (d.name ++ (d.before ++ ':' :: (d.after ++ (d.value ++
      (d.flags.flatMap FlagPart.text ++ d.gap))))) ++ [';'] := by simp [statement, body]
  rw [ends, List.getLast?_concat]

theorem single_line (written : d.IsWritten) : '\n' ∉ d.line := by
  refine List.not_mem_append (not_mem_statement written (by decide)) ?_
  cases comment : d.comment with
  | none => simp [trailer, comment]
  | some k =>
    obtain ⟨gap, single⟩ := written.comment k (by rw [comment]; rfl)
    simp [trailer, comment, gap.single, single]

theorem variableHead?_line (written : d.IsWritten) : variableHead? d.line = some d.name := by
  let rest := d.before ++ ':' :: (d.after ++ (d.body ++ d.trailer))
  have apart : ∀ c ∈ rest.head?, Text.isNameChar c = false := by
    cases before : d.before with
    | nil =>
      simp only [rest, before]
      rintro c ⟨⟩
      decide
    | cons c r =>
      have blank := written.before.blank
      rw [before] at blank
      simp only [rest, before]
      rintro c ⟨⟩
      exact Text.isNameChar_of_isBlank (Bool.and_eq_true_iff.mp blank).1
  have line : d.line = '$' :: (d.name ++ rest) := by simp [Assignment.line, statement, rest]
  have enters : Text.after? ['$'] (Text.trimLeft d.line) = some (d.name ++ rest) := by
    rw [line]
    rfl
  have colon : Text.startsWith [':'] (Text.trimLeft rest) = true := by
    simp only [rest]
    rw [Text.trimLeft_append written.before.blank]
    rfl
  rw [variableHead?, enters, Option.bind_some, readName?_append written.name apart]
  exact if_pos colon

/-- What is told by a block whose code is the line. -/
theorem ofBlock_line (written : d.IsWritten) {b : Block} (code : b.code = String.ofList d.line) :
    (Context.ofBlock b).kind = .var ∧ (Context.ofBlock b).name = String.ofList d.name ∧
      (Context.ofBlock b).value = some (String.ofList (variableValue d.line).1) ∧
      (Context.ofBlock b).scope = some (String.ofList (variableValue d.line).2) := by
  have text : b.code ≠ "" := by
    rw [code]
    exact fun void => absurd (String.ofList_injective (void.trans String.ofList_nil.symm)) (List.cons_ne_nil _ _)
  have first : b.codeLine.toList = d.line := by
    rw [Block.codeLine, code, String.toList_ofList, String.toList_ofList,
      Text.lines_of_single (single_line written)]
    rfl
  have callable : callableHead? d.line = none := rfl
  have placeholder : placeholderHead? d.line = none := rfl
  unfold Context.ofBlock
  rw [if_neg text, first]
  simp only [callable, placeholder, variableHead?_line written, code, String.toList_ofList, and_self]

end Assignment

end SheetDoc
