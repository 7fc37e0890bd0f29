import SheetDoc.Proofs.Code.Layout

namespace SheetDoc

open Text (isBlank squeeze spaced)

/-- A line that is a comment to its end, without the end of another. -/
def isNote (l : List Char) : Bool :=
  Text.startsWith ['/', '/'] (Text.trimLeft l) && !Text.occurs ['*', '/'] l

variable {c : Char} {l r s t u : List Char}

theorem dropComments_nil : dropComments [] = [] := by
  rw [dropComments]

theorem dropComments_line (t : List Char) :
    dropComments ('/' :: '/' :: t) = dropComments (t.dropWhile (· != '\n')) := by
  rw [dropComments]

theorem dropComments_closed (closed : afterBlockComment? t = some r) :
    dropComments ('/' :: '*' :: t) = dropComments r := by
  rw [dropComments]
  split
  · rename_i r' closed'
    rw [closed] at closed'
    cases closed'
    rfl
  · rename_i none
    rw [closed] at none
    cases none

theorem dropComments_open (unclosed : afterBlockComment? t = none) :
    dropComments ('/' :: '*' :: t) = '/' :: dropComments ('*' :: t) := by
  rw [dropComments]
  split
  · rename_i r' closed'
    rw [unclosed] at closed'
    cases closed'
  · rfl

/-- A character that opens no comment stays. -/
theorem dropComments_cons (plain : c = '/' → ∀ d ∈ r.head?, d ≠ '*' ∧ d ≠ '/') :
    dropComments (c :: r) = c :: dropComments r := by
  rw [dropComments]
  · rintro t rfl rfl
    exact (plain rfl _ rfl).1 rfl
  · rintro t rfl rfl
    exact (plain rfl _ rfl).2 rfl

theorem afterBlockComment?_eq_none (unclosed : Text.occurs ['*', '/'] s = false) :
    afterBlockComment? s = none := by
  fun_induction afterBlockComment? s with
  | case1 r => simp [Text.occurs, Text.startsWith] at unclosed
  | case2 c r _ ih => exact ih (Bool.or_eq_false_iff.mp unclosed).2
  | case3 => rfl

/-- The text goes on below a line: a line end begins it, if there is any text. -/
def BeginsBelow (u : List Char) : Prop := ∀ c ∈ u.head?, c = '\n'

theorem beginsBelow_below (ls : List (List Char)) : BeginsBelow (Text.below ls) := by
  cases ls with
  | nil => rintro _ ⟨⟩
  | cons l ls =>
    rintro _ ⟨⟩
    rfl

theorem dropWhile_append_of_below (below : BeginsBelow u) (t : List Char) :
    (t ++ u).dropWhile (· != '\n') = t.dropWhile (· != '\n') ++ u := by
  induction t with
  | nil =>
    cases u with
    | nil => rfl
    | cons c u => exact List.dropWhile_cons_of_neg (by simp [below c rfl])
  | cons c t ih =>
    rw [List.cons_append, List.dropWhile_cons, List.dropWhile_cons, ih]
    split_ifs <;> rfl

theorem dropWhile_of_single (single : '\n' ∉ t) (below : BeginsBelow u) :
    (t ++ u).dropWhile (· != '\n') = u := by
  have void : t.dropWhile (· != '\n') = [] :=
    List.dropWhile_eq_nil_iff.mpr fun c inside => bne_iff_ne.mpr fun same => single (same ▸ inside)
  rw [dropWhile_append_of_below below, void, List.nil_append]

/-- A block comment ends on the lines above or on those below. -/
theorem afterBlockComment?_append (below : BeginsBelow u) (t : List Char) :
    afterBlockComment? (t ++ u) = ((afterBlockComment? t).map (· ++ u)).or (afterBlockComment? u) := by
  fun_induction afterBlockComment? t with
  | case1 r => rfl
  | case2 c r other ih =>
    rw [List.cons_append, afterBlockComment?.eq_2, ih]
    rintro r' rfl same
    cases r with
    | nil =>
      have first := below '/' (by rw [← List.nil_append u, same]; rfl)
      revert first
      decide
    | cons d r =>
      cases same
      exact other r rfl rfl
  | case3 => rfl

theorem dropComments_append_of_allBlank {b : List Char} (blank : Text.allBlank b = true) (s : List Char) :
    dropComments (b ++ s) = b ++ dropComments s := by
  induction b with
  | nil => rfl
  | cons c b ih =>
    obtain ⟨here, later⟩ := Bool.and_eq_true_iff.mp (show (isBlank c && Text.allBlank b) = true from blank)
    have plain : c = '/' → ∀ d ∈ (b ++ s).head?, d ≠ '*' ∧ d ≠ '/' := fun slash =>
      absurd slash (ne_of_isBlank (by decide) here)
    rw [List.cons_append, dropComments_cons plain, ih later, List.cons_append]

/-- Of a comment to the end of its line blanks are left. -/
theorem dropComments_note (note : isNote l = true) (single : '\n' ∉ l) (below : BeginsBelow u) :
    ∃ b, Text.allBlank b = true ∧ dropComments (l ++ u) = b ++ dropComments u := by
  obtain ⟨slashes, _⟩ := Bool.and_eq_true_iff.mp note
  obtain ⟨t, text⟩ := List.isPrefixOf_iff_prefix.mp slashes
  have blank : Text.allBlank (l.takeWhile isBlank) = true :=
    List.all_eq_true.mpr fun c inside => List.mem_takeWhile_imp inside
  have parts : l = l.takeWhile isBlank ++ '/' :: '/' :: t :=
    (List.takeWhile_append_dropWhile.symm).trans (congrArg (l.takeWhile isBlank ++ ·) text.symm)
  have single' : '\n' ∉ t := fun inside => single <| parts ▸ List.mem_append_right _
    (List.mem_cons_of_mem _ (List.mem_cons_of_mem _ inside))
  have rest := dropWhile_of_single single' below
  refine ⟨_, blank, ?_⟩
  calc dropComments (l ++ u)
    _ = dropComments (l.takeWhile isBlank ++ ('/' :: '/' :: t ++ u)) := by rw [← List.append_assoc, ← parts]
    _ = l.takeWhile isBlank ++ dropComments u := by
      rw [dropComments_append_of_allBlank blank, List.cons_append, List.cons_append, dropComments_line, rest]

/-- A note by itself leaves only blanks. -/
theorem squeeze_dropComments_single (note : isNote l = true) (single : '\n' ∉ l) (below : BeginsBelow u) :
    squeeze (dropComments ('\n' :: (l ++ u))) = squeeze (dropComments u) := by
  obtain ⟨b, blank, dropped⟩ := dropComments_note note single below
  have text : squeeze (dropComments ('\n' :: (l ++ u))) = spaced (squeeze (dropComments u)) := by
    rw [dropComments_cons (by rintro ⟨⟩), dropped, Text.squeeze_cons_blank (by decide),
      Text.squeeze_append_of_allBlank blank]
    split_ifs
    · rfl
    · exact Text.spaced_spaced _
  rw [text]
  cases u with
  | nil =>
    rw [dropComments_nil]
    rfl
  | cons c v =>
    -- the line end below makes up for the one above the note
    obtain rfl : c = '\n' := below c rfl
    rw [dropComments_cons (by rintro ⟨⟩), Text.squeeze_cons_blank (by decide), Text.spaced_spaced]

/-- A note between lines leaves only blanks there. -/
theorem squeeze_dropComments_note (note : isNote l = true) (single : '\n' ∉ l) (below : BeginsBelow u)
    (a : List Char) :
    squeeze (dropComments (a ++ '\n' :: (l ++ u))) = squeeze (dropComments (a ++ u)) := by
  have below' : BeginsBelow ('\n' :: (l ++ u)) := by
    rintro _ ⟨⟩
    rfl
  have later : afterBlockComment? ('\n' :: (l ++ u)) = afterBlockComment? u := by
    have unclosed : afterBlockComment? l = none :=
      afterBlockComment?_eq_none (by simpa using (Bool.and_eq_true_iff.mp note).2)
    rw [afterBlockComment?.eq_2 _ _ (by rintro _ ⟨⟩), afterBlockComment?_append below, unclosed]
    rfl
  fun_induction dropComments a with
  | case1 => exact squeeze_dropComments_single note single below
  | case2 t r closed ih =>
    have inside : ∀ {v}, BeginsBelow v → afterBlockComment? (t ++ v) = some (r ++ v) := fun below => by
      rw [afterBlockComment?_append below, closed]
      rfl
    rw [List.cons_append, List.cons_append, dropComments_closed (inside below'), List.cons_append,
      List.cons_append, dropComments_closed (inside below), ih]
  | case3 t unclosed ih =>
    -- the comment goes on over the note, and closes below it or not at all
    have beyond : ∀ {v}, BeginsBelow v → afterBlockComment? (t ++ v) = afterBlockComment? v := fun below => by
      rw [afterBlockComment?_append below, unclosed]
      rfl
    have both := (beyond below').trans later
    rw [List.cons_append, List.cons_append, List.cons_append, List.cons_append]
    cases closed : afterBlockComment? u with
    | some rest =>
      rw [dropComments_closed (both.trans closed), dropComments_closed ((beyond below).trans closed)]
    | none =>
      rw [dropComments_open (both.trans closed), dropComments_open ((beyond below).trans closed),
        Text.squeeze_cons_text (by decide), Text.squeeze_cons_text (by decide)]
      exact congrArg ('/' :: ·) ih
  | case4 t ih =>
    rw [List.cons_append, List.cons_append, dropComments_line, dropWhile_append_of_below below',
      List.cons_append, List.cons_append, dropComments_line, dropWhile_append_of_below below, ih]
  | case5 c r star slash ih =>
    have plain : ∀ {v}, BeginsBelow v → c = '/' → ∀ d ∈ (r ++ v).head?, d ≠ '*' ∧ d ≠ '/' := by
      rintro v below rfl d first
      cases r with
      | nil =>
        rw [below d first]
        decide
      | cons e r =>
        cases first
        exact ⟨fun same => star r rfl (by rw [same]), fun same => slash r rfl (by rw [same])⟩
    rw [List.cons_append, List.cons_append, dropComments_cons (plain below'), dropComments_cons (plain below),
      Text.squeeze, Text.squeeze, ih]

/-- Code that differs in notes below its first line is the same without comments, but for its blanks. -/
theorem squeeze_dropComments_filter (first : List Char) {ls : List (List Char)}
    (single : ∀ l ∈ ls, '\n' ∉ l) :
    squeeze (dropComments (Text.unlines (first :: ls))) =
      squeeze (dropComments (Text.unlines (first :: ls.filter (!isNote ·)))) := by
  rw [Text.unlines_cons_below, Text.unlines_cons_below]
  induction ls generalizing first with
  | nil => rfl
  | cons l ls ih =>
    obtain ⟨here, later⟩ := List.forall_mem_cons.mp single
    have down : Text.below (l :: ls) = '\n' :: (l ++ Text.below ls) := rfl
    cases note : isNote l with
    | true =>
      rw [List.filter_cons_of_neg (by simp [note]), down,
        squeeze_dropComments_note note here (beginsBelow_below ls), ih first later]
    | false =>
      have down' : Text.below (l :: ls.filter (!isNote ·)) =
          '\n' :: (l ++ Text.below (ls.filter (!isNote ·))) := rfl
      have inner := ih (first ++ '\n' :: l) later
      rw [List.append_assoc, List.append_assoc] at inner
      rw [List.filter_cons_of_pos (by simp [note]), down, down']
      exact inner

theorem startsWith_append_cons {w : List Char} (absent : c ∉ w) (s t : List Char) :
    Text.startsWith w (s ++ c :: t) = Text.startsWith w s := by
  induction w generalizing s with
  | nil => rfl
  | cons d w ih =>
    obtain ⟨here, later⟩ := not_or.mp (List.mem_cons.not.mp absent)
    cases s with
    | nil => simp [Text.startsWith, List.isPrefixOf, Ne.symm here]
    | cons e s =>
      have rest : w.isPrefixOf (s ++ c :: t) = w.isPrefixOf s := ih later s
      simp only [Text.startsWith, List.cons_append, List.isPrefixOf, rest]

theorem occurs_append_cons {w : List Char} (some : w ≠ []) (absent : c ∉ w) (s t : List Char) :
    Text.occurs w (s ++ c :: t) = (Text.occurs w s || Text.occurs w t) := by
  induction s with
  | nil =>
    obtain ⟨d, w, rfl⟩ := List.exists_cons_of_ne_nil some
    have here : Text.startsWith (d :: w) (c :: t) = false := startsWith_append_cons absent [] t
    simp only [List.nil_append, Text.occurs, here]
  | cons e s ih =>
    have here := startsWith_append_cons absent (e :: s) t
    rw [List.cons_append] at here ⊢
    rw [Text.occurs, Text.occurs, here, ih, Bool.or_assoc]

/-- What has no line end in it occurs in one of the lines. -/
theorem occurs_unlines {w : List Char} (some : w ≠ []) (single : '\n' ∉ w) (ls : List (List Char)) :
    Text.occurs w (Text.unlines ls) = ls.any (Text.occurs w) := by
  induction ls with
  | nil => rfl
  | cons l ls ih =>
    cases ls with
    | nil => simp [Text.unlines]
    | cons l' ls =>
      rw [Text.unlines_cons l (List.cons_ne_nil l' ls), occurs_append_cons some single, ih]
      rfl

/-- The line ends with an error directive whose message may stand below. -/
def LeavesOpen (l : List Char) : Prop := '@' :: errorWord <:+ Text.trimRight l

instance (l : List Char) : Decidable (LeavesOpen l) :=
  inferInstanceAs (Decidable ('@' :: errorWord <:+ Text.trimRight l))

theorem after?_append_cons {w : List Char} (absent : c ∉ w) (s t : List Char) :
    Text.after? w (s ++ c :: t) = (Text.after? w s).map (· ++ c :: t) := by
  induction w generalizing s with
  | nil => rfl
  | cons d w ih =>
    obtain ⟨here, later⟩ := not_or.mp (List.mem_cons.not.mp absent)
    cases s with
    | nil => exact if_neg (Ne.symm here)
    | cons e s =>
      rw [List.cons_append, Text.after?, Text.after?]
      split_ifs
      · exact ih later s
      · rfl

theorem takeWhile_append_cons {p : Char → Bool} (stop : p c = false) (s t : List Char) :
    (s ++ c :: t).takeWhile p = s.takeWhile p := by
  rw [List.takeWhile_append]
  split_ifs with whole
  · simp [(List.takeWhile_sublist _).eq_of_length whole, stop]
  · rfl

theorem dropWhile_append_cons {p : Char → Bool} (stop : p c = false) (s t : List Char) :
    (s ++ c :: t).dropWhile p = s.dropWhile p ++ c :: t := by
  rw [List.dropWhile_append]
  split_ifs with whole
  · rw [List.isEmpty_iff.mp whole, List.dropWhile_cons_of_neg (by simp [stop])]
    rfl
  · rfl

/-- Text goes on behind a character that is not blank, and behind text. -/
theorem trimLeft_append_cons (text : isBlank c = true → Text.allBlank s = false) (t : List Char) :
    Text.trimLeft (s ++ c :: t) = Text.trimLeft s ++ c :: t := by
  cases blank : isBlank c with
  | false => exact dropWhile_append_cons blank s t
  | true =>
    have left : (s.dropWhile isBlank).isEmpty = false := by
      refine Bool.eq_false_iff.mpr fun void => ?_
      have all := List.all_eq_true.mpr (List.dropWhile_eq_nil_iff.mp (List.isEmpty_iff.mp void))
      exact absurd (text blank) (by rw [Text.allBlank, all]; decide)
    rw [Text.trimLeft, List.dropWhile_append, left]
    rfl

theorem afterBlanks?_append_cons (text : isBlank c = true → Text.allBlank s = false) (t : List Char) :
    afterBlanks? (s ++ c :: t) = (afterBlanks? s).map (· ++ c :: t) := by
  cases s with
  | nil =>
    have other : isBlank c = false := Bool.eq_false_iff.mpr fun blank => nomatch text blank
    simp [afterBlanks?, other]
  | cons d r =>
    rw [List.cons_append, afterBlanks?, afterBlanks?]
    split_ifs with blank
    · refine congrArg some (trimLeft_append_cons (fun here => ?_) t)
      simpa [Text.allBlank, blank] using text here
    · rfl

/-- What follows a directive goes on behind a character, unless that is one of the blanks between. -/
theorem afterDirective?_append_cons {w : List Char} (solid : Text.trimRight ('@' :: w) = '@' :: w)
    (absent : c ∉ '@' :: w) (closed : isBlank c = true → ¬ '@' :: w <:+ Text.trimRight s) (t : List Char) :
    afterDirective? w (s ++ c :: t) = (afterDirective? w s).map (· ++ c :: t) := by
  rw [afterDirective?, afterDirective?, after?_append_cons absent]
  cases found : Text.after? ('@' :: w) s with
  | none => rfl
  | some rest =>
    rw [Text.after?_eq_some_iff] at found
    refine afterBlanks?_append_cons (fun here => Bool.eq_false_iff.mpr fun blank => closed here ?_) t
    have whole : Text.trimRight s = '@' :: w := by rw [found, Text.trimRight_append _ blank, solid]
    exact whole ▸ List.suffix_rfl

theorem quotedText?_append_line (s t : List Char) :
    quotedText? (s ++ '\n' :: t) = (quotedText? s).map fun (inner, rest) => (inner, rest ++ '\n' :: t) := by
  cases s with
  | nil => rfl
  | cons q r =>
    have inner : (r ++ '\n' :: t).takeWhile (fun c => c != q && c != '\n') =
        r.takeWhile fun c => c != q && c != '\n' := takeWhile_append_cons (by simp) r t
    have shorter : (r.takeWhile fun c => c != q && c != '\n').length ≤ r.length :=
      (List.takeWhile_sublist _).length_le
    rw [List.cons_append]
    simp only [quotedText?, inner, List.drop_append_of_le_length shorter]
    split_ifs with quote
    · cases r.drop (r.takeWhile fun c => c != q && c != '\n').length with
      | nil =>
        have other : '\n' ≠ q := by
          rintro rfl
          revert quote
          decide
        exact if_neg other
      | cons c rest =>
        simp only [List.cons_append]
        split_ifs <;> rfl
    · rfl

theorem errorMessage?_append_line (closed : ¬LeavesOpen s) (t : List Char) :
    errorMessage? (s ++ '\n' :: t) = errorMessage? s := by
  rw [errorMessage?, errorMessage?, afterDirective?_append_cons rfl (by decide) (fun _ => closed)]
  cases afterDirective? errorWord s with
  | none => rfl
  | some body =>
    have bare : (body ++ '\n' :: t).takeWhile (fun c => c != ';' && c != '\n') =
        body.takeWhile fun c => c != ';' && c != '\n' := takeWhile_append_cons rfl body t
    simp only [Option.map_some, quotedText?_append_line, bare]
    cases quotedText? body <;> rfl

theorem afterError_append_line (some : s ≠ []) (closed : ¬LeavesOpen s) (t : List Char) :
    afterError (s ++ '\n' :: t) = afterError s ++ '\n' :: t := by
  rw [afterError, afterError, afterDirective?_append_cons rfl (by decide) (fun _ => closed)]
  cases afterDirective? errorWord s with
  | none => exact List.drop_append_of_le_length (List.length_pos_iff.mpr some)
  | some body =>
    have bare : (body ++ '\n' :: t).dropWhile (fun c => c != ';' && c != '\n') =
        (body.dropWhile fun c => c != ';' && c != '\n') ++ '\n' :: t := dropWhile_append_cons rfl body t
    simp only [Option.map_some, quotedText?_append_line, bare]
    cases quotedText? body <;> rfl

theorem afterDirective?_suffix {word rest : List Char} (found : afterDirective? word s = some rest) :
    rest <:+ s := by
  obtain ⟨blanks, at_word, at_blank⟩ := Option.bind_eq_some_iff.mp found
  rw [Text.after?_eq_some_iff] at at_word
  refine List.IsSuffix.trans ?_ (at_word ▸ List.suffix_append _ blanks)
  cases blanks with
  | nil => cases at_blank
  | cons c r =>
    rw [afterBlanks?] at at_blank
    split_ifs at at_blank
    cases at_blank
    exact (Text.trimLeft_suffix r).trans (List.suffix_cons c r)

theorem quotedText?_suffix {inner rest : List Char} (found : quotedText? s = some (inner, rest)) :
    rest <:+ s := by
  cases s with
  | nil => cases found
  | cons q r =>
    simp only [quotedText?] at found
    split at found
    · split at found
      · rename_i c tail same
        split at found
        · cases found
          have behind : c :: rest <:+ r := same ▸ List.drop_suffix _ r
          exact ((List.suffix_cons c rest).trans behind).trans (List.suffix_cons q r)
        · cases found
      · cases found
    · cases found

theorem afterError_suffix (s : List Char) : afterError s <:+ s := by
  rw [afterError]
  split
  · exact List.drop_suffix 1 s
  · rename_i body found
    have later := afterDirective?_suffix found
    split
    · rename_i inner rest quoted
      exact (quotedText?_suffix quoted).trans later
    · exact (List.dropWhile_suffix _).trans later

/-- A text ends with what the end of it ends with, blanks aside. -/
theorem suffix_trimRight_of_suffix {w : List Char} (some : w ≠ []) (ends : s <:+ l)
    (leaves : w <:+ Text.trimRight s) : w <:+ Text.trimRight l := by
  obtain ⟨front, rfl⟩ := ends
  have text : Text.allBlank s = false := by
    refine Bool.eq_false_iff.mpr fun blank => some ?_
    rw [Text.trimRight_eq_nil_iff.mpr blank] at leaves
    exact List.suffix_nil.mp leaves
  rw [Text.trimRight_append_of_text front text]
  exact leaves.trans (List.suffix_append _ _)

/-- The errors of a line stand in front of those below it, unless it leaves one open. -/
theorem raisedMessages_append_line (closed : ¬LeavesOpen s) (t : List Char) :
    raisedMessages (s ++ '\n' :: t) = raisedMessages s ++ raisedMessages t := by
  induction length : s.length using Nat.strong_induction_on generalizing s with
  | _ n ih =>
    cases s with
    | nil =>
      have none : errorMessage? ('\n' :: t) = none := rfl
      have after : afterError ('\n' :: t) = t := rfl
      rw [List.nil_append, raisedMessages.eq_1, raisedMessages.eq_2]
      simp only [none, after]
      rfl
    | cons c r =>
      have message : errorMessage? (c :: (r ++ '\n' :: t)) = errorMessage? (c :: r) :=
        errorMessage?_append_line closed t
      have after : afterError (c :: (r ++ '\n' :: t)) = afterError (c :: r) ++ '\n' :: t :=
        afterError_append_line (List.cons_ne_nil c r) closed t
      have shorter : (afterError (c :: r)).length < n := length ▸ afterError_length_lt c r
      have closed' : ¬LeavesOpen (afterError (c :: r)) := fun leaves =>
        closed (suffix_trimRight_of_suffix (List.cons_ne_nil _ _) (afterError_suffix _) leaves)
      rw [List.cons_append, raisedMessages, raisedMessages, message, after, ih _ shorter closed' rfl]
      cases errorMessage? (c :: r) with
      | none => rfl
      | some m =>
        simp only
        split_ifs <;> rfl

/-- Where no line leaves an error open, each raises its own. -/
theorem raisedMessages_unlines {ls : List (List Char)} (closed : ∀ l ∈ ls, ¬LeavesOpen l) :
    raisedMessages (Text.unlines ls) = ls.flatMap raisedMessages := by
  induction ls with
  | nil =>
    rw [List.flatMap_nil, Text.unlines]
    exact raisedMessages.eq_1
  | cons l ls ih =>
    obtain ⟨here, later⟩ := List.forall_mem_cons.mp closed
    cases ls with
    | nil => simp [Text.unlines]
    | cons l' ls =>
      rw [Text.unlines_cons l (List.cons_ne_nil l' ls), raisedMessages_append_line here, ih later]
      rfl

end SheetDoc
