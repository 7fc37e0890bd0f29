import SheetDoc.Proofs.Record.Fields

namespace SheetDoc

/-- What is seen of the lines of a record and of its unknown words. All else is seen as it is. -/
structure Veil where
  codeLine : Option Int → Option Int := id
  commentLine : Int → Int := id
  unknown : Assoc String (List String) → Assoc String (List String) := id

namespace Veil

variable (v : Veil)

/-- A context as it is seen through the veil. -/
def context (c : Context) : Context :=
  { c with lineStart := v.codeLine c.lineStart, lineEnd := v.codeLine c.lineEnd }

/-- A record as it is seen through the veil. -/
def hide (r : Record) : Record :=
  { r with
    context := v.context r.context, commentLine := v.commentLine r.commentLine
    unknown := v.unknown r.unknown }

/-- A step that neither looks behind the veil nor changes what is there. -/
def Blind {ε : Type} (step : Record → Except ε Record) : Prop :=
  ∀ r, step (v.hide r) = (step r).map v.hide

variable {v}

section

variable {ε : Type} {step later : Record → Except ε Record}

theorem blind_ok {f : Record → Record} (same : ∀ r, f (v.hide r) = v.hide (f r)) :
    v.Blind fun r => (.ok (f r) : Except ε Record) := fun r => congrArg Except.ok (same r)

theorem Blind.bind (first : v.Blind step) (second : v.Blind later) :
    v.Blind fun r => step r >>= later := by
  intro r
  change step (v.hide r) >>= later = (step r >>= later).map v.hide
  rw [first r]
  cases step r with
  | error fault => rfl
  | ok m => exact second m

theorem Blind.mapError {ε' : Type} (blind : v.Blind step) (f : ε → ε') :
    v.Blind fun r => (step r).mapError f := by
  intro r
  change (step (v.hide r)).mapError f = ((step r).mapError f).map v.hide
  rw [blind r]
  cases step r <;> rfl

theorem blind_foldlM {α : Type} {f : Record → α → Except ε Record} {as : List α}
    (blind : ∀ a ∈ as, v.Blind fun r => f r a) : v.Blind fun r => as.foldlM f r := by
  induction as with
  | nil => exact fun _ => rfl
  | cons a rest ih =>
    obtain ⟨first, later⟩ := List.forall_mem_cons.mp blind
    intro r
    simp only [List.foldlM_cons]
    exact first.bind (ih later) r

/-- Steps that agree with each other but for the veil do so along a list. -/
theorem mapM_hide (same : ∀ r, later (v.hide r) = (step r).map v.hide) (rs : List Record) :
    (rs.map v.hide).mapM later = (rs.mapM step).map (List.map v.hide) := by
  induction rs with
  | nil => rfl
  | cons r rest ih =>
    simp only [List.map_cons, List.mapM_cons, same, ih]
    cases step r with
    | error fault => rfl
    | ok m => cases rest.mapM step <;> rfl

/-- A step that goes by what the record is asked first. -/
theorem blind_asking {α : Type} {ask : Record → Except ε α} {step : α → Record → Except ε Record}
    (same : ∀ r, ask (v.hide r) = ask r) (blind : ∀ a, v.Blind (step a)) :
    v.Blind fun r => ask r >>= fun a => step a r := by
  intro r
  change ask (v.hide r) >>= (fun a => step a (v.hide r)) = (ask r >>= fun a => step a r).map v.hide
  rw [same]
  cases ask r with
  | error fault => rfl
  | ok a => exact blind a r

end

variable (v) (r : Record)

theorem strayValue?_hide (f : Field) : (v.hide r).strayValue? f = r.strayValue? f := rfl

theorem tail_hide (f : Field) : (v.hide r).tail f = r.tail f := rfl

theorem flaw_hide (f : Field) (part : String) : (v.hide r).flaw f part = r.flaw f part := rfl

theorem holdsList_hide (f : Field) : (v.hide r).holdsList f = r.holdsList f := rfl

theorem readPath_hide : (v.hide r).readPath = r.readPath := rfl

theorem marks_hide (tag : String) : (v.hide r).marks tag = r.marks tag := rfl

theorem sets_hide (tag : String) : (v.hide r).sets tag = r.sets tag := rfl

theorem contextFor_hide (part : String) :
    (v.hide r).contextFor part = (r.contextFor part).map v.context := by
  unfold Record.contextFor
  rw [strayValue?_hide]
  split <;> rfl

theorem readName_hide : (v.hide r).readName = r.readName := by
  unfold Record.readName
  rw [contextFor_hide]
  cases r.contextFor "name" <;> rfl

theorem readKind_hide : (v.hide r).readKind = r.readKind := by
  unfold Record.readKind
  rw [contextFor_hide]
  cases r.contextFor "type" <;> rfl

variable {v r}

theorem blind_adding (f : Field) (item : Item) (own : Record → Record)
    (same : ∀ r, own (v.hide r) = v.hide (own r)) : v.Blind (Record.adding f item own) := by
  intro r
  unfold Record.adding
  rw [holdsList_hide, tail_hide]
  cases r.holdsList f with
  | error fault => rfl
  | ok =>
    cases r.tail f with
    | nil => exact congrArg Except.ok (same r)
    | cons other others => rfl

section Assign

open Record

variable {f : Field} {α : Type}

theorem setList_hide {own? : Item → Option α} {put : List α → Record → Record}
    (same : ∀ l r, put l (v.hide r) = v.hide (put l r)) (items : List Item) (r : Record) :
    setList f own? put items (v.hide r) = v.hide (setList f own? put items r) := by
  unfold setList
  split <;> rw [same] <;> rfl

theorem setTexts_hide {put : List String → Record → Record}
    (same : ∀ l r, put l (v.hide r) = v.hide (put l r)) (value : Value) (r : Record) :
    setTexts f put value (v.hide r) = v.hide (setTexts f put value r) := by
  unfold setTexts
  split
  · exact setList_hide same _ r
  · rw [same]
    rfl
  · rw [same]
    rfl

theorem setEntries_hide {own? : Item → Option α} {put : List α → Record → Record}
    (same : ∀ l r, put l (v.hide r) = v.hide (put l r)) (value : Value) (r : Record) :
    setEntries f own? put value (v.hide r) = v.hide (setEntries f own? put value r) := by
  unfold setEntries
  split
  · exact setList_hide same _ r
  · rw [same]
    rfl

theorem setOption_hide {put : Option String → Record → Record}
    (same : ∀ s r, put s (v.hide r) = v.hide (put s r)) (value : Value) (r : Record) :
    setOption f put value (v.hide r) = v.hide (setOption f put value r) := by
  unfold setOption
  split <;> rw [same] <;> rfl

theorem setReturns_hide (value : Value) (r : Record) :
    ({ v.hide r with returns := none } : Record).setOwn f returnsPut? value =
      v.hide (({ r with returns := none } : Record).setOwn f returnsPut? value) := by
  unfold setOwn
  cases found : returnsPut? value with
  | none => rfl
  | some put =>
    unfold returnsPut? at found
    split at found <;> cases found <;> rfl

theorem blind_assign (merges : f.merges = true) (value : Value) :
    v.Blind fun r => r.assign f value := by
  intro r
  cases f with
  | group | author | todo | type | ignore | throw | aliasOf | tags =>
    exact congrArg Except.ok (setTexts_hide (by intros; rfl) value r)
  | since | link | see | parameter | property | sample | aliased | require | usedBy =>
    exact congrArg Except.ok (setEntries_hide (by intros; rfl) value r)
  | groupDescription | access | deprecated | content | output =>
    exact congrArg Except.ok (setOption_hide (by intros; rfl) value r)
  | returns => exact congrArg Except.ok (setReturns_hide value r)
  | context | file | description | commentLine | uid | unknown | extra | other => cases merges

theorem read_hide (merges : f.merges = true) (r : Record) : (v.hide r).read f = r.read f := by
  cases f <;> first | rfl | cases merges

theorem blind_fill (merges : f.merges = true) (value : Value) :
    v.Blind fun r => r.fill f value := by
  refine blind_asking (read_hide merges) fun current => ?_
  intro r
  cases current with
  | list items =>
    cases value.items? with
    | some added => exact blind_assign merges _ r
    | none => rfl
  | data held =>
    cases held with
    | scalar held =>
      cases held with
      | null => exact blind_assign merges value r
      | _ => rfl
    | list | map => rfl
  | returns | context | file | ability => rfl

/-- What is taken over from a record does not go by what is behind its veil either. -/
theorem inherit_hide {w : Veil} (merges : f.merges = true) (r source : Record) :
    (v.hide r).inherit f (w.hide source) = (r.inherit f source).map v.hide := by
  unfold inherit
  rw [read_hide merges]
  cases source.read f with
  | error fault => rfl
  | ok value =>
    by_cases void : value.isVoid = true
    · simp only [bind, Except.bind, void, if_true]
      rfl
    · simp only [bind, Except.bind, void]
      exact blind_fill merges value r

end Assign

end Veil

end SheetDoc
