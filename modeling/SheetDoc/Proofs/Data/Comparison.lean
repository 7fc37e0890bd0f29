import Mathlib.Data.List.Perm.Subperm
import SheetDoc.Proofs.Data.Levels
import SheetDoc.Record.ToData

namespace SheetDoc

namespace Assoc

variable {κ α β : Type} [BEq κ]

/-- Two mappings have as many entries, and what stands under a key of the first agrees with what the
second has there. -/
def Agrees (agree : α → β → Prop) (m : Assoc κ α) (n : Assoc κ β) : Prop :=
  m.length = n.length ∧ ∀ key v, m.get? key = some v → ∃ w, n.get? key = some w ∧ agree v w

theorem get?_map (f : α → β) (m : Assoc κ α) (key : κ) :
    get? (m.map fun e => (e.1, f e.2)) key = (get? m key).map f := by
  induction m with
  | nil => rfl
  | cons e r ih =>
    rw [List.map_cons, get?, get?, ih]
    split <;> rfl

/-- Values that are told apart by what they are written as agree when that does. -/
theorem Agrees.of_map {agree : β → β → Prop} {f : α → β} {m n : Assoc κ α}
    (agrees : Agrees agree (m.map fun e => (e.1, f e.2)) (n.map fun e => (e.1, f e.2)))
    (apart : ∀ a b, agree (f a) (f b) → a = b) : Agrees (· = ·) m n := by
  refine ⟨by simpa using agrees.1, fun key v found => ?_⟩
  obtain ⟨w, there, agreed⟩ := agrees.2 key (f v) (by rw [get?_map, found]; rfl)
  rw [get?_map] at there
  obtain ⟨v', found', rfl⟩ := Option.map_eq_some_iff.mp there
  exact ⟨v', found', apart v v' agreed⟩

variable [LawfulBEq κ]

/-- Where no key is repeated, what is left out under a key is left out for good. -/
theorem get?_filter_eq_some_iff {m : Assoc κ α} (nodup : m.keys.Nodup) {p : κ × α → Bool} {key : κ} {v : α} :
    get? (m.filter p) key = some v ↔ get? m key = some v ∧ p (key, v) = true := by
  constructor
  · intro found
    obtain ⟨member, kept⟩ := List.mem_filter.mp (mem_of_get? found)
    exact ⟨get?_of_mem nodup member, kept⟩
  · rintro ⟨found, kept⟩
    exact get?_of_mem (nodup.sublist (List.filter_sublist.map _)) (List.mem_filter.mpr ⟨mem_of_get? found, kept⟩)

/-- Mappings that agree have the same keys. -/
theorem Agrees.exists_get? {agree : α → β → Prop} {m : Assoc κ α} {n : Assoc κ β} (agrees : Agrees agree m n)
    (nodup : m.keys.Nodup) {key : κ} {w : β} (found : n.get? key = some w) : ∃ v, m.get? key = some v := by
  have inside : m.keys ⊆ n.keys := by
    intro k member
    obtain ⟨e, entry, rfl⟩ := List.mem_map.mp member
    obtain ⟨w, there, _⟩ := agrees.2 e.1 e.2 (get?_of_mem nodup entry)
    exact List.mem_map.mpr ⟨_, mem_of_get? there, rfl⟩
  have size : n.keys.length ≤ m.keys.length := by
    rw [keys, keys, List.length_map, List.length_map]
    exact Nat.le_of_eq agrees.1.symm
  have listed : key ∈ m.keys :=
    ((nodup.subperm inside).perm_of_length_le size).symm.subset
      (List.mem_map.mpr ⟨_, mem_of_get? found, rfl⟩)
  exact Option.ne_none_iff_exists'.mp fun none => get?_eq_none_iff.mp none listed

end Assoc

namespace Data

/-- Two values are alike on the outside, and their parts agree. -/
inductive Level (agree : Data → Data → Prop) : Data → Data → Prop
  | scalar {a b : Scalar} : (a == b) = true → Level agree (.scalar a) (.scalar b)
  | list {items others : List Data} :
    List.Forall₂ agree items others → Level agree (.list items) (.list others)
  | map {entries others : Assoc Scalar Data} :
    Assoc.Agrees agree entries others → Level agree (.map entries) (.map others)

/-- A comparison that goes into every part. -/
def Compares (agree : Data → Data → Prop) : Prop := ∀ v w, agree v w → Level agree v w

theorem sameItems_iff {items others : List Data} :
    sameItems items others = true ↔ List.Forall₂ (fun v w => v.same w = true) items others := by
  induction items generalizing others with
  | nil => cases others <;> simp [sameItems]
  | cons item rest ih => cases others <;> simp [sameItems, ih]

theorem sameEntries_iff {entries others : Assoc Scalar Data} :
    sameEntries entries others = true ↔
      ∀ e ∈ entries, ∃ w, others.get? e.1 = some w ∧ e.2.same w = true := by
  have single : ∀ e : Scalar × Data, sameEntry e others = true ↔
      ∃ w, others.get? e.1 = some w ∧ e.2.same w = true := by
    rintro ⟨key, value⟩
    rw [sameEntry]
    cases others.get? key <;> simp
  induction entries with
  | nil => simp [sameEntries]
  | cons e rest ih =>
    rw [sameEntries, Bool.and_eq_true, single, List.forall_mem_cons]
    exact and_congr_right fun _ => ih

/-- Equality goes into every part; the order of entries has no say in it. -/
theorem compares_same : Compares fun v w => v.same w = true := by
  intro v w same
  cases v <;> cases w <;> simp only [Data.same, Bool.false_eq_true, Bool.and_eq_true, beq_iff_eq] at same
  case scalar.scalar a b => exact .scalar same
  case list.list items others => exact .list (sameItems_iff.mp same)
  case map.map entries others =>
    refine .map ⟨same.1, fun key v found => ?_⟩
    obtain ⟨e, member, key', rfl⟩ := Assoc.exists_mem_of_get? found
    rw [← Assoc.get?_congr others key']
    exact sameEntries_iff.mp same.2 e member

/-- To be the same data goes into every part, order and all. -/
theorem compares_eq : Compares (· = ·) := by
  rintro v _ rfl
  cases v with
  | scalar a => exact .scalar BEq.rfl
  | list items => exact .list (List.forall₂_same.mpr fun _ _ => rfl)
  | map entries => exact .map ⟨rfl, fun _ v found => ⟨v, found, rfl⟩⟩

/-- What is written can be told from the data that it is written as. -/
def Faithful {α : Type} (agree : Data → Data → Prop) (write : α → Data) : Prop :=
  ∀ a b, agree (write a) (write b) → a = b

/-- Two values agree, or neither of them carries anything. -/
def AgreesOrVoid (agree : Data → Data → Prop) (v w : Data) : Prop :=
  v.isVoid = true ∧ w.isVoid = true ∨ agree v w

variable {α : Type} {agree : Data → Data → Prop} {write : α → Data}

theorem eq_nil_of_isVoid {entries : Assoc String Data} (void : (fields entries).isVoid = true) : entries = [] := by
  cases entries with
  | nil => rfl
  | cons e rest => cases void

theorem fields_injective : Function.Injective fields := by
  intro entries others same
  refine List.map_injective_iff.mpr (fun e e' same => ?_) (Data.map.inj same)
  obtain ⟨name, value⟩ := Prod.mk.inj same
  exact Prod.ext (Scalar.text.inj name) value

/-- At most one thing is written as nothing, so all can be told even where nothing is left out. -/
def AtMostOneVoid (write : α → Data) : Prop :=
  ∀ a b, (write a).isVoid = true → (write b).isVoid = true → a = b

theorem atMostOneVoid_of_solid (solid : ∀ a, (write a).isVoid = false) : AtMostOneVoid write :=
  fun a _ void => Bool.noConfusion (void.symm.trans (solid a))

theorem atMostOneVoid_option (solid : ∀ a, (write a).isVoid = false) :
    AtMostOneVoid fun o : Option α => (o.map write).getD .null := by
  intro o o' void void'
  cases o with
  | some a => cases void.symm.trans (solid a)
  | none =>
    cases o' with
    | some b => cases void'.symm.trans (solid b)
    | none => rfl

theorem atMostOneVoid_list : AtMostOneVoid fun l : List α => .list (l.map write) := by
  intro l l' void void'
  cases l with
  | cons a rest => cases void
  | nil =>
    cases l' with
    | cons b rest => cases void'
    | nil => rfl

theorem Faithful.eq_of_agreesOrVoid (faithful : Faithful agree write) (apart : AtMostOneVoid write) {a b : α}
    (agreed : AgreesOrVoid agree (write a) (write b)) : a = b :=
  agreed.elim (fun both => apart a b both.1 both.2) (faithful a b)

section

variable (compares : Compares agree)

include compares

theorem faithful_scalar {f : α → Scalar} (apart : ∀ a b, (f a == f b) = true → a = b) :
    Faithful agree fun a => .scalar (f a) := by
  intro a b agreed
  cases compares _ _ agreed with
  | scalar same => exact apart a b same

theorem faithful_text : Faithful agree text :=
  faithful_scalar compares fun a b same => by simpa [Scalar.beq_iff_key_eq, Scalar.key] using same

theorem faithful_int : Faithful agree int :=
  faithful_scalar compares fun a b same => by simpa [Scalar.beq_iff_key_eq, Scalar.key] using same

theorem faithful_bool : Faithful agree bool :=
  faithful_scalar compares fun a b same => by
    revert same
    cases a <;> cases b <;> decide

/-- What agrees with something that carries nothing carries nothing either. -/
theorem isVoid_congr {v w : Data} (agreed : agree v w) : v.isVoid = w.isVoid := by
  cases compares v w agreed with
  | @scalar a b same =>
    have keys : a.key = b.key := Scalar.beq_iff_key_eq.mp same
    have null : ∀ c : Scalar, Data.isVoid (.scalar c) = decide (c.key = .null) := by
      intro c
      cases c with
      | real x => cases x <;> simp only [isVoid, Scalar.key] <;> (try split) <;> simp
      | _ => simp [isVoid, Scalar.key]
    rw [null, null, keys]
  | list each => cases each <;> rfl
  | @map entries others agrees =>
    cases entries <;> cases others <;> first | rfl | cases agrees.1

/-- A value that may be missing can be told where none is written as nothing. -/
theorem Faithful.option (faithful : Faithful agree write) (solid : ∀ a, (write a).isVoid = false) :
    Faithful agree fun o : Option α => (o.map write).getD .null := by
  intro o o' agreed
  have void := isVoid_congr compares agreed
  cases o with
  | none =>
    cases o' with
    | none => rfl
    | some b => cases void.trans (solid b)
  | some a =>
    cases o' with
    | none => cases void.symm.trans (solid a)
    | some b => exact congrArg some (faithful a b agreed)

omit compares in
theorem optional_eq : optional = fun o => (o.map text).getD .null := by
  funext o
  cases o <;> rfl

theorem faithful_optional : Faithful agree optional := by
  rw [optional_eq]
  exact (faithful_text compares).option compares fun _ => rfl

theorem faithful_line : Faithful agree line := by
  have written : line = fun o => (o.map int).getD .null := by
    funext o
    cases o <;> rfl
  rw [written]
  exact (faithful_int compares).option compares fun _ => rfl

/-- Lists can be told when their items can. -/
theorem Faithful.list (faithful : Faithful agree write) :
    Faithful agree fun l : List α => .list (l.map write) := by
  intro l l' agreed
  cases compares _ _ agreed with
  | list each =>
    rw [List.forall₂_map_left_iff, List.forall₂_map_right_iff] at each
    exact List.forall₂_eq_eq_eq ▸ each.imp faithful

theorem faithful_texts : Faithful agree texts := (faithful_text compares).list compares

/-- Named values agree name by name. -/
theorem agrees_of_fields {entries others : Assoc String Data}
    (agreed : agree (fields entries) (fields others)) : Assoc.Agrees agree entries others := by
  have written : ∀ (entries : Assoc String Data) (name : String),
      Assoc.get? (entries.map fun e => (Scalar.text e.1, e.2)) (.text name) = entries.get? name := by
    intro entries name
    induction entries with
    | nil => rfl
    | cons e rest ih =>
      have key : (Scalar.text e.1 == .text name) = (e.1 == name) := by
        rw [Bool.eq_iff_iff, Scalar.beq_iff_key_eq]
        simp [Scalar.key]
      rw [List.map_cons, Assoc.get?, Assoc.get?, ih, key]
  cases compares _ _ agreed with
  | map agrees =>
    refine ⟨by simpa using agrees.1, fun name v found => ?_⟩
    obtain ⟨w, there, part⟩ := agrees.2 (.text name) v ((written entries name).trans found)
    exact ⟨w, (written others name).symm.trans there, part⟩

/-- Rows that are left out are empty ones. -/
theorem agrees_of_agreesOrVoid {entries others : Assoc String Data}
    (agreed : AgreesOrVoid agree (fields entries) (fields others)) : Assoc.Agrees agree entries others := by
  rcases agreed with ⟨void, void'⟩ | agreed
  · rw [eq_nil_of_isVoid void, eq_nil_of_isVoid void']
    exact ⟨rfl, nofun⟩
  · exact agrees_of_fields compares agreed

/-- What is written under a name can be told from the row that it stands in. -/
theorem Faithful.at_name (faithful : Faithful agree write) {entries others : Assoc String Data}
    (agreed : agree (fields entries) (fields others)) (name : String) {a b : α}
    (here : entries.get? name = some (write a)) (there : others.get? name = some (write b)) : a = b := by
  obtain ⟨w, found, part⟩ := (agrees_of_fields compares agreed).2 name _ here
  cases found.symm.trans there
  exact faithful a b part

/-- The values of two rows of the same names agree, or neither carries anything, if the rows agree once
what carries nothing is left out. -/
theorem agreesOrVoid_of_filter {entries others : Assoc String Data} (names : entries.keys = others.keys)
    (nodup : entries.keys.Nodup)
    (agreed : agree (fields (entries.filter fun e => !e.2.isVoid)) (fields (others.filter fun e => !e.2.isVoid)))
    (name : String) {v w : Data} (here : entries.get? name = some v) (there : others.get? name = some w) :
    AgreesOrVoid agree v w := by
  have nodup' : others.keys.Nodup := names ▸ nodup
  have agrees := agrees_of_fields compares agreed
  have solid : ∀ {m : Assoc String Data} {v : Data}, m.keys.Nodup → m.get? name = some v → v.isVoid = false →
      Assoc.get? (m.filter fun e => !e.2.isVoid) name = some v := fun nodup found full =>
    (Assoc.get?_filter_eq_some_iff nodup).mpr ⟨found, by rw [full]; rfl⟩
  cases void : v.isVoid with
  | false =>
    obtain ⟨w', there', part⟩ := agrees.2 name v (solid nodup here void)
    cases there.symm.trans ((Assoc.get?_filter_eq_some_iff nodup').mp there').1
    exact Or.inr part
  | true =>
    cases void' : w.isVoid with
    | true => exact Or.inl ⟨void, void'⟩
    | false =>
      -- the second row keeps the name, so the first one has to keep it as well
      obtain ⟨v', here'⟩ := agrees.exists_get? (nodup.sublist (List.filter_sublist.map _)) (solid nodup' there void')
      obtain ⟨found, full⟩ := (Assoc.get?_filter_eq_some_iff nodup).mp here'
      cases here.symm.trans found
      simp [void] at full

end

end Data

end SheetDoc
