import SheetDoc.Proofs.Data.Merge

namespace SheetDoc

namespace Assoc

variable {κ α : Type} [BEq κ]

/-- To store again what stands under a key changes nothing. -/
theorem set_eq_self {m : Assoc κ α} {key : κ} {value : α} (found : get? m key = some value) :
    set m key value = m := by
  induction m with
  | nil => cases found
  | cons e r ih =>
    obtain ⟨k, v⟩ := e
    rw [get?] at found
    rw [set]
    split at found
    · rename_i here
      rw [if_pos here, Option.some.inj found]
    · rename_i other
      rw [if_neg other, ih found]

theorem has_eq_any [PartialEquivBEq κ] (m : Assoc κ α) (key : κ) :
    m.has key = (keys m).any (· == key) := by
  induction m with
  | nil => rfl
  | cons e r ih =>
    obtain ⟨k, v⟩ := e
    rw [has] at ih
    cases here : k == key <;> simp_all [has, get?, keys]

theorem has_congr [PartialEquivBEq κ] (m : Assoc κ α) {key other : κ} (same : (key == other) = true) :
    m.has key = m.has other := by
  rw [has, has, get?_congr m same]

theorem exists_mem_of_get? {m : Assoc κ α} {key : κ} {value : α} (found : get? m key = some value) :
    ∃ e ∈ m, (e.1 == key) = true ∧ e.2 = value := by
  induction m with
  | nil => cases found
  | cons e r ih =>
    obtain ⟨k, v⟩ := e
    rw [get?] at found
    split at found
    · rename_i here
      exact ⟨(k, v), List.mem_cons_self, here, Option.some.inj found⟩
    · obtain ⟨e, member, same⟩ := ih found
      exact ⟨e, List.mem_cons_of_mem _ member, same⟩

/-- Where no key is repeated every entry is found under its key. -/
theorem Distinct.get?_of_mem [EquivBEq κ] {m : Assoc κ α} (distinct : Distinct m) {e : κ × α}
    (member : e ∈ m) : get? m e.1 = some e.2 := by
  induction m with
  | nil => cases member
  | cons first r ih =>
    obtain ⟨k, v⟩ := first
    obtain ⟨apart, later⟩ := List.pairwise_cons.mp distinct
    rcases List.mem_cons.mp member with rfl | inside
    · rw [get?, if_pos BEq.rfl]
    · rw [get?, apart e.1 (List.mem_map_of_mem inside)]
      exact ih later inside

end Assoc

namespace Data

/-- No mapping has a key twice, however deep it stands inside of others. -/
inductive Keyed : Data → Prop
  | scalar (value : Scalar) : Keyed (.scalar value)
  | list (items : List Data) (each : ∀ item ∈ items, Keyed item) : Keyed (.list items)
  | map (entries : Assoc Scalar Data) (distinct : entries.Distinct) (each : ∀ e ∈ entries, Keyed e.2) :
    Keyed (.map entries)

/-- What stands behind a row of keys, each of them in the mapping that those before it lead to. -/
def at? : Data → List Scalar → Option Data
  | value, [] => some value
  | .map entries, key :: path => (Assoc.get? entries key).bind (·.at? path)
  | _, _ :: _ => none

/-- One level of a merge. Keys of the base come first, then those that only the update has; mappings
under one key are merged in their turn, any other value of the update replaces that of the base, and
what only one side has is taken as it is. -/
structure Overlays (base update merged : Assoc Scalar Data) : Prop where
  keys : merged.keys = base.keys ++ update.keys.filter (!base.has ·)
  values : ∀ key, merged.get? key =
    match base.get? key, update.get? key with
    | some (.map old), some (.map new) => some (.map (mergeEntries old new))
    | _, some new => some new
    | old, none => old

instance (m : Assoc Scalar Data) : Decidable m.Distinct :=
  inferInstanceAs (Decidable (List.Pairwise _ _))

variable {base update : Assoc Scalar Data}

@[simp]
theorem keyed_scalar (value : Scalar) : Keyed (.scalar value) := .scalar value

@[simp]
theorem keyed_list_iff {items : List Data} : Keyed (.list items) ↔ ∀ item ∈ items, Keyed item := by
  refine ⟨fun keyed => ?_, .list items⟩
  cases keyed
  assumption

@[simp]
theorem keyed_map_iff : Keyed (.map base) ↔ base.Distinct ∧ ∀ e ∈ base, Keyed e.2 := by
  refine ⟨fun keyed => ?_, fun ⟨distinct, each⟩ => .map base distinct each⟩
  cases keyed with
  | map _ distinct each => exact ⟨distinct, each⟩

theorem Keyed.distinct (keyed : Keyed (.map base)) : base.Distinct := (keyed_map_iff.mp keyed).1

theorem Keyed.of_get? (keyed : Keyed (.map base)) {key : Scalar} {value : Data}
    (found : base.get? key = some value) : Keyed value := by
  obtain ⟨e, member, _, rfl⟩ := Assoc.exists_mem_of_get? found
  exact (keyed_map_iff.mp keyed).2 e member

theorem keys_mergeEntries (distinct : update.Distinct) (base : Assoc Scalar Data) :
    (mergeEntries base update).keys = base.keys ++ update.keys.filter (!base.has ·) := by
  induction update generalizing base with
  | nil => exact (List.append_nil _).symm
  | cons e rest ih =>
    obtain ⟨k, value⟩ := e
    obtain ⟨apart, later⟩ := List.pairwise_cons.mp distinct
    have step : Assoc.keys ((k, value) :: rest) = k :: Assoc.keys rest := rfl
    rw [mergeEntries, ih later, Assoc.keys_set, ← Assoc.has_eq_any, step]
    cases known : base.has k with
    | true =>
      rw [if_pos rfl, List.filter_cons_of_neg (by simp [known])]
      congr 1
      refine List.filter_congr fun k' _ => ?_
      rw [Assoc.has_set]
      cases same : k == k' with
      | true => simp [← Assoc.has_congr base same, known]
      | false => rw [Bool.false_or]
    | false =>
      rw [if_neg (by decide), List.filter_cons_of_pos (by simp [known]), List.append_assoc,
        List.singleton_append]
      congr 2
      refine List.filter_congr fun k' member => ?_
      rw [Assoc.has_set, apart k' member, Bool.false_or]

theorem overlays_mergeEntries (distinct : update.Distinct) (base : Assoc Scalar Data) :
    Overlays base update (mergeEntries base update) := by
  refine ⟨keys_mergeEntries distinct base, fun key => ?_⟩
  rw [get?_mergeEntries distinct]
  cases update.get? key with
  | none =>
    cases base.get? key with
    | none => rfl
    | some old => cases old <;> rfl
  | some new =>
    cases base.get? key with
    | none => cases new <;> rfl
    | some old => cases old <;> cases new <;> simp only [mergeEntry, merge]

theorem eq_map_of_at? {value : Data} {path : List Scalar} {m : Assoc Scalar Data}
    (found : value.at? path = some (.map m)) : ∃ entries, value = .map entries := by
  cases path with
  | nil => exact ⟨m, Option.some.inj found⟩
  | cons key path =>
    cases value with
    | map entries => exact ⟨entries, rfl⟩
    | list | scalar => cases found

/-- Where both sides have a mapping behind a row of keys, the merge has theirs merged there. -/
theorem at?_mergeEntries {a b : Assoc Scalar Data} (keyed : Keyed (.map b)) {path : List Scalar}
    (inBase : at? (.map a) path = some (.map base)) (inUpdate : at? (.map b) path = some (.map update)) :
    at? (.map (mergeEntries a b)) path = some (.map (mergeEntries base update)) ∧ update.Distinct := by
  induction path generalizing a b with
  | nil =>
    cases inBase
    cases inUpdate
    exact ⟨rfl, keyed.distinct⟩
  | cons key path ih =>
    obtain ⟨old, inA, inBase⟩ := Option.bind_eq_some_iff.mp inBase
    obtain ⟨new, inB, inUpdate⟩ := Option.bind_eq_some_iff.mp inUpdate
    obtain ⟨old, rfl⟩ := eq_map_of_at? inBase
    obtain ⟨new, rfl⟩ := eq_map_of_at? inUpdate
    have here := (overlays_mergeEntries keyed.distinct a).values key
    simp only [inA, inB] at here
    rw [at?, here]
    exact ih (keyed.of_get? inB) inBase inUpdate

/-- What does not change when it is merged over itself does not when it is merged twice. -/
theorem mergeEntries_absorbs {m update : Assoc Scalar Data}
    (each : ∀ e ∈ update, ∃ value, m.get? e.1 = some value ∧ merge value e.2 = value) :
    mergeEntries m update = m := by
  induction update with
  | nil => rfl
  | cons e rest ih =>
    obtain ⟨key, new⟩ := e
    obtain ⟨⟨value, found, same⟩, later⟩ := List.forall_mem_cons.mp each
    have kept : mergeEntry (some value) (key, new) = value := same
    rw [mergeEntries, found, kept, Assoc.set_eq_self found]
    exact ih later

/-- Merging a value over itself, or over what it has been merged over, changes nothing. -/
theorem Keyed.merge_again {value : Data} (keyed : Keyed value) :
    merge value value = value ∧ ∀ old, merge (merge old value) value = merge old value := by
  induction keyed with
  | scalar value => simp only [merge, implies_true, and_self]
  | list items => simp only [merge, implies_true, and_self]
  | map entries distinct each ih =>
    have itself : merge (.map entries) (.map entries) = .map entries := by
      rw [merge, mergeEntries_absorbs fun e member =>
        ⟨e.2, distinct.get?_of_mem member, (ih e member).1⟩]
    refine ⟨itself, fun old => ?_⟩
    cases old with
    | list | scalar => simp only [merge.eq_2, itself]
    | map base =>
      rw [merge, merge, mergeEntries_absorbs]
      intro e member
      have found := get?_mergeEntries distinct base e.1
      rw [distinct.get?_of_mem member] at found
      refine ⟨_, found, ?_⟩
      cases Assoc.get? base e.1 with
      | none => exact (ih e member).1
      | some old => exact (ih e member).2 old

/-- A mapping merged with another one. At every level where both have a mapping, the keys of the first
come in its order, and behind them the new ones of the second in its order; the values are told by
`Overlays`. Merging the second again changes nothing, nor does merging a mapping with itself or with an
empty one. -/
theorem mergeEntries_overlays {a b : Assoc Scalar Data} (first : Keyed (.map a)) (second : Keyed (.map b)) :
    (∀ path base update, at? (.map a) path = some (.map base) → at? (.map b) path = some (.map update) →
        ∃ merged, at? (.map (mergeEntries a b)) path = some (.map merged) ∧ Overlays base update merged) ∧
      mergeEntries (mergeEntries a b) b = mergeEntries a b ∧ mergeEntries a a = a ∧
      mergeEntries a [] = a ∧ mergeEntries [] a = a := by
  refine ⟨fun path base update inA inB => ?_, ?_, ?_, rfl, mergeEntries_of_distinct first.distinct⟩
  · obtain ⟨level, distinct⟩ := at?_mergeEntries second inA inB
    exact ⟨_, level, overlays_mergeEntries distinct base⟩
  · have again := second.merge_again.2 (.map a)
    simpa only [merge, map.injEq] using again
  · have itself := first.merge_again.1
    simpa only [merge, map.injEq] using itself

/-- Settings with groups, and others that name a group anew and put a mapping in place of a list. -/
def groupSettings : Assoc Scalar Data :=
  [(.text "groups", .map [(.text "undefined", .text "General"), (.int 1, .text "One")]),
    (.text "access", .list [.text "public"])]

def otherSettings : Assoc Scalar Data :=
  [(.text "access", .map [(.text "level", .null)]), (.text "strict", .bool true),
    (.text "groups", .map [(.text "misc", .text "Rest"), (.bool true, .list [])])]

theorem mergeEntries_overlays_groups :
    Keyed (.map groupSettings) ∧ Keyed (.map otherSettings) ∧
      (∃ merged : Assoc Scalar Data,
        at? (.map (mergeEntries groupSettings otherSettings)) [.text "groups"] = some (.map merged) ∧
          merged.keys = [.text "undefined", .int 1, .text "misc"] ∧ merged.get? (.int 1) = some (.list [])) ∧
      mergeEntries (mergeEntries groupSettings otherSettings) otherSettings =
        mergeEntries groupSettings otherSettings := by
  have first : Keyed (.map groupSettings) := by
    have distinct : Assoc.Distinct groupSettings := by decide
    have inner : Assoc.Distinct [(Scalar.text "undefined", text "General"), (.int 1, text "One")] := by decide
    simpa [groupSettings, inner] using distinct
  have second : Keyed (.map otherSettings) := by
    have distinct : Assoc.Distinct otherSettings := by decide
    have level : Assoc.Distinct [(Scalar.text "level", null)] := by decide
    have groups : Assoc.Distinct [(Scalar.text "misc", text "Rest"), (.bool true, list [])] := by decide
    simpa [otherSettings, level, groups] using distinct
  obtain ⟨levels, again, _⟩ := mergeEntries_overlays first second
  obtain ⟨merged, level, keys, values⟩ := levels [.text "groups"] _ _ rfl rfl
  exact ⟨first, second, ⟨merged, level, keys, values (.int 1)⟩, again⟩

end Data

end SheetDoc
