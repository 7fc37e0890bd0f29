import Mathlib.Data.Prod.Lex
import Mathlib.Data.String.Basic
import SheetDoc.Proofs.Order.Ranks
import SheetDoc.Proofs.Record.Typed
import SheetDoc.Proofs.Steps

namespace SheetDoc

/-- `sorted` is `l` in the order of a key, and `order` lists the places that its elements have in `l`:
of two elements the one of the smaller key stands in front, and of two that share a key the one that
stands in front in `l`. -/
structure Arranges {α κ : Type} [LinearOrder κ] (key : α → κ) (l sorted : List α) (order : List Nat) :
    Prop where
  perm : order.Perm (List.range l.length)
  elements : List.Forall₂ (fun i a => l[i]? = some a) order sorted
  front_iff : ∀ (p q i j : Nat) (a b : α), order[p]? = some i → order[q]? = some j →
    l[i]? = some a → l[j]? = some b → (p < q ↔ key a < key b ∨ key a = key b ∧ i < j)

section Arranges

variable {α κ : Type} [LinearOrder κ] {key : α → κ} {l sorted : List α} {order : List Nat}

theorem zipIdxLE_key {x y : α × Nat} :
    List.zipIdxLE (fun a b => decide (key a ≤ key b)) x y = true ↔
      key x.1 < key y.1 ∨ key x.1 = key y.1 ∧ x.2 ≤ y.2 := by
  rw [List.zipIdxLE]
  rcases lt_trichotomy (key x.1) (key y.1) with below | same | above
  · simp [below, below.le, not_le.mpr below]
  · simp [same]
  · simp [not_le.mpr above, not_lt.mpr above.le, above.ne']

/-- Where no two elements are related both ways, the relation of a list tells which stands in front. -/
theorem lt_iff_of_pairwise {R : α → α → Prop} (pairwise : l.Pairwise R)
    (asymm : ∀ a b, R a b → ¬R b a) {p q : Nat} {a b : α} (atP : l[p]? = some a)
    (atQ : l[q]? = some b) : p < q ↔ R a b := by
  obtain ⟨inside, rfl⟩ := List.getElem?_eq_some_iff.mp atP
  obtain ⟨inside', rfl⟩ := List.getElem?_eq_some_iff.mp atQ
  have forward := List.pairwise_iff_getElem.mp pairwise
  refine ⟨forward p q inside inside', fun related => ?_⟩
  rcases Nat.lt_trichotomy p q with before | rfl | after
  · exact before
  · exact absurd related (asymm _ _ related)
  · exact absurd related (asymm _ _ (forward q p inside' inside after))

/-- A merge sort arranges its elements. -/
theorem arranges_mergeSort (key : α → κ) (l : List α) :
    ∃ order, Arranges key l (l.mergeSort fun a b => decide (key a ≤ key b)) order := by
  let le (a b : α) : Bool := decide (key a ≤ key b)
  let pairs := l.zipIdx.mergeSort (List.zipIdxLE le)
  have trans : ∀ a b c, le a b = true → le b c = true → le a c = true := by
    simpa [le] using fun a b c => le_trans (a := key a) (b := key b) (c := key c)
  have total : ∀ a b, (le a b || le b a) = true := by
    simpa [le] using fun a b => le_total (key a) (key b)
  have perm : pairs.Perm l.zipIdx := List.mergeSort_perm _ _
  have places : (pairs.map (·.2)).Perm (List.range l.length) := by
    have := perm.map (·.2)
    rwa [List.zipIdx_map_snd, ← List.range_eq_range'] at this
  have stands : ∀ x ∈ pairs, l[x.2]? = some x.1 := fun x member =>
    List.mem_zipIdx_iff_getElem?.mp (perm.mem_iff.mp member)
  have sorted := List.pairwise_mergeSort (List.zipIdxLE_trans trans) (List.zipIdxLE_total total) l.zipIdx
  -- no two places are the same, so the order between them is strict
  have apart : pairs.Pairwise fun x y => x.2 ≠ y.2 :=
    List.pairwise_map.mp (places.nodup_iff.mpr List.nodup_range)
  have strict : pairs.Pairwise fun x y => key x.1 < key y.1 ∨ key x.1 = key y.1 ∧ x.2 < y.2 :=
    (sorted.and apart).imp fun ⟨ordered, apart⟩ =>
      (zipIdxLE_key.mp ordered).imp_right fun ⟨same, le⟩ => ⟨same, lt_of_le_of_ne le apart⟩
  refine ⟨pairs.map (·.2), places, ?_, ?_⟩
  · rw [← List.mergeSort_zipIdx]
    exact List.forall₂_map_left_iff.mpr (List.forall₂_map_right_iff.mpr (List.forall₂_same.mpr stands))
  · intro p q i j a b atP atQ atI atJ
    rw [List.getElem?_map] at atP atQ
    obtain ⟨x, first, rfl⟩ := Option.map_eq_some_iff.mp atP
    obtain ⟨y, second, rfl⟩ := Option.map_eq_some_iff.mp atQ
    cases (stands x (List.mem_of_getElem? first)).symm.trans atI
    cases (stands y (List.mem_of_getElem? second)).symm.trans atJ
    refine lt_iff_of_pairwise strict ?_ first second
    rintro x y (below | ⟨same, before⟩) (above | ⟨same', after⟩)
    · exact lt_asymm below above
    · exact below.ne same'.symm
    · exact above.ne same.symm
    · omega

end Arranges

/-- What a record is ordered by. -/
abbrev OrderKey := Nat ×ₗ String ×ₗ Int ×ₗ String

def Record.orderKey (rank : String → Nat) (defaultGroup : String) (r : Record) : OrderKey :=
  toLex (rank (r.primaryGroup defaultGroup), toLex (r.file.path, toLex (r.line, r.name)))

theorem Record.orderKey_le_iff {rank : String → Nat} {defaultGroup : String} {a b : Record} :
    a.orderKey rank defaultGroup ≤ b.orderKey rank defaultGroup ↔
      rank (a.primaryGroup defaultGroup) < rank (b.primaryGroup defaultGroup) ∨
        rank (a.primaryGroup defaultGroup) = rank (b.primaryGroup defaultGroup) ∧
          toLex (a.file.path, toLex (a.line, a.name)) ≤ toLex (b.file.path, toLex (b.line, b.name)) :=
  Prod.Lex.toLex_le_toLex

/-- The rank of a group, for some records under some configured keys. -/
def groupRank (groups : List String) (defaultGroup : String) (rs : List Record) (group : String) :
    Nat := (groupRanks groups defaultGroup rs).idxOf group

theorem ranksGroups_groupRank (groups : List String) (defaultGroup : String) (rs : List Record) :
    RanksGroups (groups.map Text.lowered) (rs.map (·.primaryGroup defaultGroup))
      (groupRank groups defaultGroup rs) :=
  ranksGroups_idxOf _ _

/-- Keys without a text in the place of the line compare as what they hold. -/
theorem SortKey.compare_isLE_iff {a b : SortKey} (plain : a.words = none) (plain' : b.words = none) :
    (a.compare b).isLE = true ↔
      toLex (a.rank, toLex (a.path, toLex (a.line, a.name))) ≤
        toLex (b.rank, toLex (b.path, toLex (b.line, b.name))) := by
  have wordless : Ord.compare (a.words.getD "") (b.words.getD "") = .eq := by
    rw [plain, plain', compare_eq_iff_eq]
  have last : (Ordering.eq.then (Ord.compare a.name b.name)).isLE = true ↔ a.name ≤ b.name := by
    rw [← compare_le_iff_le]
    exact Ordering.isLE_iff_ne_gt
  simp only [SortKey.compare, wordless, Ordering.isLE_then_iff_or, Prod.Lex.toLex_le_toLex,
    compare_lt_iff_lt, compare_eq_iff_eq, ← last]

variable {groups : List String} {defaultGroup : String} {rs : List Record}

theorem Record.Typed.sortKey {r : Record} (typed : r.Typed) (ranks : List String) :
    r.sortKey ranks defaultGroup =
      .ok ⟨ranks.idxOf (r.primaryGroup defaultGroup), r.file.path, r.line, none, r.name⟩ := by
  have line : r.lineValue = Record.ofLine r.line := by
    rw [Record.lineValue, typed.strayValue?]
    cases r.context.lineStart <;> rfl
  rw [Record.sortKey, typed.readPath, line]
  rfl

/-- The records in the order of their keys. -/
def inOrder (groups : List String) (defaultGroup : String) (rs : List Record) : List Record :=
  rs.mergeSort fun a b =>
    decide (a.orderKey (groupRank groups defaultGroup rs) defaultGroup ≤
      b.orderKey (groupRank groups defaultGroup rs) defaultGroup)

theorem sortRecords_of_typed (typed : ∀ r ∈ rs, r.Typed) :
    sortRecords groups defaultGroup rs = .ok (inOrder groups defaultGroup rs) := by
  let key (r : Record) : SortKey :=
    ⟨groupRank groups defaultGroup rs (r.primaryGroup defaultGroup), r.file.path, r.line, none, r.name⟩
  have keyed : (rs.mapM fun r => do
      return (← r.sortKey (groupRanks groups defaultGroup rs) defaultGroup, r)) =
      Except.ok (rs.map fun r => (key r, r)) := by
    refine mapM_eq_ok.mpr (List.forall₂_map_right_iff.mpr (List.forall₂_same.mpr fun r member => ?_))
    rw [(typed r member).sortKey]
    rfl
  have wordless : (((rs.map fun r => (key r, r)).map (·.1)).filter (·.words.isSome)) = [] := by
    simp [key]
  have sorted : ((rs.map fun r => (key r, r)).mergeSort fun a b => (a.1.compare b.1).isLE).map (·.2) =
      inOrder groups defaultGroup rs := by
    rw [inOrder, ← List.map_mergeSort (f := fun r => (key r, r)) ?_, List.map_map]
    · exact List.map_id _
    · intro a _ b _
      rw [Bool.eq_iff_iff, decide_eq_true_eq]
      exact (SortKey.compare_isLE_iff (a := key a) (b := key b) rfl rfl).symm
  rw [sortRecords, keyed]
  simp only [bind, Except.bind, wordless, List.any_nil, Bool.false_eq_true, if_false, sorted, pure,
    Except.pure]

theorem pairwise_inOrder (groups : List String) (defaultGroup : String) (rs : List Record) :
    (inOrder groups defaultGroup rs).Pairwise fun a b =>
      a.orderKey (groupRank groups defaultGroup rs) defaultGroup ≤
        b.orderKey (groupRank groups defaultGroup rs) defaultGroup := by
  refine (List.pairwise_mergeSort ?_ ?_ rs).imp of_decide_eq_true
  · simpa using fun a b c => le_trans
  · simpa using fun a b => le_total _ _

/-- Among records in order, one of a smaller rank stands in front. -/
theorem lt_of_rank_lt {kept : List Record} (sublist : kept.Sublist (inOrder groups defaultGroup rs))
    {p q : Nat} {a b : Record} (atP : kept[p]? = some a) (atQ : kept[q]? = some b)
    (below : groupRank groups defaultGroup rs (a.primaryGroup defaultGroup) <
      groupRank groups defaultGroup rs (b.primaryGroup defaultGroup)) : p < q := by
  obtain ⟨inside, rfl⟩ := List.getElem?_eq_some_iff.mp atP
  obtain ⟨inside', rfl⟩ := List.getElem?_eq_some_iff.mp atQ
  have ordered := List.pairwise_iff_getElem.mp ((pairwise_inOrder groups defaultGroup rs).sublist sublist)
  rcases Nat.lt_trichotomy p q with before | rfl | after
  · exact before
  · exact absurd below (Nat.lt_irrefl _)
  · rcases Record.orderKey_le_iff.mp (ordered q p inside' inside after) with above | ⟨same, _⟩
    · exact absurd below (Nat.lt_asymm above)
    · exact absurd below (same ▸ Nat.lt_irrefl _)

theorem inOrder_perm : (inOrder groups defaultGroup rs).Perm rs := List.mergeSort_perm _ _

theorem mem_groups_inOrder (g : String) :
    g ∈ (inOrder groups defaultGroup rs).map (·.primaryGroup defaultGroup) ↔
      g ∈ rs.map (·.primaryGroup defaultGroup) := (inOrder_perm.map _).mem_iff

/-- Records in order stay in order when their groups are ranked by the order itself. -/
theorem inOrder_inOrder (groups : List String) (defaultGroup : String) (rs : List Record) :
    inOrder groups defaultGroup (inOrder groups defaultGroup rs) = inOrder groups defaultGroup rs := by
  have ranks := ranksGroups_groupRank groups defaultGroup rs
  have ranks' := ranksGroups_groupRank groups defaultGroup (inOrder groups defaultGroup rs)
  have ordered : ((inOrder groups defaultGroup rs).map (·.primaryGroup defaultGroup)).Pairwise
      fun g h => groupRank groups defaultGroup rs g ≤ groupRank groups defaultGroup rs h := by
    refine List.pairwise_map.mpr ((pairwise_inOrder groups defaultGroup rs).imp fun le => ?_)
    rcases Record.orderKey_le_iff.mp le with below | ⟨same, _⟩
    · exact below.le
    · exact same.le
  have shown : ∀ r ∈ inOrder groups defaultGroup rs,
      r.primaryGroup defaultGroup ∈ rs.map (·.primaryGroup defaultGroup) := fun r member =>
    List.mem_map.mpr ⟨r, inOrder_perm.mem_iff.mp member, rfl⟩
  refine List.mergeSort_of_pairwise ((pairwise_inOrder groups defaultGroup rs).imp_of_mem ?_)
  intro a b inside inside' le
  rw [decide_eq_true_eq, Record.orderKey_le_iff]
  rcases Record.orderKey_le_iff.mp le with below | ⟨same, rest⟩
  · exact Or.inl (ranks.lt_of_ordered ranks' mem_groups_inOrder ordered (shown a inside)
      (shown b inside') below)
  · have group := ranks.apart _ (List.mem_append_right _ (shown a inside)) _
      (List.mem_append_right _ (shown b inside')) same
    exact Or.inr ⟨congrArg _ group, rest⟩

/-- Sorting arranges any typed records by the ranks of their groups, then by file, line and name, and
to sort them again changes nothing. -/
theorem sortRecords_arranges (groups : List String) (defaultGroup : String) {rs : List Record}
    (typed : ∀ r ∈ rs, r.Typed) :
    ∃ rank sorted order,
      RanksGroups (groups.map Text.lowered) (rs.map (·.primaryGroup defaultGroup)) rank ∧
        sortRecords groups defaultGroup rs = .ok sorted ∧ sorted.Perm rs ∧
        Arranges (Record.orderKey rank defaultGroup) rs sorted order ∧
        sortRecords groups defaultGroup sorted = .ok sorted := by
  obtain ⟨order, arranges⟩ :=
    arranges_mergeSort (Record.orderKey (groupRank groups defaultGroup rs) defaultGroup) rs
  refine ⟨_, inOrder groups defaultGroup rs, order,
    ranksGroups_groupRank groups defaultGroup rs, sortRecords_of_typed typed, inOrder_perm,
    arranges, ?_⟩
  rw [sortRecords_of_typed fun r member => typed r (inOrder_perm.mem_iff.mp member), inOrder_inOrder]

/-- A record of a group at a line. -/
def groupedRecord (group name : String) (line : Int) : Record where
  context := { kind := .mixin, name := name, lineStart := some line }
  file := ⟨"a.scss", "a.scss"⟩
  group := [group]

/-- Records of groups that no configuration names, seen in another order than their names have, among
them two of one key. -/
def mixedRecords : List Record :=
  [groupedRecord "Zoo" "a" 9, groupedRecord "Late" "b" 1, groupedRecord "zoo" "c" 2,
    groupedRecord "zoo" "c" 2]

theorem sortRecords_arranges_mixed :
    (∀ r ∈ mixedRecords, r.Typed) ∧
      ∃ rank sorted order,
        RanksGroups (["LATE", "late"].map Text.lowered)
          (mixedRecords.map (·.primaryGroup "undefined")) rank ∧
          sortRecords ["LATE", "late"] "undefined" mixedRecords = .ok sorted ∧
          sorted.Perm mixedRecords ∧
          Arranges (Record.orderKey rank "undefined") mixedRecords sorted order ∧
          sortRecords ["LATE", "late"] "undefined" sorted = .ok sorted := by
  have typed : ∀ r ∈ mixedRecords, r.Typed := by
    simp [mixedRecords, groupedRecord, Record.Typed]
  exact ⟨typed, sortRecords_arranges ["LATE", "late"] "undefined" typed⟩

end SheetDoc
