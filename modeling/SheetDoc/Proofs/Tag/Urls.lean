import SheetDoc.Proofs.Code.Urls
import SheetDoc.Proofs.Extraction.Requirements
import SheetDoc.Proofs.Tag.Notes

namespace SheetDoc

open Tag (ofUse)

variable {r : Record} {ls : List (List Char)} {e : Require}

/-- The parameters of a record whose code ends each line in front of its slashes. -/
def cutParameters (r : Record) (ls : List (List Char)) : List String :=
  ownParameters r (Text.unlines (ls.map (Text.cutBefore ['/', '/'])))

/-- The text behind an address makes a requirement. -/
def RequiredBehind (r : Record) (ls : List (List Char)) (e : Require) : Prop :=
  ∃ l ∈ ls, ∃ use ∈ usesBehind r (cutParameters r ls) l, use ≠ (r.kind, r.name) ∧ e = ofUse use

/-- Other signs in place of the slashes change neither the parameters nor what the next line begins with. -/
structure MasksApart (r : Record) (ls : List (List Char)) : Prop where
  parameters : ownParameters r (Text.unlines (ls.map maskSlashes)) = cutParameters r ls
  closed : ∀ l ∈ ls, ¬AwaitsName (behindSlashes l)

section

variable (single : ∀ l ∈ ls, '\n' ∉ l) (opens : ∀ l ∈ ls, Text.occurs ['/', '*'] l = false)

include single opens

/-- What is read of the code are its lines up to their first slashes. -/
theorem usesOf_coded : usesOf (r.coded ls) (dropComments (r.coded ls).context.code.toList) =
    usesOf r (Text.unlines (ls.map (Text.cutBefore ['/', '/']))) := by
  simp only [Record.coded, String.toList_ofList, dropComments_unlines opens single]
  rfl

theorem usedRecords_cut :
    usedRecords (r.coded ls) = usedRecords (r.coded (ls.map (Text.cutBefore ['/', '/']))) := by
  have front : ∀ l : List Char, Text.cutBefore ['/', '/'] l <+: l := Text.cutBefore_begins _
  have twice : ∀ l ∈ ls.map (Text.cutBefore ['/', '/']), Text.cutBefore ['/', '/'] l = l :=
    List.forall_mem_map.mpr fun l _ => Text.cutBefore_of_not_occurs (not_occurs_cutBefore l)
  have single' : ∀ l ∈ ls.map (Text.cutBefore ['/', '/']), '\n' ∉ l :=
    List.forall_mem_map.mpr fun l member inside => single l member ((front l).subset inside)
  have opens' : ∀ l ∈ ls.map (Text.cutBefore ['/', '/']), Text.occurs ['/', '*'] l = false :=
    List.forall_mem_map.mpr fun l member =>
      not_occurs_of_infix (by decide) (opens l member) (front l).isInfix
  rw [usedRecords, usedRecords, usesOf_coded single opens, usesOf_coded single' opens',
    List.map_congr_left twice, List.map_id']
  rfl

variable (once : ∀ l ∈ ls, Text.occurs ['/', '/'] (behindSlashes l) = false)

include once

/-- Masked lines are read whole. -/
theorem usesOf_coded_masked :
    usesOf (r.coded (ls.map maskSlashes)) (dropComments (r.coded (ls.map maskSlashes)).context.code.toList) =
      usesOf r (Text.unlines (ls.map maskSlashes)) := by
  have plain : ∀ l ∈ ls.map maskSlashes, Text.occurs ['/', '*'] l = false ∧ Text.occurs ['/', '/'] l = false :=
    List.forall_mem_map.mpr fun l member => plain_maskSlashes (opens l member) (once l member)
  have single' : ∀ l ∈ ls.map maskSlashes, '\n' ∉ l :=
    List.forall_mem_map.mpr fun l member => not_mem_maskSlashes (single l member)
  have whole : ∀ l ∈ ls.map maskSlashes, Text.cutBefore ['/', '/'] l = l :=
    fun l member => Text.cutBefore_of_not_occurs (plain l member).2
  rw [usesOf_coded single' fun l member => (plain l member).1, List.map_congr_left whole, List.map_id']

variable (kept : ∀ l ∈ ls, withoutComment l = l) (apart : MasksApart r ls)

include kept apart

/-- Masked, the code also requires what is named behind addresses. -/
theorem mem_usedRecords_masked : e ∈ usedRecords (r.coded (ls.map maskSlashes)) ↔
    e ∈ usedRecords (r.coded ls) ∨ RequiredBehind r ls e := by
  have own : ∀ ls : List (List Char), ((r.coded ls).kind, (r.coded ls).name) = (r.kind, r.name) :=
    fun _ => rfl
  rw [Tag.mem_usedRecords_iff, Tag.mem_usedRecords_iff, own, own, usesOf_coded single opens,
    usesOf_coded_masked single opens once]
  simp only [mem_usesOf_masked kept apart.closed rfl apart.parameters, RequiredBehind]
  constructor
  · rintro ⟨use, front | ⟨l, member, behind⟩, made⟩
    · exact .inl ⟨use, front, made⟩
    · exact .inr ⟨l, member, use, behind, made⟩
  · rintro (⟨use, front, made⟩ | ⟨l, member, use, behind, made⟩)
    · exact ⟨use, .inl front, made⟩
    · exact ⟨use, .inr ⟨l, member, behind⟩, made⟩

/-- Where nothing is named behind addresses, the code requires the same. -/
theorem usedRecords_masked_eq (idle : ∀ l ∈ ls, usesBehind r (cutParameters r ls) l = []) :
    usedRecords (r.coded (ls.map maskSlashes)) = usedRecords (r.coded ls) := by
  rw [usedRecords, usedRecords, usesOf_coded single opens, usesOf_coded_masked single opens once,
    usesOf_masked_eq kept apart.closed rfl apart.parameters idle]
  rfl

end

namespace Tag

/-- Code in which no comment is opened, with addresses as the only slashes in its lines. What it requires is
found in front of the slashes of each line. With other signs in place of the slashes that is found as well
and, as long as these signs stand apart, what is named behind an address, but nothing else; where nothing
is named there, the same is found in the same order. -/
theorem autofill_urls (context : r.Holds .context) (parameter : r.Holds .parameter)
    (single : ∀ l ∈ ls, '\n' ∉ l) (opens : Text.occurs ['/', '*'] (Text.unlines ls) = false)
    (kept : ∀ l ∈ ls, withoutComment l = l)
    (once : ∀ l ∈ ls, Text.occurs ['/', '/'] (behindSlashes l) = false) :
    require.filled? (r.coded ls) = require.filled? (r.coded (ls.map (Text.cutBefore ['/', '/']))) ∧
      ∃ found whole : List Require,
        require.filled? (r.coded ls) = some (.ok (.list (found.map .require))) ∧
        require.filled? (r.coded (ls.map maskSlashes)) = some (.ok (.list (whole.map .require))) ∧
        (MasksApart r ls → (∀ e, e ∈ whole ↔ e ∈ found ∨ RequiredBehind r ls e) ∧
          ((∀ l ∈ ls, usesBehind r (cutParameters r ls) l = []) → whole = found)) := by
  have held : ∀ ls : List (List Char), require.filled? (r.coded ls) =
      some (.ok (.list ((usedRecords (r.coded ls)).map .require))) :=
    fun ls => filled?_require (r := r.coded ls) context parameter
  have opens' : ∀ l ∈ ls, Text.occurs ['/', '*'] l = false := by
    rw [occurs_unlines (by decide) (by decide), List.any_eq_false] at opens
    simpa using opens
  refine ⟨by rw [held, held, usedRecords_cut single opens'], _, _, held ls, held _, fun apart => ⟨?_, ?_⟩⟩
  · exact fun e => mem_usedRecords_masked single opens' once kept apart
  · exact usedRecords_masked_eq single opens' once kept apart

/-- The code of a mixin with an address in front of names. -/
def addressed : List (List Char) :=
  ["@mixin m \x7b".toList, "  b: $c url(http://x) f($e);".toList, "\x7d".toList]

/-- The scanner keeps its lines, and no comment is opened in them. -/
theorem addressed_kept : (∀ l ∈ addressed, '\n' ∉ l) ∧
    Text.occurs ['/', '*'] (Text.unlines addressed) = false ∧ (∀ l ∈ addressed, withoutComment l = l) ∧
      ∀ l ∈ addressed, Text.occurs ['/', '/'] (behindSlashes l) = false := by
  unfold addressed
  rw [String.toList_ofList, String.toList_ofList, String.toList_ofList]
  decide +kernel

theorem autofill_urls_addressed :
    plainMixin.Holds .context ∧ plainMixin.Holds .parameter ∧ (∀ l ∈ addressed, '\n' ∉ l) ∧
      Text.occurs ['/', '*'] (Text.unlines addressed) = false ∧
      (∀ l ∈ addressed, withoutComment l = l) ∧
      (∀ l ∈ addressed, Text.occurs ['/', '/'] (behindSlashes l) = false) ∧
      MasksApart plainMixin addressed ∧
      RequiredBehind plainMixin addressed (ofUse (.var, "e")) ∧
      ∃ whole : List Require,
        require.filled? (plainMixin.coded (addressed.map maskSlashes)) =
          some (.ok (.list (whole.map .require))) ∧ ofUse (.var, "e") ∈ whole := by
  obtain ⟨single, opens, kept, once⟩ := addressed_kept
  have apart : MasksApart plainMixin addressed := ⟨by decide +kernel, by decide +kernel⟩
  have behind : RequiredBehind plainMixin addressed (ofUse (.var, "e")) :=
    ⟨addressed[1], by decide +kernel, (.var, "e"), by decide +kernel, by decide +kernel, rfl⟩
  have context : plainMixin.Holds .context := rfl
  have parameter : plainMixin.Holds .parameter := rfl
  obtain ⟨_, _, whole, _, filled, more⟩ := autofill_urls context parameter single opens kept once
  exact ⟨context, parameter, single, opens, kept, once, apart, behind, whole, filled,
    ((more apart).1 _).mpr (.inr behind)⟩

/-- What stands behind the address is lost. -/
theorem not_masked_addressed :
    (∀ l ∈ addressed, withoutComment l = l) ∧
      (∀ l ∈ addressed, Text.occurs ['/', '/'] (behindSlashes l) = false) ∧
      Text.occurs ['/', '*'] (Text.unlines addressed) = false ∧
      require.filled? (plainMixin.coded addressed) = some (.ok (.list [.require (ofUse (.var, "c"))])) ∧
      require.filled? (plainMixin.coded (addressed.map maskSlashes)) =
        some (.ok (.list [.require (ofUse (.function, "f")), .require (ofUse (.var, "c")),
          .require (ofUse (.var, "e"))])) ∧
      require.filled? (plainMixin.coded addressed) ≠
        require.filled? (plainMixin.coded (addressed.map maskSlashes)) := by
  have held : ∀ ls : List (List Char), require.filled? (plainMixin.coded ls) =
      some (.ok (.list ((usedRecords (plainMixin.coded ls)).map .require))) :=
    fun ls => filled?_require (r := plainMixin.coded ls) rfl rfl
  have found : usedRecords (plainMixin.coded addressed) = [ofUse (.var, "c")] := by decide +kernel
  have whole : usedRecords (plainMixin.coded (addressed.map maskSlashes)) =
      [ofUse (.function, "f"), ofUse (.var, "c"), ofUse (.var, "e")] := by decide +kernel
  obtain ⟨_, opens, kept, once⟩ := addressed_kept
  rw [held, held, found, whole]
  exact ⟨kept, once, opens, rfl, rfl, by simp⟩

end Tag

end SheetDoc
