import SheetDoc.Proofs.Extraction.Blind
import SheetDoc.Proofs.Extraction.Posters
import SheetDoc.Proofs.Extraction.Requirements

namespace SheetDoc

/-- Values by their keys: each key where it comes first, with all its values in order. -/
def grouped (entries : List (String × String)) : Assoc String (List String) :=
  (entries.map (·.1)).eraseDups.map fun key => (key, (entries.filter (·.1 == key)).map (·.2))

section Grouped

variable {α : Type} {keys : List String} {key : String} {f : String → α} {value : α}

theorem nodup_eraseDups (keys : List String) : keys.eraseDups.Nodup := by
  rw [List.eraseDups, ← mergeNew_nil]
  exact (pairwise_mergeNew .nil).imp fun other same => by simp [same] at other

theorem get?_map_keys :
    Assoc.get? (keys.map fun k => (k, f k)) key = if key ∈ keys then some (f key) else none := by
  induction keys with
  | nil => rfl
  | cons k rest ih =>
    rw [List.map_cons, Assoc.get?, ih]
    by_cases here : k = key
    · simp [here]
    · simp [here, Ne.symm here]

theorem set_map_keys (once : keys.Nodup) (member : key ∈ keys) :
    Assoc.set (keys.map fun k => (k, f k)) key value =
      keys.map fun k => (k, if k = key then value else f k) := by
  induction keys with
  | nil => cases member
  | cons k rest ih =>
    obtain ⟨fresh, once⟩ := List.nodup_cons.mp once
    rw [List.map_cons, Assoc.set, List.map_cons]
    by_cases here : k = key
    · subst here
      have others : (rest.map fun k' => (k', if k' = k then value else f k')) =
          rest.map fun k' => (k', f k') :=
        List.map_congr_left fun k' inside => by
          rw [if_neg (by rintro rfl; exact fresh inside)]
      rw [if_pos (beq_self_eq_true k), others, if_pos rfl]
    · have inside : key ∈ rest := (List.mem_cons.mp member).resolve_left (Ne.symm here)
      rw [if_neg (by simpa using here), if_neg here, ih once inside]

/-- One more value goes behind those of its key. -/
theorem set_grouped (entries : List (String × String)) (key value : String) :
    (grouped entries).set key (((grouped entries).get? key).getD [] ++ [value]) =
      grouped (entries ++ [(key, value)]) := by
  let values (k : String) : List String := (entries.filter (·.1 == k)).map (·.2)
  have held : ((grouped entries).get? key).getD [] = values key := by
    rw [grouped, get?_map_keys]
    split
    · rfl
    · rename_i fresh
      have none : entries.filter (·.1 == key) = [] := by
        refine List.filter_eq_nil_iff.mpr fun e member same => fresh (List.mem_eraseDups.mpr ?_)
        exact List.mem_map.mpr ⟨e, member, beq_iff_eq.mp same⟩
      simp only [values, none, List.map_nil, Option.getD_none]
  have grown : ∀ k, ((entries ++ [(key, value)]).filter (·.1 == k)).map (·.2) =
      values k ++ if k = key then [value] else [] := by
    intro k
    rw [List.filter_append, List.map_append]
    by_cases here : k = key
    · simp [values, here]
    · simp [values, here, Ne.symm here]
  rw [held, grouped, grouped, List.map_append, List.eraseDups_append]
  simp only [grown]
  by_cases member : key ∈ entries.map (·.1)
  · have known : [key].removeAll (entries.map (·.1)) = [] := by simp [List.removeAll, member]
    rw [List.map_singleton, known, List.eraseDups_nil, List.append_nil,
      set_map_keys (nodup_eraseDups _) (List.mem_eraseDups.mpr member)]
    refine List.map_congr_left fun k _ => ?_
    split
    · rename_i here
      rw [here]
    · rw [List.append_nil]
  · have fresh : [key].removeAll (entries.map (·.1)) = [key] := by simp [List.removeAll, member]
    have new : key ∉ Assoc.keys ((entries.map (·.1)).eraseDups.map fun k => (k, values k)) := by
      simpa [Assoc.keys, Function.comp_def, List.mem_eraseDups] using member
    have others : ∀ k ∈ (entries.map (·.1)).eraseDups,
        (k, values k) = (k, values k ++ if k = key then [value] else []) := by
      intro k inside
      have other : k ≠ key := by
        rintro rfl
        exact member (List.mem_eraseDups.mp inside)
      rw [if_neg other, List.append_nil]
    rw [List.map_singleton, fresh, Assoc.set_of_fresh new, List.map_append, List.map_congr_left others]
    simp [List.eraseDups_cons]

end Grouped

namespace Registry

/-- The items of a comment with unknown words, but for those behind an example. -/
def unknownItems (g : Registry) (behind : Bool) : List Tagged → List Tagged
  | [] => []
  | item :: rest =>
    if g.has item.tag then g.unknownItems (g.canonical? item.tag == some "example") rest
    else if behind then g.unknownItems behind rest
    else item :: g.unknownItems behind rest

variable {g : Registry}

/-- What is not put back into an example stays as it is. -/
theorem filter_foldExamplesFrom (last : Tagged) (items : List Tagged) :
    (Extractor.foldExamplesFrom g last items).filter (!g.has ·.tag) =
      (if g.has last.tag then [] else [last]) ++
        g.unknownItems (g.canonical? last.tag == some "example") items := by
  induction items generalizing last with
  | nil =>
    rw [Extractor.foldExamplesFrom, unknownItems, List.filter_singleton, List.append_nil]
    cases g.has last.tag <;> rfl
  | cons item rest ih =>
    rw [Extractor.foldExamplesFrom, unknownItems]
    cases known : g.has item.tag with
    | true =>
      simp only [Bool.not_true, Bool.false_and, Bool.false_eq_true, if_false, if_true,
        List.filter_cons, ih, known, List.nil_append]
      cases g.has last.tag <;> rfl
    | false =>
      cases sample : g.canonical? last.tag == some "example" with
      | true =>
        have listed : g.has last.tag = true := by rw [has, beq_iff_eq.mp sample, Option.isSome_some]
        simp only [Bool.not_false, Bool.true_and, if_true, ih, sample, Bool.false_eq_true, if_false,
          listed]
      | false =>
        have none : (g.canonical? item.tag == some "example") = false := by
          rw [canonical?_of_not_has known]
          rfl
        simp only [Bool.not_false, Bool.true_and, Bool.false_eq_true, if_false, List.filter_cons, ih,
          known, none, List.singleton_append]
        cases g.has last.tag <;> rfl

theorem filter_foldExamples (items : List Tagged) :
    (Extractor.foldExamples g items).filter (!g.has ·.tag) = g.unknownItems false items := by
  cases items with
  | nil => rfl
  | cons item rest =>
    rw [Extractor.foldExamples, filter_foldExamplesFrom, unknownItems]
    cases known : g.has item.tag with
    | true => rfl
    | false =>
      rw [canonical?_of_not_has known]
      rfl

end Registry

/-- The veil that covers unknown words with others. -/
def Veil.words (kept : Assoc String (List String)) : Veil := { unknown := fun _ => kept }

/-- What no veil of unknown words is in the way of leaves them as they are. -/
theorem Veil.Blind.keeps_unknown {ε : Type} {step : Record → Except ε Record} {r r' : Record}
    (blind : ∀ kept, (Veil.words kept).Blind step) (done : step r = .ok r') : r'.unknown = r.unknown := by
  have same := blind r.unknown r
  have veiled : (Veil.words r.unknown).hide r = r := rfl
  rw [veiled, done] at same
  have same : r' = (Veil.words r.unknown).hide r' := Except.ok.inj same
  exact (congrArg Record.unknown same :)

namespace Extractor

variable {x : Extractor} {c : Config} {r r' : Record}

/-- An unknown word that is kept, with the value that it has. -/
def kept (item : Tagged) : String × String := (item.tag, Text.trimmed item.raw)

/-- The unknown words of the comment of a block with their values. -/
def unknownWords (x : Extractor) (b : Block) : Assoc String (List String) :=
  grouped ((x.registry.unknownItems false (Comment.ofText b.comment).items).map kept)

/-- A tag adds to the unknown words of a record if it is one itself. -/
theorem unknown_applyTag (standard : x.IsBuiltin c) (asked : x.includeUnknown = true)
    (answers : ∀ word, x.registry.has word = true → x.registry.get? word ≠ .ok none) {poster : Bool}
    {line : Int} {item : Tagged} {entries : List (String × String)} (typed : r.Typed)
    (holds : r.unknown = grouped entries)
    (done : (x.applyTag poster line r item).result = .ok r') :
    r'.unknown = grouped (entries ++ if x.registry.has item.tag then [] else [kept item]) := by
  cases known : x.registry.has item.tag with
  | true =>
    have same := standard.applyTag_hide (v := .words r.unknown)
      (fun missing => absurd missing (answers item.tag known)) poster line r
    have veiled : (Veil.words r.unknown).hide r = r := rfl
    rw [veiled] at same
    have result := congrArg Report.result same
    rw [done, Report.map, done] at result
    have result : r' = (Veil.words r.unknown).hide r' := Except.ok.inj result
    have unknown : r'.unknown = r.unknown := (congrArg Record.unknown result :)
    rw [if_pos rfl, List.append_nil, unknown, holds]
  | false =>
    have missing : x.registry.get? item.tag = .ok none := by
      rw [Registry.get?, Registry.canonical?_of_not_has known]
    simp only [applyTag, missing, asked, if_true, keepUnknown, typed.strayValue?] at done
    cases done
    rw [if_neg Bool.false_ne_true, kept, ← set_grouped, holds]

theorem unknown_applyTags (standard : x.IsBuiltin c) (asked : x.includeUnknown = true)
    (answers : ∀ word, x.registry.has word = true → x.registry.get? word ≠ .ok none) {poster : Bool}
    {start : Int} {items : List Tagged} {entries : List (String × String)} (typed : r.Typed)
    (holds : r.unknown = grouped entries)
    (done : (x.applyTags poster start r items).result = .ok r') :
    r'.unknown = grouped (entries ++ (items.filter (!x.registry.has ·.tag)).map kept) := by
  induction items generalizing r entries with
  | nil =>
    cases done
    exact (List.append_nil entries).symm ▸ holds
  | cons item rest ih =>
    obtain ⟨m, first, later⟩ := Report.andThen_eq_ok.mp done
    have typed' := typed_applyTag standard.keepsTypes.registered typed first
    rw [ih typed' (unknown_applyTag standard asked answers typed holds first) later, List.append_assoc,
      List.filter_cons]
    cases x.registry.has item.tag <;> rfl

/-- The draft of a block has the unknown words of its comment. -/
theorem unknown_extract (standard : x.IsBuiltin c) (asked : x.includeUnknown = true)
    (answers : ∀ word, x.registry.has word = true → x.registry.get? word ≠ .ok none) {b : Block}
    {file : FileRef} (done : (x.extract b file).result = .ok (some r)) :
    r.unknown = x.unknownWords b := by
  obtain ⟨m, tagged, rest⟩ := extract_ok done
  have words : m.unknown = x.unknownWords b := by
    have typed : (blank b file).Typed := rfl
    have silent : (blank b file).unknown = grouped [] := rfl
    have words := unknown_applyTags standard asked answers typed silent tagged
    rwa [List.nil_append, Registry.filter_foldExamples] at words
  split at rest
  · exact rest ▸ words
  · obtain ⟨n, filled, autofilled⟩ := rest
    have signed := Veil.Blind.keeps_unknown (fun _ => blind_fillSignatureDefaults) filled
    refine foldlM_keeps (P := fun r => r.unknown = x.unknownWords b) (fun a member s s' step same => ?_)
      autofilled (signed.trans words)
    have listed : a ∈ x.registry.toList := standard.listed ▸ (standard.filling a member).1
    have blind : ∀ kept, (Veil.words kept).Blind fun r => runAutofill r a := fun kept =>
      blind_runAutofill (standard.blind _ listed).1 (standard.blind (.words kept) listed).2
    exact (Veil.Blind.keeps_unknown blind step).trans same

theorem Completes.unique {posters : List Record} {r'' : Record} (first : x.Completes posters r r')
    (second : x.Completes posters r r'') : r' = r'' := by
  obtain ⟨m, merged, completed⟩ := first
  obtain ⟨m', merged', completed'⟩ := second
  cases merged.symm.trans merged'
  exact Except.ok.inj (completed.symm.trans completed')

/-- Posters and defaults leave unknown words as they are. -/
theorem unknown_completes (standard : x.IsBuiltin c) {posters : List Record}
    (completes : x.Completes posters r r') : r'.unknown = r.unknown := by
  have veiled := standard.completes_hide (v := .words r.unknown) (w := {}) completes
  have posters' : posters.map (Veil.hide {}) = posters := List.map_id' posters
  rw [posters'] at veiled
  have same : r' = (Veil.words r.unknown).hide r' := completes.unique veiled
  exact (congrArg Record.unknown same :)

end Extractor

end SheetDoc
