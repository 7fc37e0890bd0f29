import SheetDoc.Proofs.Extraction.Posters
import SheetDoc.Proofs.Extraction.Defaults
import SheetDoc.Proofs.Extraction.Requirements

namespace SheetDoc

/-- What can stand in a field before linking: no back-link, and entries without an item. -/
def Field.detached : Field → Item → Prop
  | .aliased, _ | .usedBy, _ => False
  | .require, .require e => e.item = none
  | .see, .see e => e.item = none
  | _, _ => True

/-- The fields that linking writes. -/
def Field.links (f : Field) : Bool := [aliased, usedBy, require, see].contains f

theorem Field.detached_of_not_links {f : Field} (other : f.links = false) (i : Item) :
    f.detached i := by
  cases f <;> first | exact trivial | cases other

/-- A typed record that refers to no other. -/
structure Record.Detached (r : Record) : Prop where
  typed : r.Typed
  items : ∀ f items, r.own f = .ok (.list items) → ∀ i ∈ items, f.detached i

namespace Record

variable {r r' : Record} {f : Field}

theorem Detached.wrote (detached : r.Detached) (wrote : r.Wrote f r')
    (new : ∀ items, r'.own f = .ok (.list items) → ∀ i ∈ items, f.detached i) : r'.Detached := by
  refine ⟨wrote.typed, fun f' items holds => ?_⟩
  by_cases here : f' = f
  · exact here ▸ new items (here ▸ holds)
  · by_cases stored : ∃ name, f' = .other name
    · obtain ⟨name, rfl⟩ := stored
      exact absurd rfl ((solid_of_not_merges wrote.typed rfl holds).2 items)
    · rw [wrote.own here fun name same => stored ⟨name, same⟩] at holds
      exact detached.items f' items holds

/-- To write a field that linking has no part in changes nothing. -/
theorem Detached.wrote_elsewhere (detached : r.Detached) (wrote : r.Wrote f r')
    (other : f.links = false) : r'.Detached :=
  detached.wrote wrote fun _ _ i _ => Field.detached_of_not_links other i

theorem Detached.inherit {p : Record} (detached : r.Detached) (source : p.Detached)
    (merges : f.merges = true) (done : r.inherit f p = .ok r') : r'.Detached := by
  obtain ⟨wrote, current, v, holds, offered, merged⟩ :=
    wrote_inherit detached.typed source.typed merges done
  refine detached.wrote wrote fun items held i member => ?_
  rcases Value.mem_merged (Except.ok.inj (merged.symm.trans held)) member with
    ⟨own, rfl, inside⟩ | ⟨more, rfl, inside⟩
  · exact detached.items f own holds i inside
  · exact source.items f more offered i inside

theorem Detached.aliased (detached : r.Detached) : r.aliased = [] := by
  have none := detached.items .aliased _ rfl
  cases listed : r.aliased with
  | nil => rfl
  | cons u rest => exact (none (.reference u) (by simp [listed])).elim

theorem Detached.usedBy (detached : r.Detached) : r.usedBy = [] := by
  have none := detached.items .usedBy _ rfl
  cases listed : r.usedBy with
  | nil => rfl
  | cons u rest => exact (none (.ofUsage u) (by simp [listed])).elim

theorem Detached.requires (detached : r.Detached) : ∀ e ∈ r.requires, e.item = none :=
  fun e member => detached.items .require _ rfl (.require e) (List.mem_map_of_mem member)

theorem Detached.sees (detached : r.Detached) : ∀ e ∈ r.sees, e.item = none :=
  fun e member => detached.items .see _ rfl (.see e) (List.mem_map_of_mem member)

end Record

namespace Tag

theorem item_of_readSee {raw : String} {e : See} (read : readSee raw = .ok e) : e.item = none := by
  simp only [readSee] at read
  split at read
  · cases read
  · split at read
    · cases read
    · split at read
      · obtain ⟨kind, _, read⟩ := bind_eq_ok.mp read
        cases read
        rfl
      · cases read
        rfl

variable {r r' : Record} {raw : String}

theorem detached_parse_see (detached : r.Detached) (wrote : r.Wrote .see r')
    (done : storing readSee (listing .see .see fun e r => { r with sees := r.sees ++ [e] }) raw r =
      .ok r') : r'.Detached := by
  obtain ⟨e, read, done⟩ := storing_ok done
  rw [listing, detached.typed.adding] at done
  cases done
  refine detached.wrote wrote fun items held => ?_
  cases held
  refine List.forall_mem_map.mpr fun e' member => ?_
  rcases List.mem_append.mp member with old | new
  · exact detached.sees e' old
  · cases List.mem_singleton.mp new
    exact item_of_readSee read

theorem detached_parse_require (detached : r.Detached) (wrote : r.Wrote .require r')
    (done : storing readRequire addRequire raw r = .ok r') : r'.Detached := by
  refine detached.wrote wrote fun items held => ?_
  cases held
  refine List.forall_mem_map.mpr fun e member => ?_
  rcases mem_requires_parse detached.typed done member with old | read
  · exact detached.requires e old
  · exact (readRequire_ok read).1

theorem detached_autofill_require (detached : r.Detached) (wrote : r.Wrote .require r')
    (done : Extractor.runAutofill r require = .ok r') : r'.Detached := by
  refine detached.wrote wrote fun items held => ?_
  cases held
  refine List.forall_mem_map.mpr fun e member => ?_
  rcases mem_requires_autofill detached.typed done member with old | used
  · exact detached.requires e old
  · obtain ⟨use, _, _, rfl⟩ := mem_usedRecords_iff.mp used
    exact rfl

/-- The builtin tags that write where linking does. -/
theorem eq_of_links {c : Config} {a : Tag} (member : a ∈ builtins c) (links : a.place.links = true) :
    a = require ∨ a = see := by
  have linking : ((builtins c).map place).filter Field.links = [.require, .see] := rfl
  have place : a.place ∈ ((builtins c).map place).filter Field.links :=
    List.mem_filter.mpr ⟨List.mem_map_of_mem member, links⟩
  rw [linking] at place
  rcases List.mem_cons.mp place with same | last
  · exact Or.inl (eq_require member same)
  · exact Or.inr (eq_of_place member (by simp [builtins]) (List.mem_singleton.mp last))

end Tag

namespace Extractor

variable {x : Extractor} {c : Config} {a : Tag} {r r' : Record}

theorem detached_parse (member : a ∈ Tag.builtins c) {step : String → Record → Except Failure Record}
    (parses : a.parse = some step) {raw : String} (detached : r.Detached)
    (done : step raw r = .ok r') : r'.Detached := by
  have wrote := (Tag.confined_builtins c a member).parse step parses raw r r' detached.typed done
  by_cases links : a.place.links = true
  · rcases Tag.eq_of_links member links with rfl | rfl <;> cases parses
    · exact Tag.detached_parse_require detached wrote done
    · exact Tag.detached_parse_see detached wrote done
  · exact detached.wrote_elsewhere wrote (Bool.eq_false_iff.mpr links)

theorem detached_applyTag (standard : x.IsBuiltin c) {poster : Bool} {line : Int} {item : Tagged}
    (detached : r.Detached) (done : (x.applyTag poster line r item).result = .ok r') :
    r'.Detached := by
  rcases applyTag_ok done with rfl | kept | ⟨a, step, m, found, _, parses, parsed, marked⟩
  · exact detached
  · exact detached.wrote_elsewhere (wrote_keepUnknown detached.typed kept) rfl
  · have member : a ∈ Tag.builtins c := standard.listed ▸ Registry.mem_of_get? found
    have parsed := detached_parse member parses detached parsed
    exact parsed.wrote_elsewhere (Record.wrote_mark parsed.typed marked).1 rfl

theorem detached_runAutofill (member : a ∈ Tag.builtins c) (detached : r.Detached)
    (done : runAutofill r a = .ok r') : r'.Detached := by
  have wrote := (Tag.confined_builtins c a member).autofill r r' detached.typed done
  by_cases links : a.place.links = true
  · rcases Tag.eq_of_links member links with rfl | rfl
    · exact Tag.detached_autofill_require detached wrote done
    · cases done
      exact detached
  · exact detached.wrote_elsewhere wrote (Bool.eq_false_iff.mpr links)

theorem detached_applyFallback (member : a ∈ Tag.builtins c) (detached : r.Detached)
    (done : applyFallback r a = .ok r') : r'.Detached := by
  by_cases links : a.place.links = true
  · rcases Tag.eq_of_links member links with rfl | rfl <;> cases done <;> exact detached
  · have wrote := (Tag.confined_builtins c a member).fallback r r' detached.typed done
    exact detached.wrote_elsewhere wrote (Bool.eq_false_iff.mpr links)

theorem detached_takeOver (standard : x.IsBuiltin c) {p : Record} {name : String}
    (source : p.Detached) (detached : r.Detached) (done : x.takeOver p r name = .ok r') :
    r'.Detached := by
  rcases takeOver_ok done with rfl | ⟨a, f, m, found, field, _, _, inherits, added⟩
  · exact detached
  · have member : a ∈ Tag.builtins c := standard.listed ▸ Registry.mem_of_get? found
    have taken := detached.inherit source (Tag.merges_builtins c a member f field).1 inherits
    exact taken.wrote_elsewhere (Record.wrote_addTag taken.typed added).1 rfl

/-- A new record is detached, and every step of extraction leaves it so. -/
theorem IsBuiltin.maintains_detached (standard : x.IsBuiltin c) :
    x.Maintains Record.Detached Record.Detached where
  start b file := by
    refine ⟨rfl, fun f items holds => ?_⟩
    cases merges : f.merges with
    | false => exact absurd rfl ((Record.solid_of_not_merges (r := blank b file) rfl merges holds).2 items)
    | true =>
      have empty : (blank b file).own f = .ok f.empty := Record.own_blank merges
      rw [holds, Field.empty] at empty
      split at empty <;> cases empty
      exact List.forall_mem_nil _
  tag _ _ _ _ _ detached done := detached_applyTag standard detached done
  signature r r' detached done := by
    obtain ⟨change, rfl⟩ := fillSignatureDefaults_ok detached.typed done
    exact detached.wrote_elsewhere (f := .parameter) (Record.wrote_put detached.typed) rfl
  filling a member _ _ detached done := detached_runAutofill (standard.filling a member).1 detached done
  poster _ _ _ _ _ source detached done := detached_takeOver standard source detached done
  fallback _ member _ _ detached done := detached_applyFallback (standard.listed ▸ member) detached done

end Extractor

end SheetDoc
