import SheetDoc.Proofs.Data.Comparison
import SheetDoc.Proofs.Record.Typed

namespace SheetDoc

open Data

section

variable {agree : Data → Data → Prop} (compares : Compares agree)

include compares

theorem faithful_context : Faithful agree Context.toData := by
  intro c d agreed
  have text := (faithful_text compares).at_name compares agreed
  have optional := (faithful_optional compares).at_name compares agreed
  have line := (faithful_line compares).at_name compares agreed
  have kind := Kind.word_injective (text "type" rfl rfl)
  have name := text "name" rfl rfl
  have value := optional "value" rfl rfl
  have scope := optional "scope" rfl rfl
  have code := text "code" rfl rfl
  have lineStart := line "line_start" rfl rfl
  have lineEnd := line "line_end" rfl rfl
  cases c
  cases d
  simp only [Context.mk.injEq]
  exact ⟨kind, name, value, scope, code, lineStart, lineEnd⟩

theorem faithful_file : Faithful agree FileRef.toData := by
  intro f g agreed
  have text := (faithful_text compares).at_name compares agreed
  have path := text "path" rfl rfl
  have name := text "name" rfl rfl
  cases f
  cases g
  simp only [FileRef.mk.injEq]
  exact ⟨path, name⟩

theorem faithful_reference : Faithful agree Reference.toData := by
  intro r s agreed
  have text := (faithful_text compares).at_name compares agreed
  have uid := (faithful_int compares).at_name compares agreed "uid" rfl rfl
  have kind := Kind.word_injective (text "type" rfl rfl)
  have name := text "name" rfl rfl
  cases r
  cases s
  simp only [Reference.mk.injEq]
  exact ⟨uid, kind, name⟩

theorem faithful_reference? : Faithful agree Reference.toData? := by
  have written : Reference.toData? = fun o => (o.map Reference.toData).getD .null := by
    funext o
    cases o <;> rfl
  rw [written]
  exact (faithful_reference compares).option compares fun _ => rfl

/-- The mark of a cut is a text, and a user is not. -/
theorem faithful_usage : Faithful agree Usage.toData := by
  intro u v agreed
  cases u with
  | user r =>
    cases v with
    | user s => exact congrArg Usage.user (faithful_reference compares r s agreed)
    | circular => nomatch compares _ _ agreed
  | circular =>
    cases v with
    | user s => nomatch compares _ _ agreed
    | circular => rfl

theorem faithful_parameter : Faithful agree Parameter.toData := by
  intro p q agreed
  have text := (faithful_text compares).at_name compares agreed
  have optional := (faithful_optional compares).at_name compares agreed
  have name := text "name" rfl rfl
  have type := optional "type" rfl rfl
  have description := text "description" rfl rfl
  have value := optional "default" rfl rfl
  cases p
  cases q
  simp only [Parameter.mk.injEq]
  exact ⟨name, type, description, value⟩

theorem faithful_property : Faithful agree Property.toData := by
  intro p q agreed
  have text := (faithful_text compares).at_name compares agreed
  have optional := (faithful_optional compares).at_name compares agreed
  have path := text "path" rfl rfl
  have type := optional "type" rfl rfl
  have value := optional "default" rfl rfl
  have description := text "description" rfl rfl
  cases p
  cases q
  simp only [Property.mk.injEq]
  exact ⟨path, type, value, description⟩

theorem faithful_return : Faithful agree Return.toData := by
  intro r s agreed
  have text := (faithful_text compares).at_name compares agreed
  have type := text "type" rfl rfl
  have description := text "description" rfl rfl
  cases r
  cases s
  simp only [Return.mk.injEq]
  exact ⟨type, description⟩

theorem faithful_since : Faithful agree Since.toData := by
  intro a b agreed
  have version := (faithful_optional compares).at_name compares agreed "version" rfl rfl
  have description := (faithful_text compares).at_name compares agreed "description" rfl rfl
  cases a
  cases b
  simp only [Since.mk.injEq]
  exact ⟨version, description⟩

theorem faithful_link : Faithful agree Link.toData := by
  intro l k agreed
  have text := (faithful_text compares).at_name compares agreed
  have url := text "url" rfl rfl
  have caption := text "caption" rfl rfl
  cases l
  cases k
  simp only [Link.mk.injEq]
  exact ⟨url, caption⟩

theorem faithful_example : Faithful agree Example.toData := by
  intro e d agreed
  have text := (faithful_text compares).at_name compares agreed
  have code := text "code" rfl rfl
  have type := (faithful_optional compares).at_name compares agreed "type" rfl rfl
  have description := text "description" rfl rfl
  cases e
  cases d
  simp only [Example.mk.injEq]
  exact ⟨code, type, description⟩

theorem faithful_see : Faithful agree See.toData := by
  intro e d agreed
  have name := (faithful_text compares).at_name compares agreed "name" rfl rfl
  have word := (faithful_optional compares).at_name compares agreed "type" rfl rfl
  have kind := Option.map_injective (fun _ _ => Kind.word_injective) word
  have item := (faithful_reference? compares).at_name compares agreed "item" rfl rfl
  cases e
  cases d
  simp only [See.mk.injEq]
  exact ⟨name, kind, item⟩

theorem faithful_require : Faithful agree Require.toData := by
  intro e d agreed
  have text := (faithful_text compares).at_name compares agreed
  have name := text "name" rfl rfl
  have kind := Kind.word_injective (text "type" rfl rfl)
  have autofill := (faithful_bool compares).at_name compares agreed "autofill" rfl rfl
  have description := text "description" rfl rfl
  have url := (faithful_optional compares).at_name compares agreed "url" rfl rfl
  have item := (faithful_reference? compares).at_name compares agreed "item" rfl rfl
  cases e
  cases d
  simp only [Require.mk.injEq]
  exact ⟨name, kind, autofill, description, url, item⟩

end

namespace Record

variable {r s : Record}

theorem Typed.unwritable (typed : r.Typed) : r.unwritable = .ok () := by
  simp only [Record.unwritable, typed.canDo, typed.get?]
  rfl

/-- The data of a field is that of its own value. -/
theorem Typed.allFields (typed : r.Typed) : r.allFields = r.ownFields.map (·.2) := by
  refine List.map_congr_left fun ⟨f, name, own⟩ _ => congrArg (name, ·) ?_
  unfold shown
  rw [typed.get?]

theorem keys_ownFields (r s : Record) :
    Assoc.keys (r.ownFields.map (·.2)) = Assoc.keys (s.ownFields.map (·.2)) := rfl

theorem nodup_ownFields (r : Record) : (Assoc.keys (r.ownFields.map (·.2))).Nodup := by
  have names : Assoc.keys (r.ownFields.map (·.2)) =
      ["context", "file", "description", "comment_line", "uid", "group", "group_description", "access",
        "deprecated", "since", "author", "link", "see", "todo", "type", "ignore", "parameter", "property",
        "return", "content", "output", "throw", "example", "alias", "aliased", "require", "used_by",
        "unknown", "extra", "annotations"] := rfl
  rw [names]
  decide

/-- The unknown words of a record with their values, as data. -/
def unknownData (r : Record) : Assoc String Data := r.unknown.map fun e => (e.1, Data.texts e.2)

/-- Two records are equal in every field. Mappings are equal whatever the order of their entries. -/
structure Equal (r s : Record) : Prop where
  fields : { r with unknown := s.unknown, extra := s.extra } = s
  unknown : Assoc.Agrees (· = ·) r.unknown s.unknown
  extra : Assoc.Agrees (fun v w => v.same w = true) r.extra s.extra

/-- All but the mappings of a record can be told from its data, and the mappings agree as their data does. -/
theorem eq_of_toData {agree : Data → Data → Prop} (compares : Compares agree) (typed : r.Typed)
    (typed' : s.Typed) (agreed : agree (.fields r.toData) (.fields s.toData)) :
    { r with unknown := s.unknown, extra := s.extra } = s ∧
      AgreesOrVoid agree (.fields r.unknownData) (.fields s.unknownData) ∧
      AgreesOrVoid agree (.fields r.extra) (.fields s.extra) := by
  rw [toData, toData, typed.allFields, typed'.allFields] at agreed
  have part := @agreesOrVoid_of_filter _ compares _ _ (keys_ownFields r s) (nodup_ownFields r) agreed
  have told {α : Type} {write : α → Data} (faithful : Faithful agree write) (apart : AtMostOneVoid write)
      (name : String) {a b : α} (here : Assoc.get? (r.ownFields.map (·.2)) name = some (write a))
      (there : Assoc.get? (s.ownFields.map (·.2)) name = some (write b)) : a = b :=
    faithful.eq_of_agreesOrVoid apart (part name here there)
  have text := told (faithful_text compares) (atMostOneVoid_of_solid fun _ => rfl)
  have int := told (faithful_int compares) (atMostOneVoid_of_solid fun _ => rfl)
  have optional := told (faithful_optional compares) (optional_eq ▸ atMostOneVoid_option fun _ => rfl)
  have list {α : Type} {write : α → Data} (each : Faithful agree write) :=
    told (each.list compares) atMostOneVoid_list
  have texts := list (faithful_text compares)
  have context := told (faithful_context compares) (atMostOneVoid_of_solid fun _ => rfl) "context" rfl rfl
  have file := told (faithful_file compares) (atMostOneVoid_of_solid fun _ => rfl) "file" rfl rfl
  have returns := told ((faithful_return compares).option compares fun _ => rfl)
    (atMostOneVoid_option fun _ => rfl) "return" rfl rfl
  refine ⟨?_, part "unknown" rfl rfl, part "extra" rfl rfl⟩
  have description := text "description" rfl rfl
  have commentLine := int "comment_line" rfl rfl
  have uid := int "uid" rfl rfl
  have group := texts "group" rfl rfl
  have groupDescription := optional "group_description" rfl rfl
  have access := optional "access" rfl rfl
  have deprecated := optional "deprecated" rfl rfl
  have since := list (faithful_since compares) "since" rfl rfl
  have authors := texts "author" rfl rfl
  have links := list (faithful_link compares) "link" rfl rfl
  have sees := list (faithful_see compares) "see" rfl rfl
  have todos := texts "todo" rfl rfl
  have types := texts "type" rfl rfl
  have ignored := texts "ignore" rfl rfl
  have parameters := list (faithful_parameter compares) "parameter" rfl rfl
  have properties := list (faithful_property compares) "property" rfl rfl
  have content := optional "content" rfl rfl
  have output := optional "output" rfl rfl
  have throws := texts "throw" rfl rfl
  have examples := list (faithful_example compares) "example" rfl rfl
  have aliases := texts "alias" rfl rfl
  have aliased := list (faithful_reference compares) "aliased" rfl rfl
  have requires := list (faithful_require compares) "require" rfl rfl
  have usedBy := list (faithful_usage compares) "used_by" rfl rfl
  have tags := texts "annotations" rfl rfl
  have strays : r.strays = s.strays := typed.trans typed'.symm
  cases r
  cases s
  simp only [Record.mk.injEq]
  exact ⟨context, file, description, commentLine, uid, group, groupDescription, access, deprecated, since, authors,
    links, sees, todos, types, ignored, parameters, properties, returns, content, output, throws, examples,
    aliases, aliased, requires, usedBy, trivial, trivial, tags, strays⟩

theorem eq_of_agreesOrVoid {m n : Assoc String Data} (agreed : AgreesOrVoid (· = ·) (.fields m) (.fields n)) :
    m = n := by
  rcases agreed with ⟨void, void'⟩ | same
  · rw [eq_nil_of_isVoid void, eq_nil_of_isVoid void']
  · exact fields_injective same

theorem unknown_of_unknownData (same : r.unknownData = s.unknownData) : r.unknown = s.unknown := by
  refine List.map_injective_iff.mpr (fun e e' same => ?_) same
  obtain ⟨word, values⟩ := Prod.mk.inj same
  exact Prod.ext word (faithful_texts compares_eq _ _ values)

/-- Records whose fields hold values of their types are written as data, and to write them loses nothing: they
are equal in every field when their data is equal, and the same when their data is the same, order and all. -/
theorem toData_lossless (typed : r.Typed) (typed' : s.Typed) :
    r.unwritable = .ok () ∧ s.unwritable = .ok () ∧
      (Data.same (.fields r.toData) (.fields s.toData) = true → r.Equal s) ∧ (r.toData = s.toData → r = s) := by
  refine ⟨typed.unwritable, typed'.unwritable, fun same => ?_, fun same => ?_⟩
  · obtain ⟨fields, unknown, extra⟩ := eq_of_toData compares_same typed typed' same
    have words := (agrees_of_agreesOrVoid compares_same unknown).of_map (faithful_texts compares_same)
    exact ⟨fields, words, agrees_of_agreesOrVoid compares_same extra⟩
  · obtain ⟨fields, unknown, extra⟩ := eq_of_toData compares_eq typed typed' (congrArg Data.fields same)
    have words := unknown_of_unknownData (eq_of_agreesOrVoid unknown)
    rw [← words, ← eq_of_agreesOrVoid extra] at fields
    exact fields

/-- A record of a mixin that is used by a variable and, in a cycle, by itself. -/
def cyclicRecord : Record where
  context := { kind := .mixin, name := "a" }
  file := ⟨"a.scss", "a.scss"⟩
  content := some ""
  sees := [{ name := "b", item := some ⟨1, .var, "b"⟩ }, { name := "c" }]
  usedBy := [.user ⟨1, .var, "b"⟩, .circular]
  unknown := [("x", ["1"]), ("y", [])]
  extra := [("m", .map [(.text "p", .int 1), (.text "q", .list [])]), ("n", .null)]

/-- The same record with its mappings in another order, and a number in place of a truth value. -/
def turnedRecord : Record :=
  { cyclicRecord with
    unknown := [("y", []), ("x", ["1"])]
    extra := [("n", .null), ("m", .map [(.text "q", .list []), (.text "p", .bool true)])] }

theorem toData_lossless_turned :
    cyclicRecord.Typed ∧ turnedRecord.Typed ∧
      Data.same (.fields cyclicRecord.toData) (.fields turnedRecord.toData) = true ∧
      cyclicRecord.Equal turnedRecord ∧ cyclicRecord ≠ turnedRecord := by
  have typed : cyclicRecord.Typed := rfl
  have typed' : turnedRecord.Typed := rfl
  have same : Data.same (.fields cyclicRecord.toData) (.fields turnedRecord.toData) = true := by decide +kernel
  refine ⟨typed, typed', same, (toData_lossless typed typed').2.2.1 same, fun equal => ?_⟩
  have words : cyclicRecord.unknown = turnedRecord.unknown := congrArg unknown equal
  revert words
  decide

end Record

end SheetDoc
