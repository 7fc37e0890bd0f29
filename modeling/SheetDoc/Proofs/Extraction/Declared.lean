import SheetDoc.Proofs.Extraction.Defaults
import SheetDoc.Proofs.Extraction.Posters
import SheetDoc.Proofs.Extraction.Requirements
import SheetDoc.Proofs.Extraction.Said

namespace SheetDoc

/-- A record that lists what its comment declares and what its code suggests, each key once. -/
structure Record.Lists (declared suggested : List Require) (r : Record) : Prop where
  typed : r.Typed
  has : r.has Tag.require.name = !declared.isEmpty
  requires : r.requires = mergeNew Require.same [] (declared ++ suggested)

/-- A record lists a requirement as a declared one. -/
def Record.Demands (r : Record) (e : Require) : Prop :=
  ∃ e' ∈ r.requires, e'.key = e.key ∧ e'.autofill = false

theorem Tag.owns_require (c : Config) : Tag.require.Owns c .require := ⟨require_mem, rfl⟩

theorem Tag.shared_require (c : Config) : Tag.require.Shared c .require := ⟨owns_require c, rfl, nofun⟩

namespace Record

variable {declared suggested : List Require} {c : Config} {v? : Option Require} {r r' : Record}

theorem lists_blank (b : Block) (file : FileRef) : (Extractor.blank b file).Lists [] [] := ⟨rfl, rfl, rfl⟩

theorem Keeps.requires {a : Tag} (keeps : r.Keeps a .require r') : r'.requires = r.requires :=
  requires_of_own keeps.own

theorem Lists.keeps (lists : r.Lists declared suggested) (keeps : r.Keeps Tag.require .require r') :
    r'.Lists declared suggested where
  typed := keeps.typed
  has := keeps.has.trans lists.has
  requires := keeps.requires.trans lists.requires

/-- A comment declares one requirement after the other. -/
theorem Lists.hears (lists : r.Lists declared [])
    (hears : Extractor.Hears Tag.require .require Tag.addRequire v? r r') :
    r'.Lists (declared ++ v?.toList) [] := by
  cases v? with
  | none => exact (List.append_nil declared).symm ▸ lists.keeps hears
  | some e =>
    obtain ⟨m, added, marked⟩ := hears
    cases (Tag.addRequire_of_typed lists.typed e).symm.trans added
    have typed : Record.Typed { r with requires := mergeNew Require.same r.requires [e] } := lists.typed
    obtain ⟨tagged, has⟩ := wrote_mark typed marked
    refine ⟨tagged.typed, by simp [has], ?_⟩
    rw [tagged.requires nofun, lists.requires, List.append_nil, List.append_nil, mergeNew_append]
    rfl

/-- The code adds what it suggests. -/
theorem Lists.fills (lists : r.Lists declared suggested) (inside : Tag.require ∈ Tag.builtins c)
    (done : Extractor.runAutofill r Tag.require = .ok r') :
    ∃ found, Tag.suggestedRequires r = .ok found ∧ r'.Lists declared (suggested ++ found) := by
  have wrote := (Tag.confined_builtins c _ inside).autofill r r' lists.typed done
  obtain ⟨found, suggests, requires⟩ := Tag.requires_autofill lists.typed done
  refine ⟨found, suggests, wrote.typed, (wrote.has nofun _).trans lists.has, ?_⟩
  rw [requires, lists.requires, ← mergeNew_append, List.append_assoc]

/-- What a comment declares stays, and no suggestion takes its place. -/
theorem Lists.demands (lists : r.Lists declared suggested)
    (explicit : ∀ e ∈ declared, e.autofill = false) {e : Require} (member : e ∈ declared) :
    r.Demands e := by
  have listed : ∃ e' ∈ mergeNew Require.same [] declared, e.same e' = true :=
    exists_mem_mergeNew (fun e => Require.same_iff.mpr rfl) member
  obtain ⟨e', inside, alike⟩ := listed
  rw [Demands, lists.requires, mergeNew_append]
  refine ⟨e', prefix_mergeNew.subset inside, (Require.same_iff.mp alike).symm, ?_⟩
  exact (mem_mergeNew inside).elim nofun fun new => explicit e' new.1

/-- Without a comment that declares anything, there are only suggestions. -/
theorem Lists.suggests (lists : r.Lists [] suggested) (suggests : ∀ e ∈ suggested, e.autofill = true) :
    ∀ e ∈ r.requires, e.autofill = true := by
  intro e listed
  rw [lists.requires] at listed
  exact (mem_mergeNew listed).elim nofun fun new => suggests e new.1

/-- What a poster declares behind suggestions is listed as declared where nothing of the key is
suggested. -/
theorem demands_iff_of_merged {given : List Require} (suggests : ∀ e ∈ r.requires, e.autofill = true)
    (explicit : ∀ e ∈ given, e.autofill = false)
    (merged : r'.requires = mergeNew Require.same r.requires (mergeNew Require.same [] given))
    {e : Require} (member : e ∈ given) : r'.Demands e ↔ ∀ e' ∈ r.requires, e'.key ≠ e.key := by
  have alike : ∀ e : Require, e.same e = true := fun _ => Require.same_iff.mpr rfl
  rw [Demands, merged]
  constructor
  · rintro ⟨e', listed, key, declared⟩ e'' inside key'
    rcases mem_mergeNew listed with old | ⟨_, apart⟩
    · simp [suggests e' old] at declared
    · have same : e'.same e'' = true := Require.same_iff.mpr (key.trans key'.symm)
      simp [apart e'' inside] at same
  · intro apart
    have offered : ∃ e₁ ∈ mergeNew Require.same [] given, e.same e₁ = true :=
      exists_mem_mergeNew alike member
    obtain ⟨e₁, once, same₁⟩ := offered
    have taken : ∃ e₂ ∈ mergeNew Require.same r.requires (mergeNew Require.same [] given),
        e₁.same e₂ = true := exists_mem_mergeNew alike once
    obtain ⟨e₂, listed, same₂⟩ := taken
    have key : e₂.key = e.key := ((Require.same_iff.mp same₁).trans (Require.same_iff.mp same₂)).symm
    refine ⟨e₂, listed, key, ?_⟩
    rcases mem_mergeNew listed with old | new
    · exact absurd key (apart e₂ old)
    · exact (mem_mergeNew new.1).elim nofun fun given => explicit e₂ given.1

end Record

namespace Extractor

open Record

variable {x : Extractor} {c : Config} {b : Block} {file : FileRef} {r r' : Record}

/-- The requirements that the comment of a block declares. -/
def declares (x : Extractor) (b : Block) : List Require := x.said "require" readRequire b

/-- The requirements of the first block that declares any. -/
def firstDeclared (x : Extractor) (bs : List Block) : List Require :=
  ((bs.map x.declares).find? (!·.isEmpty)).getD []

theorem explicit_of_declares {e : Require} (member : e ∈ x.declares b) : e.autofill = false := by
  obtain ⟨raw, read⟩ := mem_said member
  exact (Tag.readRequire_ok read).2

theorem explicit_of_firstDeclared {bs : List Block} {e : Require} (member : e ∈ x.firstDeclared bs) :
    e.autofill = false := by
  unfold firstDeclared at member
  cases found : (bs.map x.declares).find? (!·.isEmpty) with
  | none =>
    rw [found] at member
    cases member
  | some es =>
    obtain ⟨b, _, rfl⟩ := List.mem_map.mp (List.mem_of_find?_eq_some found)
    rw [found] at member
    exact explicit_of_declares member

/-- A comment lists what it declares. -/
theorem lists_applyTags (standard : x.IsBuiltin c)
    (tagged : (x.applyTags b.poster b.commentStart (blank b file)
      (foldExamples x.registry (Comment.ofText b.comment).items)).result = .ok r) :
    r.Lists (x.declares b) [] :=
  tags_said (P := fun vs r => r.Lists vs []) standard (Tag.owns_require c) (by simp [Tag.require]) rfl rfl
    (fun _ _ lists => lists.typed) (fun _ _ _ _ lists hears => lists.hears hears) (lists_blank b file)
    tagged

/-- The draft of a block lists what its comment declares and what its code suggests. A poster has no
code. -/
theorem lists_extract (standard : x.IsBuiltin c) (done : (x.extract b file).result = .ok (some r)) :
    ∃ suggested, (∀ e ∈ suggested, e.autofill = true) ∧ (b.poster = true → suggested = []) ∧
      r.Lists (x.declares b) suggested := by
  have owns := Tag.owns_require c
  obtain ⟨m, tagged, rest⟩ := extract_ok done
  have lists := lists_applyTags standard tagged
  split at rest
  · exact ⟨[], List.forall_mem_nil _, fun _ => rfl, rest ▸ lists⟩
  · rename_i code
    obtain ⟨n, filled, autofilled⟩ := rest
    have filled := lists.keeps (fillSignatureDefaults_keeps owns nofun lists.typed filled)
    obtain ⟨suggested, suggests, lists⟩ := foldlM_keeps
      (P := fun r => ∃ suggested, (∀ e ∈ suggested, e.autofill = true) ∧
        r.Lists (x.declares b) suggested)
      (fun a member r r' done before => by
        obtain ⟨suggested, suggests, lists⟩ := before
        obtain ⟨inside, _⟩ := standard.filling a member
        by_cases same : a = Tag.require
        · subst same
          obtain ⟨found, used, lists⟩ := lists.fills inside done
          exact ⟨_, List.forall_mem_append.mpr ⟨suggests, fun e => Tag.autofill_of_suggested used⟩, lists⟩
        · exact ⟨suggested, suggests, lists.keeps (runAutofill_keeps owns lists.typed inside same done)⟩)
      autofilled ⟨[], List.forall_mem_nil _, filled⟩
    exact ⟨suggested, suggests, fun poster => absurd poster code, lists⟩

/-- The poster that speaks for a record lists what the first of the posters to declare anything does. -/
theorem find?_lists (standard : x.IsBuiltin c) {bs : List Block} {ps : List Record}
    (posters : ∀ b ∈ bs, b.poster = true)
    (made : List.Forall₂ (fun b p => (x.extract b file).result = .ok (some p)) bs ps) :
    (ps.find? (·.has Tag.require.name)).elim (x.firstDeclared bs = []) fun p =>
      p.requires = mergeNew Require.same [] (x.firstDeclared bs) := by
  induction made with
  | nil => rfl
  | @cons b p bs ps done _ ih =>
    obtain ⟨here, later⟩ := List.forall_mem_cons.mp posters
    obtain ⟨suggested, _, silent, lists⟩ := lists_extract standard done
    cases silent here
    rw [List.find?_cons, lists.has]
    cases said : x.declares b with
    | nil =>
      have next : x.firstDeclared (b :: bs) = x.firstDeclared bs := by simp [firstDeclared, said]
      rw [next]
      exact ih later
    | cons e es =>
      have first : x.firstDeclared (b :: bs) = x.declares b := by simp [firstDeclared, said]
      change p.requires = mergeNew Require.same [] (x.firstDeclared (b :: bs))
      rw [first, ← List.append_nil (x.declares b)]
      exact lists.requires

/-- A record whose comment declares nothing has behind its suggestions what the first poster to declare
anything does, and no other record takes over from a poster. -/
theorem completes_requires (standard : x.IsBuiltin c) {bs : List Block} {ps : List Record}
    {declared suggested : List Require} (posters : ∀ b ∈ bs, b.poster = true)
    (made : List.Forall₂ (fun b p => (x.extract b file).result = .ok (some p)) bs ps)
    (lists : r.Lists declared suggested) (completes : x.Completes ps r r') :
    r'.requires = mergeNew Require.same r.requires
      (if declared.isEmpty then mergeNew Require.same [] (x.firstDeclared bs) else []) := by
  have owns := Tag.owns_require c
  obtain ⟨m, merged, completed⟩ := completes
  have follows := mergePosters_follows standard (Tag.shared_require c) lists.typed
    (familiar_of_extracts standard made) merged
  have keeps := applyFallbacks_keeps standard owns follows.typed (Or.inl rfl) completed
  rw [keeps.requires]
  have allows : Tag.require.allowsKind r.kind = true := rfl
  have lacks : r.lacks Tag.require = declared.isEmpty := by
    rw [Record.lacks, lists.has, allows, Bool.not_not, Bool.and_true]
  rw [speaker, lacks] at follows
  have first := find?_lists standard posters made
  cases declared with
  | cons e es =>
    have keeps : r.Keeps Tag.require .require m := follows
    exact keeps.requires
  | nil =>
    cases spoken : ps.find? (·.has Tag.require.name) with
    | none =>
      rw [spoken] at first follows
      have keeps : r.Keeps Tag.require .require m := follows
      have silent : x.firstDeclared bs = [] := first
      rw [silent]
      exact keeps.requires
    | some p =>
      rw [spoken] at first follows
      have adopts : p.Adopts Tag.require .require r m := follows
      have given : p.requires = mergeNew Require.same [] (x.firstDeclared bs) := first
      obtain ⟨current, v, holds, offered, merged⟩ := adopts.own
      cases holds
      cases offered
      exact given ▸ requires_of_merged merged

end Extractor

end SheetDoc
