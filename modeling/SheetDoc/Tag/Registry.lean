import SheetDoc.Tag.Builtin

namespace SheetDoc

/-- The tags of a run by name, and the other names that lead to them. -/
structure Registry where
  tags : Assoc String Tag := []
  /-- The tag's own name for each other name. -/
  owners : Assoc String String := []
  frozen : Bool := false

namespace Registry

/-- The tag's own name for a word behind `@`. -/
def canonical? (g : Registry) (word : String) : Option String :=
  if g.tags.has word then some word else g.owners.get? word

def has (g : Registry) (word : String) : Bool := (g.canonical? word).isSome

/-- The tag that a word means. A word whose owner is not registered is a fault. -/
def get? (g : Registry) (word : String) : Except Misuse (Option Tag) :=
  match g.canonical? word with
  | none => .ok none
  | some name =>
    if name = "" then .ok none
    else
      match g.tags.get? name with
      | some a => .ok (some a)
      | none => .error (.unknownKey name)

def names (g : Registry) : List String := g.tags.keys

/-- The tags in the order of their registration. -/
def toList (g : Registry) : List Tag := g.tags.map (·.2)

def freeze (g : Registry) : Registry := { g with frozen := true }

def claimName (g : Registry) (owner other : String) : Registry × Option RegistryFault :=
  if g.tags.has other then (g, some (.aliasIsName other owner))
  else ({ g with owners := g.owners.set other owner }, none)

/-- Lets names lead to a tag, one after another until one is refused. -/
def claimNames (owner : String) : List String → Registry → Registry × Option RegistryFault
  | [], g => (g, none)
  | other :: rest, g =>
    match g.claimName owner other with
    | (g, none) => claimNames owner rest g
    | refused => refused

/-- The registry without the names that lead to the tag of the given name. -/
def releaseNames (g : Registry) (name : String) : Registry :=
  match g.tags.get? name with
  | none => g
  | some previous => { g with owners := previous.aliases.foldl Assoc.erase g.owners }

/-- Adds a tag under a name, in place of an earlier one. A refusal comes with the registry
as it is then: names claimed before the refused one stay claimed. -/
def register (g : Registry) (name : String) (a : Tag) : Registry × Option RegistryFault :=
  if g.frozen then (g, some (.frozen name))
  else
    match g.owners.get? name with
    | some owner => (g, some (.nameIsAlias name owner))
    | none =>
      match claimNames name a.aliases (g.releaseNames name) with
      | (g, none) =>
        ({ g with tags := g.tags.set name { a with name := name } }, none)
      | refused => refused

/-- Adds tags under their own names until one is refused. -/
def registerAll : List Tag → Registry → Registry × Option RegistryFault
  | [], g => (g, none)
  | a :: rest, g =>
    match g.register a.name a with
    | (g, none) => registerAll rest g
    | refused => refused

/-- A registry of the given tags. -/
def ofList (tags : List Tag) : Except RegistryFault Registry :=
  match registerAll tags {} with
  | (g, none) => .ok g
  | (_, some fault) => .error fault

/-- The tags of every run, with further ones. -/
def standard (c : Config) (more : List Tag) : Except RegistryFault Registry := do
  let g ← ofList (Tag.builtins c)
  match registerAll more g with
  | (g, none) => return g
  | (_, some fault) => .error fault

end Registry

end SheetDoc
