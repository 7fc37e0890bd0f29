namespace SheetDoc

inductive Level
  | warning
  | error
  | notice
  deriving DecidableEq, Repr

def Level.word : Level → String
  | warning => "warning"
  | error => "error"
  | notice => "notice"

structure Event where
  level : Level
  /-- What the event is about: syntax, resolution, cycle, file or fatal. -/
  kind : String
  message : String
  file : Option String := none
  line : Option Int := none
  deriving DecidableEq, Repr

namespace Event

/-- A recoverable problem. -/
def warning (kind message : String) (file : Option String) (line : Option Int) : Event :=
  ⟨.warning, kind, message, file, line⟩

/-- Something worth knowing that is not a problem. -/
def notice (kind message : String) (file : Option String) (line : Option Int) : Event :=
  ⟨.notice, kind, message, file, line⟩

/-- A problem that ends the run. -/
def fatal (message : String) (file : Option String) (line : Option Int) : Event :=
  ⟨.error, "fatal", message, file, line⟩

/-- The message with its place, when known. A line counts only with a file, and neither an empty
file name nor line zero is a place. -/
def text (e : Event) : String :=
  match e.file, e.line with
  | some file, some line =>
    if file = "" then e.message
    else if line = 0 then e.message ++ " (" ++ file ++ ")"
    else e.message ++ " (" ++ file ++ ":" ++ toString line ++ ")"
  | some file, none => if file = "" then e.message else e.message ++ " (" ++ file ++ ")"
  | none, _ => e.message

end Event

/-- The events of a run in order, and what a listener on the channel was handed. -/
structure Channel where
  events : List Event := []
  heard : Option (List Event) := none

namespace Channel

def emit (c : Channel) (e : Event) : Channel :=
  { events := c.events ++ [e], heard := c.heard.map (· ++ [e]) }

def ofLevel (c : Channel) (level : Level) : List Event := c.events.filter (·.level == level)

def ofKind (c : Channel) (kind : String) : List Event := c.events.filter (·.kind == kind)

end Channel

end SheetDoc
