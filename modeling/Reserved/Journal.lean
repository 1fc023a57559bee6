/-!
# Journals

What a run leaves behind besides its result: the lines it logs, and the generators it
starts.
-/

namespace Reserved

inductive Level
  | debug
  | info
  | warn
  deriving DecidableEq, Repr

structure LogLine where
  level : Level
  text : String
  /-- Whether the time that something took belongs at the end of the line. -/
  timed : Bool
  deriving DecidableEq, Repr

/-- A start of an external generator. -/
structure Invocation where
  /-- What the interpreters of its file put before the arguments. -/
  leading : List String
  arguments : List String
  /-- What it read from its standard input, if it did read. -/
  input : Option String
  deriving DecidableEq, Repr

structure Journal where
  logs : List LogLine
  invocations : List Invocation
  deriving DecidableEq, Repr

namespace Journal

def empty : Journal := ⟨[], []⟩

def log (j : Journal) (level : Level) (text : String) : Journal :=
  { j with logs := j.logs ++ [⟨level, text, false⟩] }

/-- Logs a line that ends with the time something took. -/
def logTimed (j : Journal) (level : Level) (text : String) : Journal :=
  { j with logs := j.logs ++ [⟨level, text, true⟩] }

def invoke (j : Journal) (i : Invocation) : Journal :=
  { j with invocations := j.invocations ++ [i] }

/-- Logging starts nothing. -/
@[simp]
theorem invocations_log (j : Journal) (level : Level) (text : String) :
    (j.log level text).invocations = j.invocations := rfl

@[simp]
theorem invocations_logTimed (j : Journal) (level : Level) (text : String) :
    (j.logTimed level text).invocations = j.invocations := rfl

@[simp]
theorem invocations_invoke (j : Journal) (i : Invocation) :
    (j.invoke i).invocations = j.invocations ++ [i] := rfl

end Journal

/-- Work that may fail and keeps a journal, also of what came before a failure. -/
abbrev Work (ε α : Type) := ExceptT ε (StateM Journal) α

end Reserved
