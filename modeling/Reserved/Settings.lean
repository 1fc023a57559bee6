import Reserved.Generator.Config
import Reserved.Text.Blank
import Reserved.Text.Numeral
import Reserved.Text.Utf8

/-!
# Settings

What a run is told by its environment: which backend makes the artifact, from what and to
where, and how.
-/

namespace Reserved

/-- What makes the artifact of a keyword file. -/
inductive Backend
  /-- The perfect hash search of this library. -/
  | builtin
  /-- An external generator, whose output is edited. -/
  | external
  deriving DecidableEq, Repr

def Backend.name : Backend → String
  | builtin => "Builtin"
  | external => "Gperf"

inductive SettingsError
  | unknownBackend (name : String)
  | badSeed (text : String)
  | badIterations (text : String) (error : Numeral.Error)
  deriving DecidableEq, Repr

def SettingsError.message : SettingsError → String
  | unknownBackend name => s!"unknown backend `{name}` (expected builtin|gperf)"
  | badSeed text => s!"bad KEYHASH_SEED `{text}`"
  | badIterations text error => s!"bad KEYHASH_ITERATIONS `{text}`: {error.message}"

/-- The backend a name stands for; blanks around it and the case of ASCII letters do not
matter. -/
def Backend.parse (name : String) : Except SettingsError Backend :=
  match String.ofList ((trim name.toList).map Char.toLower) with
  | "builtin" => .ok builtin
  | "gperf" => .ok external
  | other => .error (.unknownBackend other)

/-- The seed a text spells, in decimal or after `0x` in hexadecimal digits. Underscores
between the digits are ignored. -/
def parseSeed? (text : String) : Option UInt64 :=
  let read := fun (base : Nat) (digits : List Char) =>
    ((Numeral.read base UInt64.size (digits.filter (· ≠ '_'))).toOption).map UInt64.ofNat
  match trim text.toList with
  | '0' :: 'x' :: digits => read 16 digits
  | '0' :: 'X' :: digits => read 16 digits
  | digits => read 10 digits

/-- Variables and the bytes they are set to. -/
abbrev Environment := List (String × List UInt8)

namespace Environment

def isSet (env : Environment) (name : String) : Bool :=
  (env.lookup name).isSome

/-- The text a variable is set to; one whose bytes are no UTF-8 counts as not set. -/
def text? (env : Environment) (name : String) : Option String := do
  let bytes ← env.lookup name
  let text ← (Utf8.decode bytes).toOption
  return String.ofList text

/-- The text of a variable that holds more than blanks. -/
def setting? (env : Environment) (name : String) : Option String :=
  (env.text? name).filter fun s => !(trim s.toList).isEmpty

end Environment

structure Settings where
  specPath : String
  outPath : String
  backend : Backend
  /-- Salt of the search: it picks one of the possible tables. -/
  seed : UInt64
  generator : GeneratorConfig
  deriving DecidableEq, Repr

namespace Settings

/-- Where the built-in backend writes if it is told nothing else. -/
def tablePath : String := "tables/keyhash.rs"

/-- Where an external generator's output goes if nothing else is said. -/
def headerPath : String := "tables/keyhash.hpp"

def standard : Settings where
  specPath := "grammar/keywords.gperf"
  outPath := tablePath
  backend := .builtin
  seed := 0
  generator := .standard

def withBackend (s : Settings) (text : Option String) : Except SettingsError Settings :=
  match text with
  | none => .ok s
  | some name => do
    match ← Backend.parse name with
    | .builtin => return { s with backend := .builtin }
    | .external => return { s with backend := .external, outPath := headerPath }

def withSeed (s : Settings) (text : Option String) : Except SettingsError Settings :=
  match text with
  | none => .ok s
  | some text =>
    match parseSeed? text with
    | some seed => .ok { s with seed }
    | none => .error (.badSeed text)

def withIterations (s : Settings) (text : Option String) : Except SettingsError Settings :=
  match text with
  | none => .ok s
  | some text =>
    match Numeral.read 10 UInt32.size text.toList with
    | .ok iterations => .ok { s with generator := { s.generator with iterations } }
    | .error e => .error (.badIterations text e)

/-- What the environment says about the external generator beyond its iterations. -/
def generatorFrom (env : Environment) (cfg : GeneratorConfig) : GeneratorConfig :=
  { cfg with
    program := (env.setting? "GPERF").or cfg.program
    extraFlags :=
      match env.setting? "GPERF_EXTRA_FLAGS" with
      | some flags => (blankSeparated flags.toList).map String.ofList
      | none => cfg.extraFlags
    kindType := (env.setting? "KEYHASH_KIND_TYPE").getD cfg.kindType
    sentinel := (env.setting? "KEYHASH_SENTINEL").getD cfg.sentinel }

/-- The standard settings, overridden by the environment. -/
def ofEnvironment (env : Environment) : Except SettingsError Settings := do
  let s ← standard.withBackend (env.setting? "KEYHASH_BACKEND")
  let s ← s.withSeed (env.setting? "KEYHASH_SEED")
  let s ← s.withIterations (env.setting? "KEYHASH_ITERATIONS")
  return { s with generator := generatorFrom env s.generator }

end Settings

end Reserved
