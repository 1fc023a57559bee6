/-!
# Settings of an external generator
-/

namespace Reserved

/-- How an external generator is called, and what its output is made into. -/
structure GeneratorConfig where
  /-- The program to run; absent, it is looked for. -/
  program : Option String
  /-- How often the generator varies its hash function. -/
  iterations : Nat
  extraFlags : List String
  /-- Type of the `kind` field in the generated code. -/
  kindType : String
  /-- What the generated lookup returns for a word that is no keyword. -/
  sentinel : String
  /-- The header that declares the type. -/
  headerInclude : String
  deriving DecidableEq, Repr

def GeneratorConfig.standard : GeneratorConfig where
  program := none
  iterations := 100
  extraFlags := []
  kindType := "token::type"
  sentinel := "token::type::Ident"
  headerInclude := "token.hpp"

/-- The arguments a generator is called with. -/
def GeneratorConfig.arguments (cfg : GeneratorConfig) : List String :=
  s!"--multiple-iterations={cfg.iterations}" :: cfg.extraFlags

/-- The structure whose instances the generated lookup points to. -/
def entryStruct : String := "keyword_hash_entry"

end Reserved
