import Reserved.Generator.Config
import Reserved.Spec.Basic

/-!
# Input of an external generator

Declarations, then the keyword section with one entry on a line. It is a keyword file in
its own right and spells the specification it was made from.
-/

namespace Reserved

namespace GeneratorConfig

def renderDeclarations (cfg : GeneratorConfig) : String :=
  "%\x7b\n"
    ++ s!"#include \"{cfg.headerInclude}\"\n"
    ++ "#include <cstring>\n"
    ++ "%\x7d\n"
    ++ "%language=C++\n"
    ++ "%struct-type\n"
    ++ "%readonly-tables\n"
    ++ "%global-table\n"
    ++ "%compare-lengths\n"
    ++ "%define class-name perfect_hash\n"
    ++ "%define lookup-function-name get_token\n"
    ++ s!"struct {entryStruct} \x7b const char* name; {cfg.kindType} kind; \x7d;\n"

def renderEntry (cfg : GeneratorConfig) (e : KeywordEntry) : String :=
  s!"{e.text}, {cfg.kindType}::{e.kind.name}\n"

/-- What the generator is given to read. -/
def inputText (cfg : GeneratorConfig) (spec : KeywordSpec) : String :=
  cfg.renderDeclarations ++ "%%\n" ++ String.join (spec.entries.map cfg.renderEntry) ++ "%%\n"

end GeneratorConfig

end Reserved
