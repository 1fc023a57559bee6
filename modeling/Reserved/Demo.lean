import Reserved.Scanner
import Reserved.Text.Quoted

/-!
# A demonstration of the scanner

The tokens of a small program with keywords, names, numbers, comments and symbols.
-/

namespace Reserved.Demo

def sample : String :=
  "\n        def fib(n) // naive\n            if n < 2 then n else fib(n - 1) + fib(n - 2);\n"
    ++ "        extern sin(x);\n        let While = 1.5; // not a keyword: case matters\n    "

/-- A token on a line: its kind and its text. -/
def renderToken (src : List Char) (t : Token) : String :=
  s!"{t.kind.name}  {quote (String.ofList ((t.lexeme? src).getD []))}\n"

/-- What the demonstration prints. -/
def output : String :=
  "TOKENS:\n" ++ String.join ((lex sample.toList).map (renderToken sample.toList))

end Reserved.Demo
