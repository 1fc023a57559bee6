import Reserved.Table.Basic

/-!
# The keywords of the scanner

The keyword file of the scanner's language, and the table that words are classified with,
which is what the search makes of that file. What stands above the keyword section of the file
is for its readers.
-/

namespace Reserved

/-- The keyword section, with its delimiters. -/
def keywordLines : String :=
  "%%\n"
    ++ "def, Def\n"
    ++ "extern, Extern\n"
    ++ "if, If\n"
    ++ "then, Then\n"
    ++ "else, Else\n"
    ++ "for, For\n"
    ++ "in, In\n"
    ++ "while, While\n"
    ++ "return, Return\n"
    ++ "let, Let\n"
    ++ "true, True\n"
    ++ "false, False\n"
    ++ "%%\n"

/-- The text of the keyword file, under a heading of comments. -/
def keywordFile (heading : String) : String :=
  heading ++ keywordLines

/-- The committed table. -/
def keywords : StaticTable where
  seed := 0x04e238a9864daf6d
  minLen := 2
  maxLen := 6
  displacements := [(0, 1), (8, 0), (3, 0)]
  slots :=
    [("in", .inWord), ("def", .defWord), ("return", .returnWord), ("true", .trueWord),
      ("while", .whileWord), ("if", .ifWord), ("let", .letWord), ("else", .elseWord),
      ("then", .thenWord), ("for", .forWord), ("extern", .externWord), ("false", .falseWord)]

/-- The kind of a word: that of the keyword whose bytes it has, or the sentinel. -/
def classify (word : List UInt8) : TokenKind :=
  (keywords.classify? word).getD .sentinel

end Reserved
