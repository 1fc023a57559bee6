/-!
# Identifiers

A letter or an underscore, then letters, digits and underscores, all of them ASCII.
-/

namespace Reserved

/-- Letters and the underscore, in ASCII. -/
def isWordStart (c : Char) : Bool :=
  ('a' ≤ c && c ≤ 'z') || ('A' ≤ c && c ≤ 'Z') || c == '_'

/-- Letters, digits and the underscore, in ASCII. -/
def isWordPart (c : Char) : Bool :=
  isWordStart c || ('0' ≤ c && c ≤ '9')

/-- Whether a text has the shape of an identifier. -/
def isIdentifier : List Char → Bool
  | [] => false
  | c :: rest => isWordStart c && rest.all isWordPart

end Reserved
