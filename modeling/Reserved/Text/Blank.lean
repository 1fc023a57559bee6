/-!
# Blanks

White space is Unicode's White_Space property. Trimming takes it off both ends of a text,
and a text falls into words at it.
-/

namespace Reserved

/-- Whether a character has the property White_Space. -/
def isBlank (c : Char) : Bool :=
  let v := c.toNat
  (0x9 ≤ v && v ≤ 0xD) || v == 0x20 || v == 0x85 || v == 0xA0 || v == 0x1680
    || (0x2000 ≤ v && v ≤ 0x200A) || v == 0x2028 || v == 0x2029 || v == 0x202F
    || v == 0x205F || v == 0x3000

/-- The text without the blanks it begins with. -/
def trimStart (cs : List Char) : List Char :=
  cs.dropWhile isBlank

/-- The text without the blanks it ends with. -/
def trimEnd (cs : List Char) : List Char :=
  (cs.reverse.dropWhile isBlank).reverse

def trim (cs : List Char) : List Char :=
  trimEnd (trimStart cs)

/-- The pieces of a text between characters that satisfy `p`; there is one more of them
than there are such characters. -/
def splitWhere (p : Char → Bool) : List Char → List (List Char)
  | [] => [[]]
  | c :: rest =>
    if p c then [] :: splitWhere p rest
    else (splitWhere p rest).modifyHead (c :: ·)

theorem length_splitWhere (p : Char → Bool) (cs : List Char) :
    (splitWhere p cs).length = cs.countP p + 1 := by
  induction cs with
  | nil => rfl
  | cons c rest ih => by_cases h : p c <;> simp [splitWhere, h, ih]

theorem splitWhere_ne_nil (p : Char → Bool) (cs : List Char) : splitWhere p cs ≠ [] := by
  intro h
  have := length_splitWhere p cs
  rw [h] at this
  simp at this

/-- The runs of characters that are not blank. -/
def blankSeparated (cs : List Char) : List (List Char) :=
  (splitWhere isBlank cs).filter (· ≠ [])

end Reserved
