import Reserved.Proofs.Artifact.Source
import Reserved.Text.Quoted
import Reserved.TokenKind

/-!
# Literals as they are written

The reader undoes what writing values as text does: a quoted text is read as
a string literal for the text, whatever characters it has, and a number in decimal digits or
as a word of sixteen hexadecimal digits is read as a numeral for the number.
-/

namespace Reserved

namespace Source

/-! ## String literals -/

theorem run_code (s : List Char) : ∀ (ds digits : List Char), '\x7d' ∉ ds →
    digits.length + ds.length ≤ 6 → run (.code s digits) ds = some ([], .code s (digits ++ ds))
  | [], digits, _, _ => by
      rw [List.append_nil]
      rfl
  | d :: ds, digits, hd, hlen => by
      rw [List.length_cons] at hlen
      have hstep : step (.code s digits) d = some ([], .code s (digits ++ [d])) := by
        have hne : d ≠ '\x7d' := fun h => hd (h ▸ List.mem_cons_self)
        rw [step, if_neg hne, if_pos (by omega)]
      have ih := run_code s ds (digits ++ [d]) (fun h => hd (List.mem_cons_of_mem _ h))
        (by rw [List.length_append, List.length_singleton]; omega)
      rw [run, hstep]
      show (run (.code s (digits ++ [d])) ds).bind _ = _
      rw [ih, List.append_assoc]
      rfl

/-- A character is read back from its number. -/
theorem character?_toDigits (c : Char) : character? (Nat.toDigits 16 c.toNat) = some c := by
  unfold character?
  rw [Numeral.value?_toDigits (by decide) (by decide)]
  show (if c.toNat.isValidChar then some (Char.ofNat c.toNat) else none) = some c
  have hvalid : c.toNat.isValidChar := c.valid
  rw [if_pos hvalid, Char.ofNat_toNat]

theorem run_number (s : List Char) (c : Char) :
    run (.text s) ("\\u\x7b".toList ++ Nat.toDigits 16 c.toNat ++ ['\x7d'])
      = some ([], .text (s ++ [c])) := by
  have hdigits : '\x7d' ∉ Nat.toDigits 16 c.toNat := by
    intro h
    exact absurd (Numeral.isWordPart_of_mem_hex c.toNat _ h) (by decide)
  have hlen : (Nat.toDigits 16 c.toNat).length ≤ 6 := by
    -- a code point is below `0x110000`, so six digits are enough
    rw [Nat.length_toDigits_le_iff (by decide) (by decide)]
    have hvalid : c.toNat.isValidChar := c.valid
    unfold Nat.isValidChar at hvalid
    omega
  have hend : step (.code s (Nat.toDigits 16 c.toNat)) '\x7d' = some ([], .text (s ++ [c])) := by
    rw [step, if_pos rfl, character?_toDigits]
    rfl
  rw [run_append, run_append]
  show ((run (.code s []) (Nat.toDigits 16 c.toNat)).map _).bind _ = _
  rw [run_code s _ [] hdigits (by simpa using hlen)]
  show (run (.code s (Nat.toDigits 16 c.toNat)) ['\x7d']).map _ = _
  rw [run, hend]
  rfl

/-- An escaped character is read as itself. -/
theorem run_escapeChar (s : List Char) (c : Char) :
    run (.text s) (escapeChar c) = some ([], .text (s ++ [c])) := by
  unfold escapeChar
  split
  · subst c; rfl
  split
  · subst c; rfl
  split
  · subst c; rfl
  split
  · subst c; rfl
  split
  · subst c; rfl
  split
  · subst c; rfl
  split
  · exact run_number s c
  · -- what is written as it is ends neither the literal nor the line
    rename_i hreturn hquote hslash _
    have hstep : step (.text s) c = some ([], .text (s ++ [c])) := by
      rw [step, if_neg hquote, if_neg hslash, if_neg hreturn]
    rw [run, hstep]
    rfl

theorem run_escapes : ∀ (cs s : List Char),
    run (.text s) (cs.flatMap escapeChar) = some ([], .text (s ++ cs))
  | [], s => by
      rw [List.append_nil]
      rfl
  | c :: cs, s => by
      rw [List.flatMap_cons, run_append, run_escapeChar]
      show (run (.text (s ++ [c])) (cs.flatMap escapeChar)).map _ = _
      rw [run_escapes cs, List.append_assoc]
      rfl

/-- A quoted text is read as the text. -/
theorem Reads.quote (s : String) : Reads (quote s).toList [.text s.toList] := by
  unfold Reserved.quote
  rw [String.toList_ofList]
  show (run (.text []) (s.toList.flatMap escapeChar ++ ['"'])).bind _ = _
  rw [run_append, run_escapes]
  rfl

/-! ## Numerals and names -/

theorem Reads.decimal (n : Nat) {c : Char} {cs : List Char} {ts : List Lexeme}
    (hmark : isMark c = true) (h : Reads (c :: cs) ts) :
    Reads (Nat.toDigits 10 n ++ c :: cs) (.word (Nat.toDigits 10 n) :: ts) :=
  Reads.word Nat.toDigits_ne_nil (Numeral.isWordPart_of_mem_decimal n) hmark h

theorem number?_toDigits (n : Nat) : number? (Nat.toDigits 10 n) = some n := by
  have hx : 'x' ∉ Nat.toDigits 10 n := by
    intro h
    obtain ⟨d, hd, heq⟩ := Numeral.mem_toDigits (by decide) n 'x' h
    have hall : ∀ d < 10, 'x' ≠ Nat.digitChar d := by decide
    exact hall d hd heq
  unfold number?
  split
  · rename_i heq
    -- only a numeral in another base begins so
    rw [heq] at hx
    exact absurd (List.mem_cons_of_mem _ List.mem_cons_self) hx
  · exact Numeral.value?_toDigits (by decide) (by decide) n

theorem word32?_toDigits (n : UInt32) : word32? (Nat.toDigits 10 n.toNat) = some n := by
  unfold word32?
  rw [number?_toDigits]
  show (if n.toNat < UInt32.size then some (UInt32.ofNat n.toNat) else none) = some n
  rw [if_pos n.toNat_lt, UInt32.ofNat_toNat]

theorem word64?_hexWord (n : UInt64) : word64? (hexWord n).toList = some n := by
  unfold word64? hexWord
  rw [String.toList_ofList]
  show (do
    let n ← Numeral.value? 16 (List.replicate _ '0' ++ Nat.toDigits 16 n.toNat)
    if n < UInt64.size then some (UInt64.ofNat n) else none) = some n
  rw [Numeral.value?_zeros_toDigits (by decide) (by decide)]
  show (if n.toNat < UInt64.size then some (UInt64.ofNat n.toNat) else none) = some n
  rw [if_pos n.toNat_lt, UInt64.ofNat_toNat]

theorem isWordPart_of_mem_hexWord {n : UInt64} {c : Char} (hc : c ∈ (hexWord n).toList) :
    isWordPart c = true := by
  unfold hexWord at hc
  rw [String.toList_ofList, List.cons_append, List.cons_append, List.mem_cons, List.mem_cons,
    List.mem_append] at hc
  rcases hc with rfl | rfl | hc | hc
  · decide
  · decide
  · rw [(List.mem_replicate.mp hc).2]
    decide
  · exact Numeral.isWordPart_of_mem_hex n.toNat c hc

theorem hexWord_ne_nil (n : UInt64) : (hexWord n).toList ≠ [] := by
  unfold hexWord
  rw [String.toList_ofList]
  exact List.cons_ne_nil _ _

theorem isWordPart_of_mem_name (k : TokenKind) : ∀ c ∈ k.name.toList, isWordPart c = true := by
  have hall : k.name.toList.all isWordPart = true := by
    cases k <;> decide
  exact List.all_eq_true.mp hall

theorem name_ne_nil (k : TokenKind) : k.name.toList ≠ [] := by
  cases k <;> decide

end Source

end Reserved
