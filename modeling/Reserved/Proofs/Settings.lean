import Mathlib.Algebra.Group.Nat.Defs
import Reserved.Proofs.Artifact.Literal
import Reserved.Proofs.Text.Numeral
import Reserved.Proofs.Text.Trim
import Reserved.Settings

/-!
# Seeds as they are written

A seed is a numeral in one of two bases. Blanks around it do not count, and neither do underscores
in it, but the base is settled before the underscores are taken out: `0_x10` is no number at all.

The grammar gives every such text its number, however large. A seed is read exactly if the number
fits a word, and is that number then. So a number that is too large is refused and does not come
out as another one, and whatever is printed for a seed is read as that seed again.
-/

namespace Reserved

/-! ## The grammar -/

/-- Digits, perhaps behind a plus, when the underscores are taken out. -/
def Underscored (base : Nat) (text : List Char) (n : Nat) : Prop :=
  ∃ digits, (text.filter (· ≠ '_') = digits ∨ text.filter (· ≠ '_') = '+' :: digits) ∧
    Numeral.Digits base digits n

/-- The text has the mark of hexadecimal digits before `rest`. -/
def Marked (text rest : List Char) : Prop :=
  text = '0' :: 'x' :: rest ∨ text = '0' :: 'X' :: rest

/-- The number that a text spells as a seed, however large. -/
inductive SpellsSeed (text : String) (n : Nat) : Prop
  | hexadecimal {rest : List Char} : Marked (trim text.toList) rest → Underscored 16 rest n →
      SpellsSeed text n
  | decimal : (∀ rest, ¬ Marked (trim text.toList) rest) → Underscored 10 (trim text.toList) n →
      SpellsSeed text n

/-! ## Reading -/

/-- What is read in some base is a word, and the one that the digits spell. -/
theorem read_underscored_iff {base : Nat} (hpos : 0 < base) (hbase : base ≤ 16) {text : List Char}
    {v : UInt64} :
    (Numeral.read base UInt64.size (text.filter (· ≠ '_'))).toOption.map UInt64.ofNat = some v ↔
      Underscored base text v.toNat := by
  have hread : ∀ {n}, Numeral.read base UInt64.size (text.filter (· ≠ '_')) = .ok n ↔
      Underscored base text n ∧ n < UInt64.size := by
    intro n
    rw [Numeral.read_eq_ok_iff hpos hbase (by decide)]
    constructor
    · rintro ⟨digits, htext, hdigits, hn⟩
      exact ⟨⟨digits, htext, hdigits⟩, hn⟩
    · rintro ⟨⟨digits, htext, hdigits⟩, hn⟩
      exact ⟨digits, htext, hdigits, hn⟩
  constructor
  · intro h
    cases hcase : Numeral.read base UInt64.size (text.filter (· ≠ '_')) with
    | error e =>
        rw [hcase] at h
        contradiction
    | ok n =>
        rw [hcase] at h
        obtain rfl : UInt64.ofNat n = v := Option.some.inj h
        obtain ⟨hspelt, hn⟩ := hread.mp hcase
        rw [UInt64.toNat_ofNat_of_lt' hn]
        exact hspelt
  · intro h
    rw [hread.mpr ⟨h, v.toNat_lt⟩]
    show some (UInt64.ofNat v.toNat) = some v
    rw [UInt64.ofNat_toNat]

theorem Marked.unique {text rest rest' : List Char} (h : Marked text rest)
    (h' : Marked text rest') : rest = rest' := by
  rcases h with rfl | rfl <;> rcases h' with h' | h' <;> simp_all

/-- **A seed is read exactly where it is spelt.** -/
theorem parseSeed?_eq_some_iff {text : String} {v : UInt64} :
    parseSeed? text = some v ↔ SpellsSeed text v.toNat := by
  have hbehind : ∀ {rest}, Marked (trim text.toList) rest →
      (Underscored 16 rest v.toNat ↔ SpellsSeed text v.toNat) := by
    intro rest hmark
    refine ⟨.hexadecimal hmark, fun h => ?_⟩
    rcases h with ⟨hmark', h⟩ | ⟨hplain, -⟩
    · exact hmark.unique hmark' ▸ h
    · exact absurd hmark (hplain rest)
  have hplain : (∀ rest, ¬ Marked (trim text.toList) rest) →
      (Underscored 10 (trim text.toList) v.toNat ↔ SpellsSeed text v.toNat) := by
    intro hplain
    refine ⟨.decimal hplain, fun h => ?_⟩
    rcases h with ⟨hmark, -⟩ | ⟨-, h⟩
    · exact absurd hmark (hplain _)
    · exact h
  unfold parseSeed?
  split
  · next rest htext =>
    exact (read_underscored_iff (by decide) (by decide)).trans (hbehind (.inl htext))
  · next rest htext =>
    exact (read_underscored_iff (by decide) (by decide)).trans (hbehind (.inr htext))
  · next hsmall hcapital =>
    refine (read_underscored_iff (by decide) (by decide)).trans (hplain fun rest hmark => ?_)
    exact hmark.elim (hsmall rest) (hcapital rest)

/-- **A seed is refused exactly if no number that fits a word is spelt.** -/
theorem parseSeed?_eq_none_iff {text : String} :
    parseSeed? text = none ↔ ∀ n, SpellsSeed text n → 2 ^ 64 ≤ n := by
  rw [Option.eq_none_iff_forall_ne_some]
  constructor
  · intro hnone n hspelt
    refine Nat.le_of_not_lt fun hn => hnone (UInt64.ofNat n) (parseSeed?_eq_some_iff.mpr ?_)
    rw [UInt64.toNat_ofNat_of_lt' hn]
    exact hspelt
  · intro hlarge v hv
    exact Nat.not_lt.mpr (hlarge _ (parseSeed?_eq_some_iff.mp hv)) v.toNat_lt

/-! ## Seeds that were printed -/

/-- Underscores among the characters of a word leave it a word. -/
theorem isWordPart_of_filter {text : List Char}
    (h : ∀ c ∈ text.filter (· ≠ '_'), isWordPart c = true) : ∀ c ∈ text, isWordPart c = true := by
  intro c hc
  by_cases hunderscore : c = '_'
  · rw [hunderscore]
    decide
  · exact h c (List.mem_filter.mpr ⟨hc, by simpa using hunderscore⟩)

theorem Marked.exists_mem {text rest : List Char} (h : Marked text rest) :
    ∃ c ∈ text, c = 'x' ∨ c = 'X' := by
  rcases h with rfl | rfl
  · exact ⟨'x', by simp, .inl rfl⟩
  · exact ⟨'X', by simp, .inr rfl⟩

/-- Decimal digits have no mark, even with underscores in them. -/
theorem not_marked_of_decimal {text : List Char} {n : Nat}
    (h : text.filter (· ≠ '_') = Nat.toDigits 10 n) (rest : List Char) : ¬ Marked text rest := by
  intro hmark
  obtain ⟨c, hc, hx⟩ := hmark.exists_mem
  have hmem : c ∈ text.filter (· ≠ '_') := by
    refine List.mem_filter.mpr ⟨hc, ?_⟩
    rcases hx with rfl | rfl <;> decide
  rw [h] at hmem
  obtain ⟨d, hd, rfl⟩ := Numeral.mem_toDigits (by decide) n c hmem
  have hall : ∀ d < 10, Nat.digitChar d ≠ 'x' ∧ Nat.digitChar d ≠ 'X' := by decide
  exact hx.elim (hall d hd).1 (hall d hd).2

/-- The decimal digits of a word are read as the word, wherever underscores are put in. -/
theorem parseSeed?_decimal {v : UInt64} {text : List Char}
    (h : text.filter (· ≠ '_') = Nat.toDigits 10 v.toNat) :
    parseSeed? (String.ofList text) = some v := by
  have hword : ∀ c ∈ text, isWordPart c = true :=
    isWordPart_of_filter fun c hc => Numeral.isWordPart_of_mem_decimal v.toNat c (h ▸ hc)
  have htrim : trim (String.ofList text).toList = text := by
    rw [String.toList_ofList, trim_word hword]
  have hdigits : Numeral.Digits 10 (Nat.toDigits 10 v.toNat) v.toNat :=
    (Numeral.value?_eq_some_iff (by decide)).mp (Numeral.value?_toDigits (by decide) (by decide) _)
  refine parseSeed?_eq_some_iff.mpr (.decimal ?_ ?_)
  · rw [htrim]
    exact not_marked_of_decimal h
  · rw [htrim]
    exact ⟨_, .inl h, hdigits⟩

/-- The sixteen digits of a word are read as the word behind their mark. -/
theorem parseSeed?_hexWord {v : UInt64} {text : List Char}
    (h : '0' :: 'x' :: text.filter (· ≠ '_') = (hexWord v).toList) :
    parseSeed? (String.ofList ('0' :: 'x' :: text)) = some v := by
  have hword : ∀ c ∈ '0' :: 'x' :: text, isWordPart c = true := by
    refine isWordPart_of_filter fun c hc => ?_
    rw [List.filter_cons_of_pos (by decide), List.filter_cons_of_pos (by decide), h] at hc
    exact Source.isWordPart_of_mem_hexWord hc
  have hdigits : Numeral.Digits 16 (text.filter (· ≠ '_')) v.toNat := by
    unfold hexWord at h
    rw [String.toList_ofList, List.cons_append, List.cons_append] at h
    rw [(List.cons_eq_cons.mp (List.cons_eq_cons.mp h).2).2]
    exact (Numeral.value?_eq_some_iff (by decide)).mp
      (Numeral.value?_zeros_toDigits (by decide) (by decide) _ _)
  refine parseSeed?_eq_some_iff.mpr (.hexadecimal (.inl ?_) ⟨_, .inl rfl, hdigits⟩)
  rw [String.toList_ofList, trim_word hword]

/-- **Seeds are read exactly.** The seed that is read is the number that the text spells; a text is
refused if it spells none, or only one of `2 ^ 64` or more. Both forms in which a word is printed
are read as the word, and so they are with underscores put in behind the mark. -/
theorem parseSeed?_exact :
    (∀ text v, parseSeed? text = some v ↔ SpellsSeed text v.toNat) ∧
    (∀ text, parseSeed? text = none ↔ ∀ n, SpellsSeed text n → 2 ^ 64 ≤ n) ∧
    ∀ (v : UInt64) (digits : List Char),
      (digits.filter (· ≠ '_') = (toString v.toNat).toList →
        parseSeed? (String.ofList digits) = some v) ∧
      ('0' :: 'x' :: digits.filter (· ≠ '_') = (hexWord v).toList →
        parseSeed? (String.ofList ('0' :: 'x' :: digits)) = some v) := by
  refine ⟨fun _ _ => parseSeed?_eq_some_iff, fun _ => parseSeed?_eq_none_iff, fun v digits =>
    ⟨fun h => parseSeed?_decimal ?_, parseSeed?_hexWord⟩⟩
  have hdecimal : (toString v.toNat).toList = Nat.toDigits 10 v.toNat := String.toList_ofList
  rw [h, hdecimal]

/-- Digits in groups, in both bases. -/
theorem parseSeed?_exact_groups :
    parseSeed? "1_000" = some 1000 ∧ parseSeed? "0x_0000_0000_0000_5eed" = some 0x5eed := by
  obtain ⟨-, -, hprinted⟩ := parseSeed?_exact
  have hdecimal : "1_000".toList.filter (· ≠ '_') = (toString (1000 : UInt64).toNat).toList := by
    decide
  have hhexadecimal : '0' :: 'x' :: "_0000_0000_0000_5eed".toList.filter (· ≠ '_')
      = (hexWord 0x5eed).toList := by decide
  exact ⟨(hprinted 1000 _).1 hdecimal, (hprinted 0x5eed _).2 hhexadecimal⟩

end Reserved
