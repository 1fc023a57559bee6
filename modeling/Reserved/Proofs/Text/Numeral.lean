import Mathlib.Data.List.Induction
import Reserved.Text.Identifier
import Reserved.Text.Numeral

/-!
# What a numeral stands for

The value of digits without a limit, as a left to right fold. The digits that are written
for a number have that number as their value, in every base up to sixteen, and zeros before
them change nothing. A value below the limit is what a reader with a limit makes of the digits.

Turned round this says which texts are numerals at all: those of digits, one at least, perhaps
behind a plus, whose number is below the limit, `read_eq_ok_iff`.
-/

namespace Reserved

namespace Numeral

/-- The value of digits that follow `soFar`. -/
def valueFrom? (base : Nat) : Nat → List Char → Option Nat
  | soFar, [] => some soFar
  | soFar, c :: rest => do
    let d ← digit? base c
    valueFrom? base (soFar * base + d) rest

/-- The number that digits stand for; no digits stand for none. -/
def value? (base : Nat) : List Char → Option Nat
  | [] => none
  | digits => valueFrom? base 0 digits

theorem valueFrom?_append (base : Nat) : ∀ (soFar : Nat) (xs ys : List Char),
    valueFrom? base soFar (xs ++ ys) = (valueFrom? base soFar xs).bind (valueFrom? base · ys)
  | _, [], _ => rfl
  | soFar, c :: rest, ys => by
      rw [List.cons_append, valueFrom?, valueFrom?]
      cases digit? base c with
      | none => rfl
      | some d => exact valueFrom?_append base (soFar * base + d) rest ys

/-- The value of a digit is the same in every base, if it is one there. -/
theorem digit?_of_sixteen {base d : Nat} {c : Char} (h : digit? 16 c = some d) (hd : d < base) :
    digit? base c = some d := by
  unfold digit? at h ⊢
  obtain ⟨hvalue, -⟩ := Option.filter_eq_some_iff.mp h
  exact Option.filter_eq_some_iff.mpr ⟨hvalue, by simpa using hd⟩

/-- Each digit that is written is read as itself. -/
theorem digit?_digitChar {base d : Nat} (hbase : base ≤ 16) (hd : d < base) :
    digit? base (Nat.digitChar d) = some d := by
  have hall : ∀ d < 16, digit? 16 (Nat.digitChar d) = some d := by decide
  exact digit?_of_sixteen (hall d (by omega)) hd

/-- Digits are read as the number they were written for. -/
theorem valueFrom?_toDigits {base : Nat} (hpos : 1 < base) (hbase : base ≤ 16) (n : Nat) :
    valueFrom? base 0 (Nat.toDigits base n) = some n := by
  induction n using Nat.strongRecOn with
  | ind n ih =>
      rcases Nat.lt_or_ge n base with h | h
      · rw [Nat.toDigits_of_lt_base h, valueFrom?, digit?_digitChar hbase h]
        show some (0 * base + n) = some n
        rw [Nat.zero_mul, Nat.zero_add]
      · have hmod : n % base < base := Nat.mod_lt _ (by omega)
        have hdiv : n / base < n := Nat.div_lt_self (by omega) hpos
        rw [Nat.toDigits_of_base_le hpos h, valueFrom?_append, ih _ hdiv, Option.bind_some,
          valueFrom?, digit?_digitChar hbase hmod]
        show some (n / base * base + n % base) = some n
        rw [Nat.div_add_mod']

theorem valueFrom?_zeros {base : Nat} (hbase : 0 < base) (ds : List Char) : ∀ k,
    valueFrom? base 0 (List.replicate k '0' ++ ds) = valueFrom? base 0 ds
  | 0 => rfl
  | k + 1 => by
      have hzero : digit? base '0' = some 0 := by
        simp [digit?, hbase]
      rw [List.replicate_succ, List.cons_append, valueFrom?, hzero]
      show valueFrom? base (0 * base + 0) _ = _
      rw [Nat.zero_mul]
      exact valueFrom?_zeros hbase ds k

theorem value?_of_ne_nil {base : Nat} {ds : List Char} (h : ds ≠ []) :
    value? base ds = valueFrom? base 0 ds := by
  cases ds with
  | nil => exact absurd rfl h
  | cons _ _ => rfl

theorem value?_toDigits {base : Nat} (hpos : 1 < base) (hbase : base ≤ 16) (n : Nat) :
    value? base (Nat.toDigits base n) = some n := by
  rw [value?_of_ne_nil Nat.toDigits_ne_nil, valueFrom?_toDigits hpos hbase]

/-- Zeros before the digits of a number do not count. -/
theorem value?_zeros_toDigits {base : Nat} (hpos : 1 < base) (hbase : base ≤ 16) (k n : Nat) :
    value? base (List.replicate k '0' ++ Nat.toDigits base n) = some n := by
  rw [value?_of_ne_nil (List.append_ne_nil_of_right_ne_nil _ Nat.toDigits_ne_nil),
    valueFrom?_zeros (by omega), valueFrom?_toDigits hpos hbase]

/-! ## Reading up to a limit -/

/-- More digits do not make the number smaller. -/
theorem le_of_valueFrom? {base : Nat} (hbase : 0 < base) {cs : List Char} : ∀ {soFar n : Nat},
    valueFrom? base soFar cs = some n → soFar ≤ n := by
  induction cs with
  | nil =>
      intro soFar n h
      exact Nat.le_of_eq (Option.some.inj h)
  | cons c rest ih =>
      intro soFar n h
      rw [valueFrom?] at h
      obtain ⟨d, -, hrest⟩ := Option.bind_eq_some_iff.mp h
      have hle := ih hrest
      have hmul : soFar ≤ soFar * base := Nat.le_mul_of_pos_right soFar hbase
      omega

/-- What the digits come to is below the limit if all of them do, and then none is too many. -/
theorem readDigits_of_valueFrom? {base limit : Nat} (hbase : 0 < base) {cs : List Char} :
    ∀ {soFar n : Nat}, valueFrom? base soFar cs = some n → n < limit →
      readDigits base limit soFar cs = .ok n := by
  induction cs with
  | nil =>
      intro soFar n h _
      rw [readDigits, Option.some.inj h]
  | cons c rest ih =>
      intro soFar n h hn
      rw [valueFrom?] at h
      obtain ⟨d, hd, hrest⟩ := Option.bind_eq_some_iff.mp h
      have hle := le_of_valueFrom? hbase hrest
      rw [readDigits, hd]
      show (if limit ≤ soFar * base + d then _ else _) = _
      rw [if_neg (by omega), ih hrest hn]

/-- **Digits are read as the number that they stand for**, if it is below the limit. -/
theorem read_of_value? {base limit n : Nat} (hbase : 0 < base) {digits : List Char}
    (h : value? base digits = some n) (hn : n < limit) : read base limit digits = .ok n := by
  have hne : digits ≠ [] := by
    rintro rfl
    exact absurd h (by simp [value?])
  have hplus : ∀ rest, digits ≠ '+' :: rest := by
    rintro rest rfl
    rw [value?_of_ne_nil hne, valueFrom?] at h
    have hnone : digit? base '+' = none := rfl
    rw [hnone] at h
    exact absurd h (by simp)
  rw [value?_of_ne_nil hne] at h
  unfold read
  split
  · exact absurd rfl hne
  · exact absurd rfl (hplus [])
  · next rest _ => exact absurd rfl (hplus rest)
  · exact readDigits_of_valueFrom? hbase h hn

/-! ## Every spelling of a number -/

/-- The characters that are written for a digit; a letter may be small or capital. -/
def IsDigit (c : Char) (d : Nat) : Prop :=
  c = Nat.digitChar d ∨ c = (Nat.digitChar d).toUpper

instance (c : Char) (d : Nat) : Decidable (IsDigit c d) :=
  inferInstanceAs (Decidable (_ ∨ _))

/-- Digits, of which there is one at least, and the number that they spell. -/
inductive Digits (base : Nat) : List Char → Nat → Prop
  | one {c : Char} {d : Nat} : d < base → IsDigit c d → Digits base [c] d
  | more {cs : List Char} {n : Nat} {c : Char} {d : Nat} : Digits base cs n → d < base →
      IsDigit c d → Digits base (cs ++ [c]) (n * base + d)

theorem Digits.ne_nil {base : Nat} {cs : List Char} {n : Nat} (h : Digits base cs n) :
    cs ≠ [] := by
  cases h with
  | one => exact List.cons_ne_nil _ _
  | more => exact List.append_ne_nil_of_right_ne_nil _ (List.cons_ne_nil _ _)

/-- Where a range of characters is written for successive digits, a character of the range stands
for the digit at its place. -/
theorem isDigit_of_range (first count low : Nat) {c : Char} {d : Nat}
    (hall : ∀ k < count, IsDigit (Char.ofNat (first + k)) (k + low)) (hfirst : first ≤ c.toNat)
    (hlast : c.toNat < first + count) (hd : c.toNat - first + low = d) : IsDigit c d := by
  have h := hall (c.toNat - first) (by omega)
  rw [Nat.add_sub_cancel' hfirst, Char.ofNat_toNat, hd] at h
  exact h

theorem isDigit_of_digit? {base d : Nat} {c : Char} (h : digit? base c = some d) :
    d < base ∧ IsDigit c d := by
  obtain ⟨hvalue, hd⟩ := Option.filter_eq_some_iff.mp h
  refine ⟨by simpa using hd, ?_⟩
  have hle : ∀ {a b : Char}, a ≤ b → a.toNat ≤ b.toNat := fun h => h
  split at hvalue
  · next hdecimal =>
    exact isDigit_of_range 48 10 0 (by decide) (hle hdecimal.1) (Nat.lt_succ_of_le (hle hdecimal.2))
      (Option.some.inj hvalue)
  · split at hvalue
    · next hsmall =>
      exact isDigit_of_range 97 6 10 (by decide) (hle hsmall.1) (Nat.lt_succ_of_le (hle hsmall.2))
        (Option.some.inj hvalue)
    · split at hvalue
      · next hcapital =>
        exact isDigit_of_range 65 6 10 (by decide) (hle hcapital.1)
          (Nat.lt_succ_of_le (hle hcapital.2)) (Option.some.inj hvalue)
      · exact absurd hvalue (by simp)

theorem IsDigit.digit? {base d : Nat} {c : Char} (h : IsDigit c d) (hbase : base ≤ 16)
    (hd : d < base) : digit? base c = some d := by
  rcases h with rfl | rfl
  · exact digit?_digitChar hbase hd
  · have hall : ∀ d < 16, Numeral.digit? 16 (Nat.digitChar d).toUpper = some d := by decide
    exact digit?_of_sixteen (hall d (by omega)) hd

/-- **A text has a value exactly if it is digits**, and the value is the number they spell. -/
theorem value?_eq_some_iff {base : Nat} (hbase : base ≤ 16) {cs : List Char} {n : Nat} :
    value? base cs = some n ↔ Digits base cs n := by
  constructor
  · induction cs using List.reverseRecOn generalizing n with
    | nil => exact fun h => absurd h (by simp [value?])
    | append_singleton cs c ih =>
        intro h
        rw [value?_of_ne_nil (List.append_ne_nil_of_right_ne_nil _ (List.cons_ne_nil _ _)),
          valueFrom?_append] at h
        obtain ⟨front, hfront, hlast⟩ := Option.bind_eq_some_iff.mp h
        rw [valueFrom?] at hlast
        obtain ⟨d, hd, hn⟩ := Option.bind_eq_some_iff.mp hlast
        obtain ⟨hlt, hdigit⟩ := isDigit_of_digit? hd
        obtain rfl : front * base + d = n := Option.some.inj hn
        cases cs with
        | nil =>
            obtain rfl : 0 = front := Option.some.inj hfront
            rw [Nat.zero_mul, Nat.zero_add]
            exact .one hlt hdigit
        | cons x xs => exact .more (ih hfront) hlt hdigit
  · intro h
    induction h with
    | @one c d hlt hdigit =>
        show (do let d ← digit? base c; some (0 * base + d)) = some d
        rw [hdigit.digit? hbase hlt]
        show some (0 * base + d) = some d
        rw [Nat.zero_mul, Nat.zero_add]
    | @more cs n c d hcs hlt hdigit ih =>
        rw [value?_of_ne_nil hcs.ne_nil] at ih
        rw [value?_of_ne_nil (List.append_ne_nil_of_right_ne_nil _ (List.cons_ne_nil _ _)),
          valueFrom?_append, ih, Option.bind_some, valueFrom?, hdigit.digit? hbase hlt]
        rfl

/-- What is read below the limit is the value of the digits. -/
theorem valueFrom?_of_readDigits {base limit : Nat} {cs : List Char} : ∀ {soFar n : Nat},
    readDigits base limit soFar cs = .ok n → soFar < limit →
      valueFrom? base soFar cs = some n ∧ n < limit := by
  induction cs with
  | nil =>
      intro soFar n h hlt
      obtain rfl : soFar = n := Except.ok.inj h
      exact ⟨rfl, hlt⟩
  | cons c rest ih =>
      intro soFar n h _
      rw [readDigits] at h
      split at h
      · contradiction
      · next d hd =>
        dsimp only at h
        split at h
        · contradiction
        · next hlimit =>
          rw [valueFrom?, hd]
          exact ih h (Nat.lt_of_not_le hlimit)

theorem read_plus {base limit : Nat} {digits : List Char} (h : digits ≠ []) :
    read base limit ('+' :: digits) = readDigits base limit 0 digits := by
  cases digits with
  | nil => contradiction
  | cons c rest => rfl

/-- **A numeral is digits, perhaps behind a plus, that spell a number below the limit.** Any
other text is refused. -/
theorem read_eq_ok_iff {base limit : Nat} (hpos : 0 < base) (hbase : base ≤ 16)
    (hlimit : 0 < limit) {cs : List Char} {n : Nat} :
    read base limit cs = .ok n ↔
      ∃ digits, (cs = digits ∨ cs = '+' :: digits) ∧ Digits base digits n ∧ n < limit := by
  have hdigits : ∀ {digits}, digits ≠ [] → readDigits base limit 0 digits = .ok n →
      Digits base digits n ∧ n < limit := by
    intro digits hne h
    obtain ⟨hvalue, hn⟩ := valueFrom?_of_readDigits h hlimit
    rw [← value?_of_ne_nil hne] at hvalue
    exact ⟨(value?_eq_some_iff hbase).mp hvalue, hn⟩
  constructor
  · intro h
    unfold read at h
    split at h
    · contradiction
    · contradiction
    · next digits hne =>
      have hne' : digits ≠ [] := fun hnil => hne (hnil ▸ rfl)
      exact ⟨digits, .inr rfl, hdigits hne' h⟩
    · next hne _ _ => exact ⟨cs, .inl rfl, hdigits hne h⟩
  · rintro ⟨digits, rfl | rfl, hspelt, hn⟩
    · exact read_of_value? hpos ((value?_eq_some_iff hbase).mpr hspelt) hn
    · have hvalue := (value?_eq_some_iff hbase).mpr hspelt
      rw [value?_of_ne_nil hspelt.ne_nil] at hvalue
      rw [read_plus hspelt.ne_nil]
      exact readDigits_of_valueFrom? hpos hvalue hn

/-! ## The characters of digits -/

/-- The characters of the digits are digits. -/
theorem mem_toDigits {base : Nat} (hpos : 1 < base) (n : Nat) :
    ∀ c ∈ Nat.toDigits base n, ∃ d < base, c = Nat.digitChar d := by
  induction n using Nat.strongRecOn with
  | ind n ih =>
      intro c hc
      rcases Nat.lt_or_ge n base with h | h
      · rw [Nat.toDigits_of_lt_base h, List.mem_singleton] at hc
        exact ⟨n, h, hc⟩
      · rw [Nat.toDigits_of_base_le hpos h, List.mem_append, List.mem_singleton] at hc
        rcases hc with hc | hc
        · exact ih _ (Nat.div_lt_self (by omega) hpos) c hc
        · exact ⟨n % base, Nat.mod_lt _ (by omega), hc⟩

theorem isWordPart_of_mem_toDigits {base : Nat} (hpos : 1 < base) (hbase : base ≤ 16) {n : Nat}
    {c : Char} (hc : c ∈ Nat.toDigits base n) : isWordPart c = true := by
  have hall : ∀ d < 16, isWordPart (Nat.digitChar d) = true := by decide
  obtain ⟨d, hd, rfl⟩ := mem_toDigits hpos n c hc
  exact hall d (by omega)

theorem isWordPart_of_mem_decimal (n : Nat) : ∀ c ∈ Nat.toDigits 10 n, isWordPart c = true :=
  fun _ => isWordPart_of_mem_toDigits (by decide) (by decide)

theorem isWordPart_of_mem_hex (n : Nat) : ∀ c ∈ Nat.toDigits 16 n, isWordPart c = true :=
  fun _ => isWordPart_of_mem_toDigits (by decide) (by decide)

end Numeral

end Reserved
