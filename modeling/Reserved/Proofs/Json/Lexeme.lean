import Reserved.Json.Lexeme
import Reserved.Proofs.Action
import Reserved.Proofs.Text.Run
import Reserved.Proofs.Text.Utf8

/-!
# Lexemes that are read back

Numbers in decimal digits and strings with their escapes are read as what they were written
for, whatever follows that can follow a value. A number is kept whole as long as it fits 64
bits, so none of these ever passes through a floating-point number.

A string is read byte by byte, but it was escaped character by character. The two meet in one
lemma for a single character: its escape, or its bytes, come out as its bytes.
-/

namespace Reserved

namespace Json

/-! ## Blanks, and what follows a value -/

/-- White space of a document. -/
def Blanks (bs : List UInt8) : Prop :=
  ∀ b ∈ bs, isBlank b = true

instance (bs : List UInt8) : Decidable (Blanks bs) :=
  decidable_of_iff (bs.all isBlank = true) List.all_eq_true

/-- Whether a byte ends a value that stands before it. -/
def endsValue (b : UInt8) : Bool :=
  isBlank b || b == ','.toUInt8 || b == ']'.toUInt8 || b == '\x7d'.toUInt8

/-- A value may end here: with the document, or before a byte that ends it. -/
def Ended (rest : List UInt8) : Prop :=
  ∀ b, rest.head? = some b → endsValue b = true

theorem Blanks.append {bs bs' : List UInt8} (h : Blanks bs) (h' : Blanks bs') :
    Blanks (bs ++ bs') := by
  intro b hb
  rcases List.mem_append.mp hb with hb | hb
  · exact h b hb
  · exact h' b hb

theorem ended_cons {b : UInt8} (rest : List UInt8) (h : endsValue b = true) :
    Ended (b :: rest) := by
  intro b' hb'
  rwa [← Option.some.inj hb']

theorem Ended.blanks_append {bs rest : List UInt8} (hbs : Blanks bs) (h : Ended rest) :
    Ended (bs ++ rest) := by
  cases bs with
  | nil => exact h
  | cons b bs => exact ended_cons _ (by simp [endsValue, hbs b List.mem_cons_self])

/-- Blanks before a byte that is none are passed over. -/
theorem skipBlanks_append {bs : List UInt8} (hbs : Blanks bs) {b : UInt8} (rest : List UInt8)
    (hb : isBlank b = false) : skipBlanks (bs ++ b :: rest) = b :: rest := by
  refine (takeWhile_run hbs ?_).2
  intro b' hb'
  rwa [← Option.some.inj hb']

theorem skipBlanks_of_blanks {bs : List UInt8} (hbs : Blanks bs) : skipBlanks bs = [] := by
  have h : (bs ++ []).dropWhile isBlank = [] := List.dropWhile_append_of_pos hbs
  rwa [List.append_nil] at h

/-- What has been passed over before a byte are blanks. -/
theorem exists_blanks {cs rest : List UInt8} {b : UInt8} (h : skipBlanks cs = b :: rest) :
    ∃ bs, Blanks bs ∧ cs = bs ++ b :: rest :=
  ⟨cs.takeWhile isBlank, List.all_eq_true.mp List.all_takeWhile,
    h ▸ List.takeWhile_append_dropWhile.symm⟩

theorem blanks_of_skipBlanks {cs : List UInt8} (h : skipBlanks cs = []) : Blanks cs := by
  have hall : cs.takeWhile isBlank ++ skipBlanks cs = cs := List.takeWhile_append_dropWhile
  rw [h, List.append_nil] at hall
  exact hall ▸ List.all_eq_true.mp List.all_takeWhile

/-- A byte that ends a value is no part of a number. -/
theorem not_digit_of_endsValue {b : UInt8} (h : endsValue b = true) :
    isDigit b = false ∧ b ≠ '.'.toUInt8 ∧ b ≠ 'e'.toUInt8 ∧ b ≠ 'E'.toUInt8 := by
  have hb : b = ' '.toUInt8 ∨ b = '\n'.toUInt8 ∨ b = '\t'.toUInt8 ∨ b = '\r'.toUInt8 ∨
      b = ','.toUInt8 ∨ b = ']'.toUInt8 ∨ b = '\x7d'.toUInt8 := by
    simpa [endsValue, isBlank, or_assoc] using h
  rcases hb with rfl | rfl | rfl | rfl | rfl | rfl | rfl <;> decide

/-- A digit is neither a blank nor a mark. -/
theorem lead_of_isDigit {b : UInt8} (h : isDigit b = true) :
    isBlank b = false ∧ b ≠ ']'.toUInt8 ∧ b ≠ '-'.toUInt8 := by
  refine ⟨?_, ?_, ?_⟩
  · cases hblank : isBlank b with
    | false => rfl
    | true =>
        have hends : endsValue b = true := by simp [endsValue, hblank]
        exact absurd h (by simp [(not_digit_of_endsValue hends).1])
  · rintro rfl
    exact absurd h (by decide)
  · rintro rfl
    exact absurd h (by decide)

/-! ## Numbers -/

/-- The bytes of a number in decimal digits. -/
def decimal (n : Nat) : List UInt8 :=
  Utf8.encode (Nat.toDigits 10 n)

theorem utf8_toString (n : Nat) : (toString n).utf8 = decimal n := by
  show Utf8.encode (String.ofList (Nat.toDigits 10 n)).toList = _
  rw [String.toList_ofList]
  rfl

theorem encodeChar_digitChar : ∀ d < 10,
    Utf8.encodeChar (Nat.digitChar d) = [UInt8.ofNat (48 + d)] := by
  decide

theorem decimal_of_lt {n : Nat} (h : n < 10) : decimal n = [UInt8.ofNat (48 + n)] := by
  rw [decimal, Nat.toDigits_of_lt_base h, Utf8.encode_cons, encodeChar_digitChar n h]
  rfl

/-- A number of more digits than one ends in its last one. -/
theorem decimal_of_le {n : Nat} (h : 10 ≤ n) :
    decimal n = decimal (n / 10) ++ [UInt8.ofNat (48 + n % 10)] := by
  have hmod : n % 10 < 10 := Nat.mod_lt _ (by omega)
  rw [decimal, Nat.toDigits_of_base_le (by omega) h, Utf8.encode_append, Utf8.encode_cons,
    encodeChar_digitChar _ hmod]
  rfl

theorem digit_ofNat {d : Nat} (h : d < 10) :
    isDigit (UInt8.ofNat (48 + d)) = true ∧ digitValue (UInt8.ofNat (48 + d)) = d := by
  have hall : ∀ d < 10,
      isDigit (UInt8.ofNat (48 + d)) = true ∧ digitValue (UInt8.ofNat (48 + d)) = d := by decide
  exact hall d h

theorem isDigit_of_mem_decimal (n : Nat) : ∀ b ∈ decimal n, isDigit b = true := by
  induction n using Nat.strongRecOn with
  | ind n ih =>
      intro b hb
      rcases Nat.lt_or_ge n 10 with h | h
      · rw [decimal_of_lt h, List.mem_singleton] at hb
        rw [hb]
        exact (digit_ofNat h).1
      · rw [decimal_of_le h, List.mem_append, List.mem_singleton] at hb
        rcases hb with hb | hb
        · exact ih (n / 10) (by omega) b hb
        · rw [hb]
          exact (digit_ofNat (Nat.mod_lt _ (by omega))).1

theorem digitsValue_decimal (n : Nat) : digitsValue (decimal n) = n := by
  induction n using Nat.strongRecOn with
  | ind n ih =>
      rcases Nat.lt_or_ge n 10 with h | h
      · rw [decimal_of_lt h]
        show 0 * 10 + digitValue _ = n
        rw [(digit_ofNat h).2]
        omega
      · have hmod : n % 10 < 10 := Nat.mod_lt _ (by omega)
        have hdiv := ih (n / 10) (by omega)
        unfold digitsValue at hdiv
        rw [decimal_of_le h, digitsValue, List.foldl_append, hdiv]
        show n / 10 * 10 + digitValue _ = n
        rw [(digit_ofNat hmod).2]
        omega

theorem decimal_ne_nil (n : Nat) : decimal n ≠ [] := by
  rcases Nat.lt_or_ge n 10 with h | h
  · rw [decimal_of_lt h]
    exact List.cons_ne_nil _ _
  · rw [decimal_of_le h]
    exact List.append_ne_nil_of_right_ne_nil _ (List.cons_ne_nil _ _)

/-- Only zero begins with a zero. -/
theorem head?_decimal {n : Nat} (hn : 0 < n) :
    ∃ d, 0 < d ∧ d < 10 ∧ (decimal n).head? = some (UInt8.ofNat (48 + d)) := by
  induction n using Nat.strongRecOn with
  | ind n ih =>
      rcases Nat.lt_or_ge n 10 with h | h
      · exact ⟨n, hn, h, by rw [decimal_of_lt h, List.head?_cons]⟩
      · obtain ⟨d, hd, hd', hhead⟩ := ih (n / 10) (by omega) (by omega)
        exact ⟨d, hd, hd', by rw [decimal_of_le h, List.head?_append, hhead, Option.some_or]⟩

theorem no_leading_zero (n : Nat) :
    ¬ ((decimal n).head? = some '0'.toUInt8 ∧ 1 < (decimal n).length) := by
  rintro ⟨hhead, hlength⟩
  rcases Nat.eq_zero_or_pos n with rfl | hn
  · rw [decimal_of_lt (by omega)] at hlength
    exact absurd hlength (by simp)
  · obtain ⟨d, hd, hd', hhead'⟩ := head?_decimal hn
    have hvalue := (digit_ofNat hd').2
    rw [← Option.some.inj (hhead.symm.trans hhead')] at hvalue
    have hzero : digitValue '0'.toUInt8 = 0 := by decide
    omega

theorem le_foldl_digits (ds : List UInt8) : ∀ s : Nat,
    s ≤ ds.foldl (fun n d => n * 10 + digitValue d) s := by
  induction ds with
  | nil => exact fun s => Nat.le_refl s
  | cons d ds ih =>
      intro s
      have := ih (s * 10 + digitValue d)
      rw [List.foldl_cons]
      omega

/-- Digits are all taken as long as what they spell fits. -/
theorem absorb_eq (ds : List UInt8) : ∀ s : Nat,
    ds.foldl (fun n d => n * 10 + digitValue d) s < UInt64.size →
    absorb s ds = (ds.foldl (fun n d => n * 10 + digitValue d) s, ds.length) := by
  induction ds with
  | nil => exact fun s _ => rfl
  | cons d ds ih =>
      intro s hs
      rw [List.foldl_cons] at hs ⊢
      have hle := le_foldl_digits ds (s * 10 + digitValue d)
      rw [absorb]
      dsimp only
      rw [if_pos (by omega), ih _ hs]
      rfl

/-- **A number that fits 64 bits is read as itself.** -/
theorem number_decimal {n : Nat} (hn : n < UInt64.size) {rest : List UInt8} (hrest : Ended rest) :
    number false (decimal n ++ rest) = .ok (.integer n, rest) := by
  obtain ⟨htake, hdrop⟩ := takeWhile_run (isDigit_of_mem_decimal n)
    (fun b hb => (not_digit_of_endsValue (hrest b hb)).1)
  have habsorb : absorb 0 (decimal n) = (n, (decimal n).length) := by
    have hvalue := digitsValue_decimal n
    unfold digitsValue at hvalue
    rw [absorb_eq _ 0 (by omega), hvalue]
  have hempty : (decimal n ++ rest).isEmpty = false := by
    rw [List.isEmpty_eq_false_iff]
    exact List.append_ne_nil_of_left_ne_nil (decimal_ne_nil n) _
  have hdigits : ¬ ((decimal n).isEmpty = true ∨
      (decimal n).head? = some '0'.toUInt8 ∧ 1 < (decimal n).length) := by
    intro h
    rcases h with h | h
    · exact decimal_ne_nil n (List.isEmpty_iff.mp h)
    · exact no_leading_zero n h
  unfold number
  rw [htake, hdrop, hempty]
  dsimp only
  rw [if_neg Bool.false_ne_true, if_neg hdigits, habsorb]
  cases rest with
  | nil =>
      dsimp only
      rw [if_pos (by omega)]
      rfl
  | cons b rest =>
      obtain ⟨-, hpoint, he, hE⟩ := not_digit_of_endsValue (hrest b rfl)
      dsimp only
      rw [if_neg hpoint, if_neg (by simp [he, hE]), if_pos (by omega)]
      rfl

end Json

end Reserved
