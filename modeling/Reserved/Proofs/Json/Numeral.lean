import Mathlib.Data.List.Induction
import Mathlib.Data.List.TakeWhile
import Reserved.Proofs.Json.Lexeme
import Reserved.Json.Value

/-!
# Every spelling of a number

An integer has one spelling, its decimal digits. A number that is read as an integer was spelt so,
and fitted the place it was wanted in: nothing with a fraction or an exponent, with a minus or
beyond 64 bits comes out as an integer of a table. Of a number that nobody asked for only the form
is looked at, `NumberText`.
-/

namespace Reserved

namespace Json

/-- Digits, of which there is one at least. -/
def Digits (ds : List UInt8) : Prop :=
  ds ≠ [] ∧ ∀ d ∈ ds, isDigit d = true

/-- The whole part of a number; it has no leading zeros. -/
def Whole (ds : List UInt8) : Prop :=
  Digits ds ∧ ¬ (ds.head? = some '0'.toUInt8 ∧ 1 < ds.length)

inductive Fraction : List UInt8 → Prop
  | none : Fraction []
  | digits {ds : List UInt8} : Digits ds → Fraction ('.'.toUInt8 :: ds)

inductive Exponent : List UInt8 → Prop
  | none : Exponent []
  | digits {e : UInt8} {ds : List UInt8} : e = 'e'.toUInt8 ∨ e = 'E'.toUInt8 → Digits ds →
      Exponent (e :: ds)
  | signed {e s : UInt8} {ds : List UInt8} : e = 'e'.toUInt8 ∨ e = 'E'.toUInt8 →
      s = '+'.toUInt8 ∨ s = '-'.toUInt8 → Digits ds → Exponent (e :: s :: ds)

/-- A number without its sign, of any size. -/
inductive NumberText : List UInt8 → Prop
  | mk {whole fraction exponent : List UInt8} : Whole whole → Fraction fraction →
      Exponent exponent → NumberText (whole ++ (fraction ++ exponent))

/-! ## The digits of an integer -/

theorem digit_of_isDigit {b : UInt8} (h : isDigit b = true) :
    digitValue b < 10 ∧ UInt8.ofNat (48 + digitValue b) = b := by
  have hbounds : '0'.toUInt8.toNat ≤ b.toNat ∧ b.toNat ≤ '9'.toUInt8.toNat := by
    simpa [isDigit, UInt8.le_iff_toNat_le] using h
  have hzero : '0'.toUInt8.toNat = 48 := rfl
  have hnine : '9'.toUInt8.toNat = 57 := rfl
  unfold digitValue
  refine ⟨by omega, UInt8.toNat_inj.mp ?_⟩
  rw [UInt8.toNat_ofNat', Nat.mod_eq_of_lt (by omega)]
  omega

theorem digitsValue_concat (ds : List UInt8) (d : UInt8) :
    digitsValue (ds ++ [d]) = digitsValue ds * 10 + digitValue d := by
  rw [digitsValue, List.foldl_append]
  rfl

/-- Digits that do not begin with a zero spell something. -/
theorem digitsValue_pos {ds : List UInt8} (h : Digits ds) (hzero : ds.head? ≠ some '0'.toUInt8) :
    0 < digitsValue ds := by
  obtain ⟨hne, hdigits⟩ := h
  cases ds with
  | nil => contradiction
  | cons d ds =>
      have hle := le_foldl_digits ds (0 * 10 + digitValue d)
      have hd : digitValue d ≠ 0 := by
        intro hd
        have hvalue := (digit_of_isDigit (hdigits d List.mem_cons_self)).2
        rw [hd] at hvalue
        exact hzero (congrArg some hvalue.symm)
      show 0 < ds.foldl (fun n d => n * 10 + digitValue d) (0 * 10 + digitValue d)
      omega

/-- **An integer has no other spelling than its digits.** -/
theorem decimal_digitsValue {ds : List UInt8} (h : Whole ds) : decimal (digitsValue ds) = ds := by
  induction ds using List.reverseRecOn with
  | nil => exact absurd rfl h.1.1
  | append_singleton ds d ih =>
      obtain ⟨⟨-, hdigits⟩, hzero⟩ := h
      obtain ⟨hlt, hd⟩ := digit_of_isDigit (hdigits d (by simp))
      rw [digitsValue_concat]
      cases ds with
      | nil =>
          have hone : digitsValue [] * 10 + digitValue d = digitValue d := by
            show 0 * 10 + digitValue d = _
            omega
          rw [hone, decimal_of_lt hlt, hd, List.nil_append]
      | cons b ds =>
          have hb : (b :: ds).head? ≠ some '0'.toUInt8 := fun hb => hzero ⟨hb, by simp⟩
          have hfront : Digits (b :: ds) :=
            ⟨List.cons_ne_nil _ _, fun x hx => hdigits x (List.mem_append_left _ hx)⟩
          have hpos := digitsValue_pos hfront hb
          have hdiv : (digitsValue (b :: ds) * 10 + digitValue d) / 10 = digitsValue (b :: ds) := by
            omega
          have hmod : (digitsValue (b :: ds) * 10 + digitValue d) % 10 = digitValue d := by omega
          rw [decimal_of_le (by omega), hdiv, hmod, hd, ih ⟨hfront, fun h => hb h.1⟩]

/-! ## Numbers that are read -/

/-- If all digits were taken, what they spell fits. -/
theorem absorb_all {ds : List UInt8} : ∀ {s n : Nat}, absorb s ds = (n, ds.length) →
    s < UInt64.size →
    n = ds.foldl (fun n d => n * 10 + digitValue d) s ∧ n < UInt64.size := by
  induction ds with
  | nil =>
      intro s n h hs
      obtain ⟨rfl, -⟩ := Prod.mk.inj h
      exact ⟨rfl, hs⟩
  | cons d ds ih =>
      intro s n h hs
      rw [absorb] at h
      dsimp only at h
      split at h
      · next hnext =>
        obtain ⟨rfl, hlength⟩ := Prod.mk.inj h
        rw [List.length_cons, Nat.add_right_cancel_iff] at hlength
        exact ih (Prod.ext rfl hlength) hnext
      · exact absurd (Prod.mk.inj h).2.symm (by simp)

theorem float_of_exponentPart {negative : Bool} {significand : Nat} {exponent : Int}
    {cs rest : List UInt8} {v : Number}
    (h : exponentPart negative significand exponent cs = .ok (v, rest)) :
    ∃ text, v = .float text := by
  unfold exponentPart at h
  cases cs with
  | nil => contradiction
  | cons b after =>
      dsimp only at h
      -- whatever the sign of the exponent, and wherever its digits begin
      generalize (if b = '+'.toUInt8 then (false, after)
        else if b = '-'.toUInt8 then (true, after) else (false, b :: after)) = marked at h
      split at h
      · contradiction
      split at h
      · contradiction
      split at h
      · split at h
        · contradiction
        · exact ⟨_, (Prod.mk.inj (Except.ok.inj h)).1.symm⟩
      · obtain ⟨text, -, h⟩ := bind_eq_ok.mp h
        exact ⟨text, (Prod.mk.inj (Except.ok.inj h)).1.symm⟩

theorem float_of_afterDigits {negative : Bool} {significand : Nat} {exponent : Int}
    {cs rest : List UInt8} {v : Number}
    (h : afterDigits negative significand exponent cs = .ok (v, rest)) :
    ∃ text, v = .float text := by
  unfold afterDigits at h
  split at h
  · obtain ⟨text, -, h⟩ := bind_eq_ok.mp h
    exact ⟨text, (Prod.mk.inj (Except.ok.inj h)).1.symm⟩
  · split at h
    · exact float_of_exponentPart h
    · obtain ⟨text, -, h⟩ := bind_eq_ok.mp h
      exact ⟨text, (Prod.mk.inj (Except.ok.inj h)).1.symm⟩

theorem float_of_fractionPart {negative : Bool} {significand : Nat} {exponent : Int}
    {cs rest : List UInt8} {v : Number}
    (h : fractionPart negative significand exponent cs = .ok (v, rest)) :
    ∃ text, v = .float text := by
  unfold fractionPart at h
  dsimp only at h
  split at h
  · contradiction
  · exact float_of_afterDigits h

/-- A number that is read as an integer is nothing but digits, which fit 64 bits. -/
theorem exists_whole {negative : Bool} {cs rest : List UInt8} {n : Int}
    (h : number negative cs = .ok (.integer n, rest)) :
    ∃ ds, Whole ds ∧ digitsValue ds < UInt64.size ∧ cs = ds ++ rest ∧
      wholeNumber negative (digitsValue ds) = .ok (.integer n) := by
  have hfloat : ∀ {r : Except Error (Number × List UInt8)},
      (∀ {v : Number}, r = .ok (v, rest) → ∃ text, v = .float text) →
      r ≠ .ok (.integer n, rest) := by
    intro r hr h
    obtain ⟨text, htext⟩ := hr h
    contradiction
  unfold number at h
  dsimp only at h
  split at h
  · contradiction
  split at h
  · contradiction
  next hform =>
  rw [not_or] at hform
  obtain ⟨hsome, hzero⟩ := hform
  have hwhole : Whole (cs.takeWhile isDigit) :=
    ⟨⟨by simpa [List.isEmpty_iff] using hsome, fun d hd => List.mem_takeWhile_imp hd⟩, hzero⟩
  -- only a number all digits of which were taken, and after which no more of it comes, is whole
  have hall : ∀ {left : List UInt8}, cs.dropWhile isDigit = left →
      ((cs.takeWhile isDigit).length : Int) - (absorb 0 (cs.takeWhile isDigit)).2 = 0 →
      (do
        let v ← wholeNumber negative (absorb 0 (cs.takeWhile isDigit)).1
        return (v, left)) = Except.ok (Number.integer n, rest) →
      ∃ ds, Whole ds ∧ digitsValue ds < UInt64.size ∧ cs = ds ++ rest ∧
        wholeNumber negative (digitsValue ds) = .ok (.integer n) := by
    intro left hleft htaken h
    obtain ⟨v, hv, hpair⟩ := bind_eq_ok.mp h
    obtain ⟨rfl, rfl⟩ := Prod.mk.inj (Except.ok.inj hpair)
    obtain ⟨hvalue, hfits⟩ := absorb_all (n := (absorb 0 (cs.takeWhile isDigit)).1)
      (Prod.ext rfl (by omega)) (by decide)
    rw [hvalue] at hv hfits
    refine ⟨_, hwhole, hfits, ?_, hv⟩
    rw [← hleft, List.takeWhile_append_dropWhile]
  split at h
  · next hrest =>
    split at h
    · next htaken => exact hall hrest htaken h
    · exact absurd h (hfloat float_of_afterDigits)
  · next b after hrest =>
    split at h
    · exact absurd h (hfloat float_of_fractionPart)
    split at h
    · exact absurd h (hfloat float_of_exponentPart)
    split at h
    · next htaken => exact hall rfl htaken h
    · exact absurd h (hfloat float_of_afterDigits)

theorem wholeNumber_negative {n : Nat} {v : Int} (h : wholeNumber true n = .ok (.integer v)) :
    v < 0 := by
  unfold wholeNumber at h
  rw [if_neg (by decide)] at h
  split at h
  · obtain ⟨text, -, h⟩ := map_eq_ok.mp h
    contradiction
  · have hv := Number.integer.inj (Except.ok.inj h)
    omega

/-- **An unsigned number is read from its digits alone**, and only within its limit. -/
theorem exists_decimal {wanted : String} {limit n : Nat} {cs rest : List UInt8}
    (h : unsigned wanted limit cs = .ok (n, rest)) :
    ∃ bs, Blanks bs ∧ n < limit ∧ cs = bs ++ (decimal n ++ rest) := by
  unfold unsigned at h
  split at h
  · contradiction
  next b after hskip =>
  obtain ⟨bs, hbs, rfl⟩ := exists_blanks hskip
  dsimp only at h
  split at h
  · -- after a minus comes an integer below zero, or none
    obtain ⟨⟨v, left⟩, hv, h⟩ := bind_eq_ok.mp h
    dsimp only at h
    split at h
    · contradiction
    next v =>
    split at h
    · next hrange =>
      obtain ⟨ds, -, -, -, hnegative⟩ := exists_whole hv
      have := wholeNumber_negative hnegative
      omega
    · contradiction
  split at h
  · obtain ⟨⟨v, left⟩, hv, h⟩ := bind_eq_ok.mp h
    dsimp only at h
    split at h
    · contradiction
    next v =>
    split at h
    · next hrange =>
      obtain ⟨rfl, rfl⟩ := Prod.mk.inj (Except.ok.inj h)
      obtain ⟨ds, hds, -, hafter, hvalue⟩ := exists_whole hv
      obtain rfl := Number.integer.inj (Except.ok.inj hvalue)
      refine ⟨bs, hbs, by omega, ?_⟩
      rw [Int.toNat_natCast, decimal_digitsValue hds, ← hafter]
    · contradiction
  · contradiction

/-! ## Numbers that are passed over -/

theorem skipDigits_append {ds rest : List UInt8} (h : Digits ds)
    (hrest : ∀ b, rest.head? = some b → isDigit b = false) :
    skipDigits (ds ++ rest) = .ok rest := by
  obtain ⟨htake, hdrop⟩ := takeWhile_run h.2 hrest
  unfold skipDigits
  rw [htake, hdrop, if_neg (by simpa [List.isEmpty_iff] using h.1)]

theorem exists_digits {cs rest : List UInt8} (h : skipDigits cs = .ok rest) :
    ∃ ds, Digits ds ∧ cs = ds ++ rest := by
  unfold skipDigits at h
  split at h
  · contradiction
  · next hne =>
    obtain rfl := Except.ok.inj h
    exact ⟨cs.takeWhile isDigit, ⟨by simpa [List.isEmpty_iff] using hne,
      fun d hd => List.mem_takeWhile_imp hd⟩, List.takeWhile_append_dropWhile.symm⟩

theorem skipExponent_append {w rest : List UInt8} (h : Exponent w) (hrest : Ended rest) :
    skipExponent (w ++ rest) = .ok rest := by
  have hdigits : ∀ b, rest.head? = some b → isDigit b = false :=
    fun b hb => (not_digit_of_endsValue (hrest b hb)).1
  cases h with
  | none =>
      cases rest with
      | nil => rfl
      | cons b rest =>
          obtain ⟨-, -, he, hE⟩ := not_digit_of_endsValue (hrest b rfl)
          rw [List.nil_append]
          unfold skipExponent
          exact if_neg (by simp [he, hE])
  | @digits e ds he hds =>
      obtain ⟨d, ds, rfl⟩ := List.exists_cons_of_ne_nil hds.1
      have hsign : ¬ (d = '+'.toUInt8 ∨ d = '-'.toUInt8) := by
        rintro (rfl | rfl)
        · exact absurd (hds.2 _ List.mem_cons_self) (by decide)
        · exact absurd (hds.2 _ List.mem_cons_self) (by decide)
      unfold skipExponent
      rw [List.cons_append, List.cons_append]
      dsimp only
      rw [if_pos he, if_neg hsign]
      exact skipDigits_append hds hdigits
  | signed he hs hds =>
      unfold skipExponent
      rw [List.cons_append, List.cons_append]
      dsimp only
      rw [if_pos he, if_pos hs]
      exact skipDigits_append hds hdigits

theorem exists_exponent {cs rest : List UInt8} (h : skipExponent cs = .ok rest) :
    ∃ w, Exponent w ∧ cs = w ++ rest := by
  unfold skipExponent at h
  split at h
  · next e after =>
    split at h
    · next he =>
      split at h
      · next s after =>
        split at h
        · next hs =>
          obtain ⟨ds, hds, rfl⟩ := exists_digits h
          exact ⟨_, .signed he hs hds, rfl⟩
        · obtain ⟨ds, hds, hafter⟩ := exists_digits h
          exact ⟨_, .digits he hds, by rw [hafter, List.cons_append]⟩
      · contradiction
    · obtain rfl := Except.ok.inj h
      exact ⟨[], .none, rfl⟩
  · obtain rfl := Except.ok.inj h
    exact ⟨[], .none, rfl⟩

/-- No exponent begins with a digit or a point, and nothing that ends a value does. -/
theorem head?_exponent {w rest : List UInt8} (h : Exponent w) (hrest : Ended rest) {b : UInt8}
    (hb : (w ++ rest).head? = some b) : isDigit b = false ∧ b ≠ '.'.toUInt8 := by
  have hmark : ∀ {e : UInt8}, e = 'e'.toUInt8 ∨ e = 'E'.toUInt8 → some e = some b →
      isDigit b = false ∧ b ≠ '.'.toUInt8 := by
    intro e he hb
    obtain rfl := Option.some.inj hb
    rcases he with rfl | rfl <;> decide
  cases h with
  | none =>
      obtain ⟨hdigit, hpoint, -⟩ := not_digit_of_endsValue (hrest b hb)
      exact ⟨hdigit, hpoint⟩
  | digits he _ => exact hmark he hb
  | signed he _ _ => exact hmark he hb

theorem NumberText.reads {w rest : List UInt8} (h : NumberText w) (hrest : Ended rest) :
    skipNumber (w ++ rest) = .ok rest := by
  obtain @⟨whole, fraction, exponent, ⟨⟨hne, hdigits⟩, hzero⟩, hfraction, hexponent⟩ := h
  have hafter : ∀ b, (fraction ++ (exponent ++ rest)).head? = some b → isDigit b = false := by
    intro b hb
    cases hfraction with
    | none => exact (head?_exponent hexponent hrest hb).1
    | digits _ =>
        obtain rfl := Option.some.inj hb
        decide
  obtain ⟨htake, hdrop⟩ := takeWhile_run hdigits hafter
  have hform : ¬ (whole.isEmpty = true ∨ whole.head? = some '0'.toUInt8 ∧ 1 < whole.length) := by
    rintro (hempty | hlead)
    · exact hne (List.isEmpty_iff.mp hempty)
    · exact hzero hlead
  unfold skipNumber
  rw [List.append_assoc, List.append_assoc, htake, hdrop]
  dsimp only
  rw [if_neg hform]
  cases hfraction with
  | none =>
      rw [List.nil_append]
      cases hcs : exponent ++ rest with
      | nil => rw [(List.append_eq_nil_iff.mp hcs).2]
      | cons b after =>
          have hpoint := (head?_exponent hexponent hrest (b := b) (by rw [hcs]; rfl)).2
          dsimp only
          rw [if_neg hpoint, ← hcs]
          exact skipExponent_append hexponent hrest
  | digits hds =>
      rw [List.cons_append]
      dsimp only
      rw [if_pos rfl, skipDigits_append hds fun b hb => (head?_exponent hexponent hrest hb).1]
      exact skipExponent_append hexponent hrest

theorem exists_number {cs rest : List UInt8} (h : skipNumber cs = .ok rest) :
    ∃ w, NumberText w ∧ cs = w ++ rest := by
  unfold skipNumber at h
  dsimp only at h
  split at h
  · contradiction
  next hform =>
  rw [not_or] at hform
  obtain ⟨hsome, hzero⟩ := hform
  have hwhole : Whole (cs.takeWhile isDigit) :=
    ⟨⟨by simpa [List.isEmpty_iff] using hsome, fun d hd => List.mem_takeWhile_imp hd⟩, hzero⟩
  have hcs : cs = cs.takeWhile isDigit ++ cs.dropWhile isDigit :=
    List.takeWhile_append_dropWhile.symm
  split at h
  · next b after hafter =>
    split at h
    · next hb =>
      obtain ⟨left, hleft, hexponent⟩ := bind_eq_ok.mp h
      obtain ⟨ds, hds, rfl⟩ := exists_digits hleft
      obtain ⟨w, hw, rfl⟩ := exists_exponent hexponent
      refine ⟨_, .mk hwhole (.digits hds) hw, ?_⟩
      rw [hafter, hb] at hcs
      simpa only [List.append_assoc, List.cons_append] using hcs
    · obtain ⟨w, hw, hexponent⟩ := exists_exponent h
      refine ⟨_, .mk hwhole .none hw, ?_⟩
      rw [hafter, hexponent] at hcs
      rwa [List.append_assoc]
  · next hafter =>
    obtain rfl := Except.ok.inj h
    refine ⟨_, .mk hwhole .none .none, ?_⟩
    rw [hafter] at hcs
    simpa using hcs

end Json

end Reserved
