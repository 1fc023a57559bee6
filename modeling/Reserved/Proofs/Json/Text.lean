import Reserved.Proofs.Json.Lexeme
import Reserved.Table.Json

/-!
# Strings that are read back

A string is escaped character by character and read byte by byte. The two meet in one lemma
for a single character: whatever it is written as, an escape of one letter, one of four
digits or its own bytes, comes out as its bytes.
-/

namespace Reserved

namespace Json

/-- What is read of a string once `front` has come out of it already. -/
def withFront (front : List UInt8) (r : Except Error (List UInt8 × List UInt8)) :
    Except Error (List UInt8 × List UInt8) :=
  r.map fun (bytes, left) => (front ++ bytes, left)

theorem withFront_ok (front bytes left : List UInt8) :
    withFront front (.ok (bytes, left)) = .ok (front ++ bytes, left) := rfl

theorem withFront_append (a b : List UInt8) (r : Except Error (List UInt8 × List UInt8)) :
    withFront (a ++ b) r = withFront a (withFront b r) := by
  cases r with
  | error e => rfl
  | ok p => exact congrArg (fun bytes => Except.ok (bytes, p.2)) (List.append_assoc a b p.1)

theorem withFront_nil (r : Except Error (List UInt8 × List UInt8)) : withFront [] r = r := by
  cases r <;> rfl

/-! ## Bytes that stand for themselves -/

/-- Whether a byte of a string stands for itself. -/
def IsPlain (b : UInt8) : Prop :=
  b ≠ '"'.toUInt8 ∧ b ≠ '\\'.toUInt8 ∧ ¬ b < 0x20

theorem stringBytes_plain (more : List UInt8) : ∀ bs : List UInt8, (∀ b ∈ bs, IsPlain b) →
    stringBytes 0 (bs ++ more) = withFront bs (stringBytes 0 more)
  | [], _ => (withFront_nil _).symm
  | b :: bs, h => by
      obtain ⟨hquote, hslash, hcontrol⟩ := h b List.mem_cons_self
      have ih := stringBytes_plain more bs fun b hb => h b (List.mem_cons_of_mem _ hb)
      rw [List.cons_append, stringBytes, if_neg hquote, if_neg hslash, if_neg hcontrol, ih]
      exact (withFront_append [b] bs _).symm

/-- The bytes of a character are its number, if it has but one, or none of them is below
0x80. -/
theorem mem_encodeChar {c : Char} {b : UInt8} (h : b ∈ Utf8.encodeChar c) :
    b.toNat = c.toNat ∨ 0x80 ≤ b.toNat := by
  have hmem : b.toNat ∈ Utf8.codes c.toNat := by
    rw [← Utf8.map_toNat_encodeChar]
    exact List.mem_map_of_mem h
  rcases Utf8.codes_cases (Utf8.toNat_lt c) with ⟨-, hc⟩ | ⟨-, -, hc⟩ | ⟨-, -, hc⟩ | ⟨-, -, hc⟩
  all_goals
    rw [hc] at hmem
    simp only [List.mem_cons, List.not_mem_nil, or_false] at hmem
    omega

theorem isPlain_of_mem_encodeChar {c : Char} (hquote : c ≠ '"') (hslash : c ≠ '\\')
    (hcontrol : ¬ c.toNat < 0x20) {b : UInt8} (hb : b ∈ Utf8.encodeChar c) : IsPlain b := by
  have hvalue := mem_encodeChar hb
  have hne : ∀ d : Char, d.toNat < 0x80 → c ≠ d → b ≠ d.toUInt8 := by
    intro d hd hcd hbd
    have hnumber : d.toUInt8.toNat = d.toNat := by
      show d.toNat % 256 = d.toNat
      omega
    rw [hbd, hnumber] at hvalue
    rcases hvalue with h | h
    · exact hcd (Char.toNat_inj.mp h.symm)
    · omega
  refine ⟨hne _ (by decide) hquote, hne _ (by decide) hslash, ?_⟩
  intro h
  have h20 : b.toNat < 0x20 := UInt8.lt_iff_toNat_lt.mp h
  omega

/-! ## Escapes -/

/-- The bytes of an escape are passed over once it has been read. -/
theorem stringBytes_skip (more : List UInt8) : ∀ bs : List UInt8,
    stringBytes bs.length (bs ++ more) = stringBytes 0 more
  | [] => rfl
  | b :: bs => by
      rw [List.length_cons, List.cons_append, stringBytes]
      exact stringBytes_skip more bs

/-- An escape comes out as what it stands for. -/
theorem stringBytes_escape {bs out : List UInt8} {more : List UInt8}
    (h : escape (bs ++ more) = .ok (out, bs.length)) :
    stringBytes 0 ('\\'.toUInt8 :: (bs ++ more)) = withFront out (stringBytes 0 more) := by
  have hquote : '\\'.toUInt8 ≠ '"'.toUInt8 := by decide
  rw [stringBytes, if_neg hquote, if_pos rfl, h]
  dsimp only
  rw [stringBytes_skip]
  rfl

theorem encodeChar_hexDigit : ∀ d < 16, ∃ b : UInt8,
    Utf8.encodeChar (Nat.digitChar d) = [b] ∧ hexDigit? b = some d := by
  intro d hd
  have hall : ∀ d < 16, Utf8.encodeChar (Nat.digitChar d) = [(Nat.digitChar d).toUInt8] ∧
      hexDigit? (Nat.digitChar d).toUInt8 = some d := by decide
  exact ⟨_, hall d hd⟩

/-- A control is written by its number, in four digits of which the first two are zero. -/
theorem stringBytes_control {c : Char} (hc : c.toNat < 0x20) (more : List UInt8) :
    stringBytes 0 (Utf8.encode ['\\', 'u', '0', '0', Nat.digitChar (c.toNat / 16),
        Nat.digitChar (c.toNat % 16)] ++ more)
      = withFront (Utf8.encodeChar c) (stringBytes 0 more) := by
  obtain ⟨high, hhigh, hhigh'⟩ := encodeChar_hexDigit (c.toNat / 16) (by omega)
  obtain ⟨low, hlow, hlow'⟩ := encodeChar_hexDigit (c.toNat % 16) (by omega)
  have hbytes : Utf8.encode ['\\', 'u', '0', '0', Nat.digitChar (c.toNat / 16),
      Nat.digitChar (c.toNat % 16)]
      = '\\'.toUInt8 :: ['u'.toUInt8, '0'.toUInt8, '0'.toUInt8, high, low] := by
    have hmarks : Utf8.encodeChar '\\' = ['\\'.toUInt8] ∧ Utf8.encodeChar 'u' = ['u'.toUInt8] ∧
        Utf8.encodeChar '0' = ['0'.toUInt8] := by decide
    obtain ⟨hback, hu, hzero⟩ := hmarks
    simp only [Utf8.encode_cons, Utf8.encode_nil, hhigh, hlow, hback, hu, hzero,
      List.cons_append, List.nil_append]
  have hunit : hexUnit ('0'.toUInt8 :: '0'.toUInt8 :: high :: low :: more) = .ok c.toNat := by
    have hzero : hexDigit? '0'.toUInt8 = some 0 := by decide
    have hvalue : ((0 * 16 + 0) * 16 + c.toNat / 16) * 16 + c.toNat % 16 = c.toNat := by omega
    simp only [hexUnit, hzero, hhigh', hlow', hvalue]
  have hescape : escape (['u'.toUInt8, '0'.toUInt8, '0'.toUInt8, high, low] ++ more)
      = .ok (Utf8.encodeChar c, 5) := by
    rw [List.cons_append, escape, if_pos rfl]
    show (codePoint ('0'.toUInt8 :: '0'.toUInt8 :: high :: low :: more)).map _ = _
    rw [codePoint, hunit]
    dsimp only
    rw [if_neg (by omega), if_neg (by omega)]
    show Except.ok (Utf8.encodeChar (Char.ofNat c.toNat), 5) = _
    rw [Char.ofNat_toNat]
  rw [hbytes]
  exact stringBytes_escape hescape

/-- **A character comes out of a string as its bytes**, whether it was escaped or not. -/
theorem stringBytes_escapeChar (c : Char) (more : List UInt8) :
    stringBytes 0 (Utf8.encode (TableJson.escapeChar c) ++ more)
      = withFront (Utf8.encodeChar c) (stringBytes 0 more) := by
  have hletter : ∀ (letter : UInt8) (out : List UInt8),
      escape ([letter] ++ more) = .ok (out, 1) →
      stringBytes 0 ('\\'.toUInt8 :: ([letter] ++ more)) = withFront out (stringBytes 0 more) :=
    fun _ _ h => stringBytes_escape h
  unfold TableJson.escapeChar
  split
  · subst c; exact hletter _ _ rfl
  split
  · subst c; exact hletter _ _ rfl
  split
  · subst c; exact hletter _ _ rfl
  split
  · subst c; exact hletter _ _ rfl
  split
  · subst c; exact hletter _ _ rfl
  split
  · subst c; exact hletter _ _ rfl
  split
  · subst c; exact hletter _ _ rfl
  split
  · next hcontrol => exact stringBytes_control hcontrol more
  · -- what is written as it is neither ends the string nor is refused in it
    next hquote hslash _ _ _ _ _ hcontrol =>
    rw [Utf8.encode_cons, Utf8.encode_nil, List.append_nil]
    exact stringBytes_plain more _ fun b => isPlain_of_mem_encodeChar hquote hslash hcontrol

theorem stringBytes_escapes (rest : List UInt8) : ∀ cs : List Char,
    stringBytes 0 (Utf8.encode (cs.flatMap TableJson.escapeChar) ++ '"'.toUInt8 :: rest)
      = .ok (Utf8.encode cs, rest)
  | [] => by
      show (if '"'.toUInt8 = '"'.toUInt8 then _ else _) = _
      rw [if_pos rfl]
      rfl
  | c :: cs => by
      rw [List.flatMap_cons, Utf8.encode_append, List.append_assoc, stringBytes_escapeChar,
        stringBytes_escapes rest cs, withFront_ok, Utf8.encode_cons]

/-- The bytes of a string between its quotes. -/
def escaped (s : String) : List UInt8 :=
  Utf8.encode (s.toList.flatMap TableJson.escapeChar)

/-- **A string is read as itself**, whatever characters it has. -/
theorem stringBody_escaped (s : String) (rest : List UInt8) :
    stringBody (escaped s ++ '"'.toUInt8 :: rest) = .ok (s, rest) := by
  unfold stringBody escaped
  rw [stringBytes_escapes, ok_bind]
  dsimp only
  rw [Utf8.decode_encode]
  dsimp only
  rw [String.ofList_toList]
  rfl

theorem utf8_renderString (s : String) :
    (TableJson.renderString s).utf8 = '"'.toUInt8 :: (escaped s ++ ['"'.toUInt8]) := by
  have hquote : Utf8.encodeChar '"' = ['"'.toUInt8] := by decide
  unfold TableJson.renderString String.utf8 escaped
  rw [String.toList_ofList, List.cons_append, Utf8.encode_cons, Utf8.encode_append,
    Utf8.encode_cons, hquote]
  rfl

end Json

end Reserved
