import Reserved.Proofs.Text.Utf8

/-!
# Only the bytes of a text are read as the text

Reading takes nothing but UTF-8. The bounds that the second byte of a character keeps are just
what rules out a longer form than the character needs, the surrogates and the numbers beyond the
last character; so whatever a first byte begins and the bytes after it complete is a character
whose bytes these are.
-/

namespace Reserved

namespace Utf8

/-- The strict reading lets only characters pass. -/
theorem eq_map_char_of_strict {ps : List Piece} : ∀ {index : Nat} {cs : List Char},
    strict index ps = .ok cs → ps = cs.map .char := by
  induction ps with
  | nil =>
      intro index cs h
      obtain rfl := Except.ok.inj h
      rfl
  | cons p rest ih =>
      intro index cs h
      cases p with
      | char c =>
          rw [strict] at h
          split at h
          · next cs' hrest =>
            obtain rfl := Except.ok.inj h
            rw [List.map_cons, ← ih hrest]
          · contradiction
      | ill n => contradiction
      | cut n => contradiction

/-- What a first byte begins, by the number of bytes it owes. -/
theorem begin?_cases {b : Nat} {p : Begun} (h : begin? b = some p) :
    (p.owed = 1 ∧ b = 0xC0 + p.value ∧ 2 ≤ p.value ∧ p.value < 32 ∧
      0x80 ≤ p.low ∧ p.high ≤ 0xBF) ∨
    (p.owed = 2 ∧ b = 0xE0 + p.value ∧ p.value < 16 ∧ 0x80 ≤ p.low ∧ p.high ≤ 0xBF ∧
      (p.value = 0 → 0xA0 ≤ p.low) ∧ (p.value = 0xD → p.high ≤ 0x9F)) ∨
    (p.owed = 3 ∧ b = 0xF0 + p.value ∧ p.value ≤ 4 ∧ 0x80 ≤ p.low ∧ p.high ≤ 0xBF ∧
      (p.value = 0 → 0x90 ≤ p.low) ∧ (p.value = 4 → p.high ≤ 0x8F)) := by
  unfold begin? at h
  split at h
  · obtain rfl := Option.some.inj h
    exact Or.inl ⟨rfl, by dsimp only; omega, by dsimp only; omega, by dsimp only; omega,
      Nat.le_refl _, Nat.le_refl _⟩
  iterate 3
    split at h
    · obtain rfl := Option.some.inj h
      refine Or.inr (Or.inl ⟨rfl, ?_⟩)
      dsimp only
      omega
  iterate 3
    split at h
    · obtain rfl := Option.some.inj h
      refine Or.inr (Or.inr ⟨rfl, ?_⟩)
      dsimp only
      omega
  · contradiction

/-- Where a character has been begun and only characters come out, the next byte goes on with
it. -/
theorem piecesFrom_begun {owed low high value read : Nat} {bytes : List UInt8} {cs : List Char}
    (h : piecesFrom (some ⟨owed, low, high, value, read⟩) bytes = cs.map .char) :
    ∃ b rest, bytes = b :: rest ∧ low ≤ b.toNat ∧ b.toNat ≤ high ∧
      cs.map .char = if owed ≤ 1
        then .char (Char.ofNat (value * 64 + (b.toNat - 0x80))) :: pieces rest
        else piecesFrom (some ⟨owed - 1, 0x80, 0xBF, value * 64 + (b.toNat - 0x80), read + 1⟩)
          rest := by
  cases bytes with
  | nil => cases cs <;> simp [piecesFrom] at h
  | cons b rest =>
      rw [piecesFrom, advance] at h
      dsimp only at h
      by_cases hbounds : low ≤ b.toNat ∧ b.toNat ≤ high
      · refine ⟨b, rest, rfl, hbounds.1, hbounds.2, ?_⟩
        rw [if_pos hbounds] at h
        rw [← h]
        by_cases howed : owed ≤ 1
        · rw [if_pos howed, if_pos howed]
          rfl
        · rw [if_neg howed, if_neg howed]
          rfl
      · -- a byte out of bounds ends a run that belongs to no character
        rw [if_neg hbounds] at h
        cases cs <;> simp at h

/-- The character with a given number has the bytes with its codes. -/
theorem encodeChar_ofNat {v : Nat} (hv : v.isValidChar) {bs : List UInt8}
    (h : bs.map UInt8.toNat = codes v) : encodeChar (Char.ofNat v) = bs := by
  have hnumber : (Char.ofNat v).toNat = v := by
    unfold Char.ofNat
    rw [dif_pos hv]
    rfl
  have hcodes := map_toNat_encodeChar (Char.ofNat v)
  rw [hnumber, ← h] at hcodes
  exact (List.map_inj_right fun a b hab => UInt8.toNat_inj.mp hab).mp hcodes

/-- If only characters come out, the bytes begin with those of the first. -/
theorem exists_encodeChar {b : UInt8} {bytes : List UInt8} {cs : List Char}
    (h : pieces (b :: bytes) = cs.map .char) :
    ∃ c cs' rest, cs = c :: cs' ∧ b :: bytes = encodeChar c ++ rest ∧
      pieces rest = cs'.map .char := by
  have hb : b.toNat < 256 := b.toNat_lt
  have hfirst : ∀ (bs : List UInt8) {rest : List UInt8} {v : Nat}, v.isValidChar →
      bs.map UInt8.toNat = codes v → b :: bytes = bs ++ rest →
      cs.map .char = .char (Char.ofNat v) :: pieces rest →
      ∃ c cs' rest, cs = c :: cs' ∧ b :: bytes = encodeChar c ++ rest ∧
        pieces rest = cs'.map .char := by
    intro bs rest v hv hbs hbytes hcs
    cases cs with
    | nil => contradiction
    | cons c cs' =>
        rw [List.map_cons, List.cons.injEq, Piece.char.injEq] at hcs
        refine ⟨c, cs', rest, rfl, ?_, hcs.2.symm⟩
        rw [hbytes, hcs.1, encodeChar_ofNat hv hbs]
  rw [pieces, piecesFrom, advance, start] at h
  split at h
  next out next hstart =>
  split at hstart
  · next hlow =>
    obtain ⟨rfl, rfl⟩ := Prod.mk.inj hstart
    refine hfirst [b] (Or.inl (by omega)) ?_ rfl h.symm
    rw [codes, if_pos hlow]
    rfl
  split at hstart
  · next p hp =>
    obtain ⟨rfl, rfl⟩ := Prod.mk.inj hstart
    obtain ⟨owed, low, high, value, read⟩ := p
    obtain ⟨b₁, rest₁, rfl, hlow₁, hhigh₁, h₁⟩ := piecesFrom_begun h
    rcases begin?_cases hp with ⟨rfl, hvalue, hbounds⟩ | ⟨rfl, hvalue, hbounds⟩ |
      ⟨rfl, hvalue, hbounds⟩
    all_goals dsimp only at hvalue hbounds
    · rw [if_pos (by decide)] at h₁
      refine hfirst [b, b₁] (Or.inl (by omega)) ?_ rfl h₁
      rw [codes, if_neg (by omega), if_pos (by omega)]
      simp only [List.map_cons, List.map_nil, List.cons.injEq, and_true]
      omega
    · rw [if_neg (by decide)] at h₁
      obtain ⟨b₂, rest₂, rfl, hlow₂, hhigh₂, h₂⟩ := piecesFrom_begun h₁.symm
      rw [if_pos (by decide)] at h₂
      refine hfirst [b, b₁, b₂] ?_ ?_ rfl h₂
      · unfold Nat.isValidChar
        omega
      · rw [codes, if_neg (by omega), if_neg (by omega), if_pos (by omega)]
        simp only [List.map_cons, List.map_nil, List.cons.injEq, and_true]
        omega
    · rw [if_neg (by decide)] at h₁
      obtain ⟨b₂, rest₂, rfl, hlow₂, hhigh₂, h₂⟩ := piecesFrom_begun h₁.symm
      rw [if_neg (by decide)] at h₂
      obtain ⟨b₃, rest₃, rfl, hlow₃, hhigh₃, h₃⟩ := piecesFrom_begun h₂.symm
      rw [if_pos (by decide)] at h₃
      refine hfirst [b, b₁, b₂, b₃] ?_ ?_ rfl h₃
      · unfold Nat.isValidChar
        omega
      · rw [codes, if_neg (by omega), if_neg (by omega), if_neg (by omega)]
        simp only [List.map_cons, List.map_nil, List.cons.injEq, and_true]
        omega
  · obtain ⟨rfl, -⟩ := Prod.mk.inj hstart
    cases cs <;> simp at h

theorem encode_of_pieces {bytes : List UInt8} : ∀ {cs : List Char},
    pieces bytes = cs.map .char → encode cs = bytes := by
  induction hn : bytes.length using Nat.strongRecOn generalizing bytes with
  | ind n ih =>
      intro cs h
      cases bytes with
      | nil =>
          cases cs with
          | nil => rfl
          | cons c cs => simp [pieces, piecesFrom] at h
      | cons b bytes =>
          obtain ⟨c, cs', rest, rfl, hbytes, hrest⟩ := exists_encodeChar h
          have hlength := congrArg List.length hbytes
          have hpos := width_pos c
          unfold width at hpos
          rw [List.length_append] at hlength
          rw [encode_cons, ih rest.length (by omega) rfl hrest, hbytes]

/-- **Bytes are read as a text exactly if they are its bytes.** -/
theorem decode_eq_ok_iff {bytes : List UInt8} {cs : List Char} :
    decode bytes = .ok cs ↔ encode cs = bytes := by
  constructor
  · intro h
    exact encode_of_pieces (eq_map_char_of_strict h)
  · intro h
    rw [← h, decode_encode]

end Utf8

end Reserved
