import Reserved.Text.Utf8

/-!
# Two texts never share their bytes

The first byte of a character says how many bytes it takes, and these bytes determine the
character. A byte sequence therefore falls into characters in at most one way, and texts may
be compared by their bytes. The bytes of a text are read as this text again, and a place in a
text may be given by the bytes before it.
-/

namespace Reserved

namespace Utf8

theorem toNat_lt (c : Char) : c.toNat < 0x110000 := by
  rcases c.valid with h | ⟨_, h⟩
  · exact Nat.lt_trans h (by decide)
  · exact h

/-- The bytes of a character as numbers. -/
def codes (v : Nat) : List Nat :=
  if v < 0x80 then [v]
  else if v < 0x800 then [0xC0 + v / 64, 0x80 + v % 64]
  else if v < 0x10000 then [0xE0 + v / 4096, 0x80 + v / 64 % 64, 0x80 + v % 64]
  else [0xF0 + v / 262144, 0x80 + v / 4096 % 64, 0x80 + v / 64 % 64, 0x80 + v % 64]

theorem map_toNat_encodeChar (c : Char) : (encodeChar c).map UInt8.toNat = codes c.toNat := by
  have hc := toNat_lt c
  have hsmall : ∀ n, n < 256 → (UInt8.ofNat n).toNat = n := fun n hn => by
    rw [UInt8.toNat_ofNat', Nat.mod_eq_of_lt hn]
  have htail : ∀ n, (UInt8.ofNat (0x80 + n % 64)).toNat = 0x80 + n % 64 := fun n =>
    hsmall _ (by omega)
  unfold encodeChar codes
  dsimp only
  split
  · rw [List.map_singleton, hsmall _ (by omega)]
  · split
    · simp only [List.map_cons, List.map_nil, htail]
      rw [hsmall _ (by omega)]
    · split
      · simp only [List.map_cons, List.map_nil, htail]
        rw [hsmall _ (by omega)]
      · simp only [List.map_cons, List.map_nil, htail]
        rw [hsmall _ (by omega)]

/-- The four forms, told apart by their first code. -/
theorem codes_cases {v : Nat} (hv : v < 0x110000) :
    (v < 0x80 ∧ codes v = [v]) ∨
    (0x80 ≤ v ∧ v < 0x800 ∧ codes v = [0xC0 + v / 64, 0x80 + v % 64]) ∨
    (0x800 ≤ v ∧ v < 0x10000 ∧
      codes v = [0xE0 + v / 4096, 0x80 + v / 64 % 64, 0x80 + v % 64]) ∨
    (0x10000 ≤ v ∧ v < 0x110000 ∧ codes v =
      [0xF0 + v / 262144, 0x80 + v / 4096 % 64, 0x80 + v / 64 % 64, 0x80 + v % 64]) := by
  unfold codes
  by_cases h1 : v < 0x80
  · exact Or.inl ⟨h1, if_pos h1⟩
  · by_cases h2 : v < 0x800
    · exact Or.inr (Or.inl ⟨by omega, h2, by rw [if_neg h1, if_pos h2]⟩)
    · by_cases h3 : v < 0x10000
      · exact Or.inr (Or.inr (Or.inl ⟨by omega, h3, by rw [if_neg h1, if_neg h2, if_pos h3]⟩))
      · exact Or.inr (Or.inr (Or.inr
          ⟨by omega, hv, by rw [if_neg h1, if_neg h2, if_neg h3]⟩))

/-- The codes at the front of a sequence determine the character they spell. -/
theorem codes_append_inj {v w : Nat} {x y : List Nat} (hv : v < 0x110000) (hw : w < 0x110000)
    (h : codes v ++ x = codes w ++ y) : v = w ∧ x = y := by
  rcases codes_cases hv with ⟨hv, hcv⟩ | ⟨hv, hv', hcv⟩ | ⟨hv, hv', hcv⟩ | ⟨hv, hv', hcv⟩ <;>
    rcases codes_cases hw with ⟨hw, hcw⟩ | ⟨hw, hw', hcw⟩ | ⟨hw, hw', hcw⟩ | ⟨hw, hw', hcw⟩ <;>
    rw [hcv, hcw] at h <;>
    simp only [List.cons_append, List.nil_append, List.cons.injEq] at h
  -- forms of different length differ in their first code
  any_goals (exfalso; omega)
  · exact h
  · exact ⟨by omega, h.2.2⟩
  · exact ⟨by omega, h.2.2.2⟩
  · exact ⟨by omega, h.2.2.2.2⟩

theorem encodeChar_append_inj {c d : Char} {x y : List UInt8}
    (h : encodeChar c ++ x = encodeChar d ++ y) : c = d ∧ x = y := by
  have hcodes := congrArg (List.map UInt8.toNat) h
  rw [List.map_append, List.map_append, map_toNat_encodeChar, map_toNat_encodeChar] at hcodes
  obtain ⟨hv, hx⟩ := codes_append_inj (toNat_lt c) (toNat_lt d) hcodes
  have hinj : Function.Injective UInt8.toNat := fun a b hab => UInt8.toNat_inj.mp hab
  exact ⟨Char.toNat_inj.mp hv, (List.map_inj_right fun a b hab => hinj hab).mp hx⟩

theorem encodeChar_ne_nil (c : Char) : encodeChar c ≠ [] := by
  intro h
  have hpos := width_pos c
  unfold width at hpos
  rw [h] at hpos
  exact absurd hpos (by decide)

/-- **Texts with the same bytes are the same.** -/
theorem encode_inj : ∀ {a b : List Char}, encode a = encode b → a = b
  | [], [], _ => rfl
  | [], d :: b, h => by
      rw [encode_cons, encode_nil] at h
      exact absurd (List.append_eq_nil_iff.mp h.symm).1 (encodeChar_ne_nil d)
  | c :: a, [], h => by
      rw [encode_cons, encode_nil] at h
      exact absurd (List.append_eq_nil_iff.mp h).1 (encodeChar_ne_nil c)
  | c :: a, d :: b, h => by
      rw [encode_cons, encode_cons] at h
      obtain ⟨rfl, hrest⟩ := encodeChar_append_inj h
      rw [encode_inj hrest]

/-! ## Cutting a text at a byte -/

@[simp]
theorem size_append (a b : List Char) : size (a ++ b) = size a + size b := by
  rw [← length_encode, encode_append, List.length_append, length_encode, length_encode]

theorem size_eq_zero {cs : List Char} : size cs = 0 ↔ cs = [] := by
  cases cs with
  | nil => exact ⟨fun _ => rfl, fun _ => rfl⟩
  | cons c rest =>
      have hpos := width_pos c
      constructor
      · intro h
        rw [size] at h
        omega
      · intro h
        exact absurd h (by simp)

/-- Of two ways to cut a text, the one with the shorter first part cuts the first part of the
other. -/
theorem exists_between {a b a' b' : List Char} (h : a ++ b = a' ++ b')
    (hle : size a ≤ size a') : ∃ m, a' = a ++ m ∧ b = m ++ b' := by
  rcases List.append_eq_append_iff.mp h with ⟨m, ha, hb⟩ | ⟨m, ha, hb⟩
  · exact ⟨m, ha, hb⟩
  · -- the other way round there is nothing between the cuts
    rw [ha, size_append] at hle
    have hm : m = [] := size_eq_zero.mp (by omega)
    subst hm
    rw [List.append_nil] at ha
    rw [List.nil_append] at hb
    exact ⟨[], by rw [ha, List.append_nil], hb.symm⟩

/-- A text can be cut at a byte in one way only. -/
theorem append_inj_of_size {a b a' b' : List Char} (h : a ++ b = a' ++ b')
    (hsize : size a = size a') : a = a' ∧ b = b' := by
  obtain ⟨m, ha, hb⟩ := exists_between h (Nat.le_of_eq hsize)
  have hm : m = [] := by
    rw [ha, size_append] at hsize
    exact size_eq_zero.mp (by omega)
  subst hm
  rw [List.append_nil] at ha
  exact ⟨ha.symm, hb⟩

theorem dropBytes?_append (a b : List Char) : dropBytes? (size a) (a ++ b) = some b := by
  induction a with
  | nil => cases b <;> rfl
  | cons c a ih =>
      have hpos := width_pos c
      rw [List.cons_append, dropBytes?, size, if_neg (by omega), if_pos (by omega),
        Nat.add_sub_cancel_left]
      exact ih

theorem takeBytes?_append (a b : List Char) : takeBytes? (size a) (a ++ b) = some a := by
  induction a with
  | nil => cases b <;> rfl
  | cons c a ih =>
      have hpos := width_pos c
      rw [List.cons_append, takeBytes?, size, if_neg (by omega), if_pos (by omega),
        Nat.add_sub_cancel_left, ih]
      rfl

/-- A part of a text is read where it stands. -/
theorem slice?_append (before text after : List Char) :
    slice? (size before) (size text) (before ++ (text ++ after)) = some text := by
  rw [slice?, dropBytes?_append, Option.bind_some, takeBytes?_append]

/-! ## Reading what was written -/

/-- What the first of three bytes begins: the bits it has, and bounds that the second keeps.
The surrogates, which are no characters, are what the bounds after 0xED leave out. -/
theorem begin?_three {v : Nat} (hlow : 0x800 ≤ v) (hhigh : v < 0x10000)
    (hvalid : v < 0xD800 ∨ 0xDFFF < v) :
    ∃ low high, begin? (0xE0 + v / 4096) = some ⟨2, low, high, v / 4096, 1⟩ ∧
      low ≤ 0x80 + v / 64 % 64 ∧ 0x80 + v / 64 % 64 ≤ high := by
  unfold begin?
  rw [if_neg (by omega)]
  by_cases h0 : 0xE0 + v / 4096 = 0xE0
  · rw [if_pos h0]
    have hv : v / 4096 = 0 := by omega
    exact ⟨0xA0, 0xBF, by rw [hv], by omega, by omega⟩
  · rw [if_neg h0]
    by_cases hD : 0xE0 + v / 4096 = 0xED
    · rw [if_pos hD]
      have hv : v / 4096 = 0xD := by omega
      exact ⟨0x80, 0x9F, by rw [hv], by omega, by omega⟩
    · rw [if_neg hD, if_pos (by omega), Nat.add_sub_cancel_left]
      exact ⟨0x80, 0xBF, rfl, by omega, by omega⟩

/-- What the first of four bytes begins. -/
theorem begin?_four {v : Nat} (hlow : 0x10000 ≤ v) (hhigh : v < 0x110000) :
    ∃ low high, begin? (0xF0 + v / 262144) = some ⟨3, low, high, v / 262144, 1⟩ ∧
      low ≤ 0x80 + v / 4096 % 64 ∧ 0x80 + v / 4096 % 64 ≤ high := by
  unfold begin?
  rw [if_neg (by omega), if_neg (by omega), if_neg (by omega), if_neg (by omega)]
  by_cases h0 : 0xF0 + v / 262144 = 0xF0
  · rw [if_pos h0]
    have hv : v / 262144 = 0 := by omega
    exact ⟨0x90, 0xBF, by rw [hv], by omega, by omega⟩
  · rw [if_neg h0]
    by_cases h4 : 0xF0 + v / 262144 = 0xF4
    · rw [if_neg (by omega), if_pos h4]
      have hv : v / 262144 = 4 := by omega
      exact ⟨0x80, 0x8F, by rw [hv], by omega, by omega⟩
    · rw [if_pos (by omega), Nat.add_sub_cancel_left]
      exact ⟨0x80, 0xBF, rfl, by omega, by omega⟩

/-- The last byte that was owed completes the character. -/
theorem piecesFrom_last {low high value read d : Nat} {rest : List UInt8} (hd : d < 64)
    (hlow : low ≤ 0x80 + d) (hhigh : 0x80 + d ≤ high) :
    piecesFrom (some ⟨1, low, high, value, read⟩) (UInt8.ofNat (0x80 + d) :: rest)
      = .char (Char.ofNat (value * 64 + d)) :: piecesFrom none rest := by
  have hb : (UInt8.ofNat (0x80 + d)).toNat = 0x80 + d := by
    rw [UInt8.toNat_ofNat', Nat.mod_eq_of_lt (by omega)]
  rw [piecesFrom, advance]
  simp only [hb]
  rw [if_pos ⟨hlow, hhigh⟩, Nat.add_sub_cancel_left]
  rfl

/-- Any other byte that was owed leaves one less owed. -/
theorem piecesFrom_owed {owed low high value read d : Nat} {rest : List UInt8} (hd : d < 64)
    (howed : 1 < owed) (hlow : low ≤ 0x80 + d) (hhigh : 0x80 + d ≤ high) :
    piecesFrom (some ⟨owed, low, high, value, read⟩) (UInt8.ofNat (0x80 + d) :: rest)
      = piecesFrom (some ⟨owed - 1, 0x80, 0xBF, value * 64 + d, read + 1⟩) rest := by
  have hb : (UInt8.ofNat (0x80 + d)).toNat = 0x80 + d := by
    rw [UInt8.toNat_ofNat', Nat.mod_eq_of_lt (by omega)]
  rw [piecesFrom, advance]
  simp only [hb]
  rw [if_pos ⟨hlow, hhigh⟩, Nat.add_sub_cancel_left, if_neg (by omega)]
  rfl

/-- The first byte of several begins a character. -/
theorem piecesFrom_begin {b : Nat} {p : Begun} {rest : List UInt8} (hlow : 0x80 ≤ b)
    (hhigh : b < 256) (h : begin? b = some p) :
    piecesFrom none (UInt8.ofNat b :: rest) = piecesFrom (some p) rest := by
  have hb : (UInt8.ofNat b).toNat = b := by
    rw [UInt8.toNat_ofNat', Nat.mod_eq_of_lt hhigh]
  rw [piecesFrom, advance, start]
  simp only [hb]
  rw [if_neg (by omega), h]
  rfl

/-- **The bytes of a character are read as this character**, whatever follows them. -/
theorem pieces_encodeChar (c : Char) (rest : List UInt8) :
    pieces (encodeChar c ++ rest) = .char c :: pieces rest := by
  have hc := toNat_lt c
  have hvalid : c.toNat < 0xD800 ∨ 0xDFFF < c.toNat := by
    rcases c.valid with h | ⟨h, _⟩
    · exact Or.inl h
    · exact Or.inr h
  have hchar : Char.ofNat c.toNat = c := Char.ofNat_toNat c
  unfold pieces encodeChar
  dsimp only
  generalize c.toNat = v at hc hvalid hchar
  split
  · next h1 =>
    have hb : (UInt8.ofNat v).toNat = v := by
      rw [UInt8.toNat_ofNat', Nat.mod_eq_of_lt (by omega)]
    rw [List.singleton_append, piecesFrom, advance, start]
    simp only [hb]
    rw [if_pos h1, hchar]
    rfl
  · split
    · next h1 h2 =>
      have hbegin : begin? (0xC0 + v / 64) = some ⟨1, 0x80, 0xBF, v / 64, 1⟩ := by
        unfold begin?
        rw [if_pos (by omega), Nat.add_sub_cancel_left]
      have hv : v / 64 * 64 + v % 64 = v := by omega
      rw [List.cons_append, List.singleton_append,
        piecesFrom_begin (by omega) (by omega) hbegin,
        piecesFrom_last (by omega) (by omega) (by omega), hv, hchar]
    · split
      · next h1 h2 h3 =>
        obtain ⟨low, high, hbegin, hlow, hhigh⟩ := begin?_three (by omega) h3 hvalid
        have hv : (v / 4096 * 64 + v / 64 % 64) * 64 + v % 64 = v := by omega
        rw [List.cons_append, List.cons_append, List.singleton_append,
          piecesFrom_begin (by omega) (by omega) hbegin,
          piecesFrom_owed (by omega) (by omega) hlow hhigh,
          piecesFrom_last (by omega) (by omega) (by omega), hv, hchar]
      · next h1 h2 h3 =>
        obtain ⟨low, high, hbegin, hlow, hhigh⟩ := begin?_four (by omega) hc
        have hv : ((v / 262144 * 64 + v / 4096 % 64) * 64 + v / 64 % 64) * 64 + v % 64 = v := by
          omega
        rw [List.cons_append, List.cons_append, List.cons_append, List.singleton_append,
          piecesFrom_begin (by omega) (by omega) hbegin,
          piecesFrom_owed (by omega) (by omega) hlow hhigh,
          piecesFrom_owed (by omega) (by omega) (by omega) (by omega),
          piecesFrom_last (by omega) (by omega) (by omega), hv, hchar]

theorem pieces_encode (cs : List Char) : pieces (encode cs) = cs.map .char := by
  induction cs with
  | nil => rfl
  | cons c cs ih => rw [encode_cons, pieces_encodeChar, ih, List.map_cons]

theorem strict_map_char (cs : List Char) : ∀ index, strict index (cs.map .char) = .ok cs := by
  induction cs with
  | nil => exact fun _ => rfl
  | cons c cs ih =>
      intro index
      rw [List.map_cons, strict, ih]

/-- **The bytes of a text spell the text.** -/
theorem decode_encode (cs : List Char) : decode (encode cs) = .ok cs := by
  rw [decode, pieces_encode, strict_map_char]

/-! ## How long a text is -/

/-- A byte that is no continuation is a piece or the beginning of one. -/
theorem length_start (b : UInt8) : (start b).1.length + (start b).2.toList.length = 1 := by
  unfold start
  split
  · rfl
  · split
    · rfl
    · rfl

theorem length_advance (st : Option Begun) (b : UInt8) :
    (advance st b).1.length + (advance st b).2.toList.length ≤ st.toList.length + 1 := by
  cases st with
  | none =>
      have := length_start b
      rw [advance]
      omega
  | some p =>
      rw [advance]
      split
      · split
        · exact Nat.le_succ 1
        · exact Nat.le_succ 1
      · have hstart := length_start b
        show (start b).1.length + 1 + (start b).2.toList.length ≤ 2
        omega

/-- There are no more pieces than bytes, if what has been begun counts as one. -/
theorem length_piecesFrom (bytes : List UInt8) :
    ∀ st : Option Begun, (piecesFrom st bytes).length ≤ st.toList.length + bytes.length := by
  induction bytes with
  | nil =>
      intro st
      cases st with
      | none => exact Nat.le_refl 0
      | some p => exact Nat.le_refl 1
  | cons b rest ih =>
      intro st
      have hadvance := length_advance st b
      have hrest := ih (advance st b).2
      rw [piecesFrom, List.length_append, List.length_cons]
      omega

theorem length_of_strict {ps : List Piece} : ∀ {index : Nat} {cs : List Char},
    strict index ps = .ok cs → cs.length = ps.length := by
  induction ps with
  | nil =>
      intro index cs h
      obtain rfl := Except.ok.inj h
      rfl
  | cons p rest ih =>
      intro index cs h
      cases p with
      | char c =>
          rw [strict] at h
          split at h
          · next cs' hrest =>
            obtain rfl := Except.ok.inj h
            rw [List.length_cons, List.length_cons, ih hrest]
          · contradiction
      | ill n => contradiction
      | cut n => contradiction

/-- **A text has no more characters than bytes.** -/
theorem length_le_of_decode {bytes : List UInt8} {cs : List Char} (h : decode bytes = .ok cs) :
    cs.length ≤ bytes.length := by
  rw [length_of_strict h]
  have hle := length_piecesFrom bytes none
  rwa [Option.toList_none, List.length_nil, Nat.zero_add] at hle

/-- An ASCII character takes one byte. -/
theorem size_of_ascii {cs : List Char} (h : ∀ c ∈ cs, c.toNat < 0x80) : size cs = cs.length := by
  induction cs with
  | nil => rfl
  | cons c rest ih =>
      have hwidth : width c = 1 := by
        rw [width, encodeChar, if_pos (h c List.mem_cons_self)]
        rfl
      rw [size, hwidth, ih fun x hx => h x (List.mem_cons_of_mem _ hx), List.length_cons,
        Nat.add_comm]

end Utf8

theorem utf8_append (a b : String) : (a ++ b).utf8 = a.utf8 ++ b.utf8 := by
  unfold String.utf8
  rw [String.toList_append, Utf8.encode_append]

theorem utf8_inj {a b : String} (h : a.utf8 = b.utf8) : a = b :=
  String.toList_inj.mp (Utf8.encode_inj h)

theorem utf8_ne_nil {s : String} (h : s ≠ "") : s.utf8 ≠ [] := fun hnil => h (utf8_inj hnil)

end Reserved
