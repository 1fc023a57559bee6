import Reserved.Proofs.Json.Text
import Reserved.Proofs.Text.Decode

/-!
# Every spelling of a string

A string may be spelt in many ways: a character stands as its bytes or as an escape, and an escape
has one letter or gives the units of UTF-16. `Unescapes` says what is between the quotes of any of
them, and the reader takes exactly that. Of a string that nobody asked for only the form is
looked at, `Loose`: its escapes need not be paired, nor its bytes be UTF-8.
-/

namespace Reserved

namespace Json

/-- Four hexadecimal digits and the number they spell. -/
inductive Quad : List UInt8 → Nat → Prop
  | mk {a b c d : UInt8} {i j k l : Nat} : hexDigit? a = some i → hexDigit? b = some j →
      hexDigit? c = some k → hexDigit? d = some l →
      Quad [a, b, c, d] (((i * 16 + j) * 16 + k) * 16 + l)

/-- What may stand after a backslash, and the bytes it stands for. -/
inductive Escape : List UInt8 → List UInt8 → Prop
  | letter {b out : UInt8} : shortEscape? b = some out → Escape [b] [out]
  | unit {w : List UInt8} {n : Nat} : Quad w n → n < 0xD800 ∨ 0xDFFF < n →
      Escape ('u'.toUInt8 :: w) (Utf8.encodeChar (Char.ofNat n))
  /-- A code point beyond the first 65536, by two units. -/
  | pair {w w' : List UInt8} {high low : Nat} : Quad w high → 0xD800 ≤ high → high ≤ 0xDBFF →
      Quad w' low → 0xDC00 ≤ low → low ≤ 0xDFFF →
      Escape ('u'.toUInt8 :: (w ++ '\\'.toUInt8 :: 'u'.toUInt8 :: w'))
        (Utf8.encodeChar (Char.ofNat (0x10000 + (high - 0xD800) * 0x400 + (low - 0xDC00))))

/-- The bytes between the quotes of a string, and the bytes of the string. -/
inductive Unescapes : List UInt8 → List UInt8 → Prop
  | nil : Unescapes [] []
  | plain {b : UInt8} {body bytes : List UInt8} : IsPlain b → Unescapes body bytes →
      Unescapes (b :: body) (b :: bytes)
  | escape {e out body bytes : List UInt8} : Escape e out → Unescapes body bytes →
      Unescapes ('\\'.toUInt8 :: (e ++ body)) (out ++ bytes)

/-- Bytes that may stand between the quotes of a string that is passed over. -/
inductive Loose : List UInt8 → Prop
  | nil : Loose []
  | plain {b : UInt8} {body : List UInt8} : IsPlain b → Loose body → Loose (b :: body)
  | letter {b : UInt8} {body : List UInt8} : (shortEscape? b).isSome = true → Loose body →
      Loose ('\\'.toUInt8 :: b :: body)
  | unit {w body : List UInt8} {n : Nat} : Quad w n → Loose body →
      Loose ('\\'.toUInt8 :: 'u'.toUInt8 :: (w ++ body))

/-! ## Escapes -/

/-- No escape of one letter begins like those of four digits. -/
theorem ne_u_of_shortEscape? {b : UInt8} (h : (shortEscape? b).isSome = true) :
    b ≠ 'u'.toUInt8 := by
  rintro rfl
  exact absurd h (by decide)

theorem Quad.hexUnit {w : List UInt8} {n : Nat} (h : Quad w n) (more : List UInt8) :
    Json.hexUnit (w ++ more) = .ok n := by
  cases h with
  | mk ha hb hc hd => simp only [List.cons_append, List.nil_append, Json.hexUnit, ha, hb, hc, hd]

theorem Quad.length {w : List UInt8} {n : Nat} (h : Quad w n) : w.length = 4 := by
  cases h
  rfl

theorem quad_of_hexUnit {cs : List UInt8} {n : Nat} (h : hexUnit cs = .ok n) :
    ∃ w more, Quad w n ∧ cs = w ++ more := by
  unfold hexUnit at h
  split at h
  · next a b c d more =>
    split at h
    · next i j k l ha hb hc hd =>
      obtain rfl := Except.ok.inj h
      exact ⟨_, more, .mk ha hb hc hd, rfl⟩
    · contradiction
  · contradiction

theorem codePoint_of_quad {w : List UInt8} {n : Nat} (h : Quad w n) (hn : n < 0xD800 ∨ 0xDFFF < n)
    (more : List UInt8) : codePoint (w ++ more) = .ok (n, 4) := by
  unfold codePoint
  rw [h.hexUnit]
  dsimp only
  rw [if_neg (by omega), if_neg (by omega)]

theorem codePoint_of_pair {w w' : List UInt8} {high low : Nat} (h : Quad w high)
    (hhigh : 0xD800 ≤ high) (hhigh' : high ≤ 0xDBFF) (h' : Quad w' low) (hlow : 0xDC00 ≤ low)
    (hlow' : low ≤ 0xDFFF) (more : List UInt8) :
    codePoint (w ++ '\\'.toUInt8 :: 'u'.toUInt8 :: (w' ++ more))
      = .ok (0x10000 + (high - 0xD800) * 0x400 + (low - 0xDC00), 10) := by
  unfold codePoint
  rw [h.hexUnit]
  dsimp only
  rw [if_neg (by omega), if_pos ⟨hhigh, hhigh'⟩, ← h.length, List.drop_left, lowHalf,
    if_pos ⟨rfl, rfl⟩, h'.hexUnit]
  dsimp only
  rw [if_pos ⟨hlow, hlow'⟩]
  rfl

theorem pair_of_lowHalf {high n : Nat} {cs : List UInt8} (h : lowHalf high cs = .ok n) :
    ∃ w low more, Quad w low ∧ 0xDC00 ≤ low ∧ low ≤ 0xDFFF ∧
      n = 0x10000 + (high - 0xD800) * 0x400 + (low - 0xDC00) ∧
      cs = '\\'.toUInt8 :: 'u'.toUInt8 :: (w ++ more) := by
  unfold lowHalf at h
  split at h
  · contradiction
  · split at h <;> contradiction
  · next b u rest =>
    split at h
    · next hmarks =>
      split at h
      · contradiction
      · next low hlow =>
        split at h
        · next hrange =>
          obtain rfl := Except.ok.inj h
          obtain ⟨w, more, hw, rfl⟩ := quad_of_hexUnit hlow
          exact ⟨w, low, more, hw, hrange.1, hrange.2, rfl, by rw [hmarks.1, hmarks.2]⟩
        · contradiction
    · contradiction

theorem Escape.reads {e out : List UInt8} (h : Escape e out) (more : List UInt8) :
    Json.escape (e ++ more) = .ok (out, e.length) := by
  cases h with
  | letter hout =>
      have hb := ne_u_of_shortEscape? (Option.isSome_of_eq_some hout)
      rw [List.singleton_append, Json.escape, if_neg hb, hout]
      rfl
  | unit hw hn =>
      rw [List.cons_append, Json.escape, if_pos rfl, codePoint_of_quad hw hn,
        List.length_cons, hw.length]
      rfl
  | pair hw hhigh hhigh' hw' hlow hlow' =>
      have hcode := codePoint_of_pair hw hhigh hhigh' hw' hlow hlow' more
      simp only [List.cons_append, List.append_assoc]
      rw [Json.escape, if_pos rfl, hcode, Except.map]
      simp only [List.length_cons, List.length_append, hw.length, hw'.length]

theorem escape_of_codePoint {cs : List UInt8} {n taken : Nat}
    (h : codePoint cs = .ok (n, taken)) :
    ∃ e more, Escape ('u'.toUInt8 :: e) (Utf8.encodeChar (Char.ofNat n)) ∧ cs = e ++ more ∧
      e.length = taken := by
  unfold codePoint at h
  split at h
  · contradiction
  · next unit hunit =>
    obtain ⟨w, more, hw, rfl⟩ := quad_of_hexUnit hunit
    split at h
    · contradiction
    split at h
    · next hhigh =>
      obtain ⟨c, hhalf, hc⟩ := map_eq_ok.mp h
      obtain ⟨rfl, rfl⟩ := Prod.mk.inj hc
      rw [← hw.length, List.drop_left] at hhalf
      obtain ⟨w', low, more', hw', hlow, hlow', hn, rfl⟩ := pair_of_lowHalf hhalf
      refine ⟨w ++ '\\'.toUInt8 :: 'u'.toUInt8 :: w', more', ?_, ?_, ?_⟩
      · rw [hn]
        exact .pair hw hhigh.1 hhigh.2 hw' hlow hlow'
      · simp only [List.append_assoc, List.cons_append]
      · simp only [List.length_append, List.length_cons, hw.length, hw'.length]
    · next hlow hhigh =>
      obtain ⟨rfl, rfl⟩ := Prod.mk.inj (Except.ok.inj h)
      exact ⟨w, more, .unit hw (by omega), rfl, hw.length⟩

theorem exists_escape {cs out : List UInt8} {taken : Nat} (h : escape cs = .ok (out, taken)) :
    ∃ e more, Escape e out ∧ cs = e ++ more ∧ e.length = taken := by
  unfold escape at h
  split at h
  · contradiction
  · next b rest =>
    split at h
    · next hb =>
      obtain ⟨⟨n, taken'⟩, hcode, hout⟩ := map_eq_ok.mp h
      obtain ⟨rfl, rfl⟩ := Prod.mk.inj hout
      obtain ⟨e, more, he, rfl, rfl⟩ := escape_of_codePoint hcode
      exact ⟨'u'.toUInt8 :: e, more, he, by rw [hb, List.cons_append], rfl⟩
    · split at h
      · next out' hout =>
        obtain ⟨rfl, rfl⟩ := Prod.mk.inj (Except.ok.inj h)
        exact ⟨[b], rest, .letter hout, rfl, rfl⟩
      · contradiction

/-! ## Strings -/

theorem Unescapes.reads {body bytes : List UInt8} (h : Unescapes body bytes) (rest : List UInt8) :
    stringBytes 0 (body ++ '"'.toUInt8 :: rest) = .ok (bytes, rest) := by
  induction h with
  | nil =>
      rw [List.nil_append, stringBytes, if_pos rfl]
  | @plain b body bytes hb _ ih =>
      have hplain := stringBytes_plain (body ++ '"'.toUInt8 :: rest) [b]
        fun b' hb' => (List.mem_singleton.mp hb') ▸ hb
      rw [List.singleton_append, ih, withFront_ok] at hplain
      exact hplain
  | escape he _ ih =>
      rw [List.cons_append, List.append_assoc, stringBytes_escape (he.reads _), ih, withFront_ok]

theorem exists_unescapes {cs : List UInt8} : ∀ {bytes rest : List UInt8},
    stringBytes 0 cs = .ok (bytes, rest) →
    ∃ body, Unescapes body bytes ∧ cs = body ++ '"'.toUInt8 :: rest := by
  induction hn : cs.length using Nat.strongRecOn generalizing cs with
  | ind n ih =>
      intro bytes rest h
      cases cs with
      | nil => contradiction
      | cons b cs =>
          rw [List.length_cons] at hn
          rw [stringBytes] at h
          split at h
          · next hb =>
            obtain ⟨rfl, rfl⟩ := Prod.mk.inj (Except.ok.inj h)
            exact ⟨[], .nil, by rw [hb, List.nil_append]⟩
          split at h
          · next hb =>
            split at h
            · contradiction
            · next out taken hescape =>
              obtain ⟨e, more, he, rfl, rfl⟩ := exists_escape hescape
              rw [stringBytes_skip] at h
              obtain ⟨⟨bytes', rest'⟩, hmore, hbytes⟩ := map_eq_ok.mp h
              obtain ⟨rfl, rfl⟩ := Prod.mk.inj hbytes
              rw [List.length_append] at hn
              obtain ⟨body, hbody, rfl⟩ := ih more.length (by omega) rfl hmore
              exact ⟨_, .escape he hbody, by rw [hb, List.cons_append, List.append_assoc]⟩
          split at h
          · contradiction
          · next hquote hslash hcontrol =>
            obtain ⟨⟨bytes', rest'⟩, hmore, hbytes⟩ := map_eq_ok.mp h
            obtain ⟨rfl, rfl⟩ := Prod.mk.inj hbytes
            obtain ⟨body, hbody, rfl⟩ := ih cs.length (by omega) rfl hmore
            exact ⟨_, .plain ⟨hquote, hslash, hcontrol⟩ hbody, rfl⟩

/-- **A string is read from its spellings and from nothing else.** -/
theorem stringBody_eq_ok_iff {cs rest : List UInt8} {s : String} :
    stringBody cs = .ok (s, rest) ↔
      ∃ body, Unescapes body s.utf8 ∧ cs = body ++ '"'.toUInt8 :: rest := by
  constructor
  · intro h
    obtain ⟨⟨bytes, rest'⟩, hbytes, h⟩ := bind_eq_ok.mp h
    dsimp only at h
    split at h
    · next text htext =>
      obtain ⟨rfl, rfl⟩ := Prod.mk.inj (Except.ok.inj h)
      rw [String.utf8, String.toList_ofList, Utf8.decode_eq_ok_iff.mp htext]
      exact exists_unescapes hbytes
    · contradiction
  · rintro ⟨body, hbody, rfl⟩
    unfold stringBody
    rw [hbody.reads, ok_bind]
    dsimp only
    rw [String.utf8, Utf8.decode_encode]
    dsimp only
    rw [String.ofList_toList]
    rfl

theorem Unescapes.stringBody {body : List UInt8} {s : String} (h : Unescapes body s.utf8)
    (rest : List UInt8) : Json.stringBody (body ++ '"'.toUInt8 :: rest) = .ok (s, rest) :=
  stringBody_eq_ok_iff.mpr ⟨body, h, rfl⟩

/-! ## Strings that are passed over -/

theorem Loose.reads {body : List UInt8} (h : Loose body) (rest : List UInt8) :
    skipString (body ++ '"'.toUInt8 :: rest) = .ok rest := by
  have hslash : ¬ '\\'.toUInt8 = '"'.toUInt8 := by decide
  induction h with
  | nil =>
      unfold skipString
      rw [List.nil_append]
      exact if_pos rfl
  | plain hb _ ih =>
      obtain ⟨hquote, hback, hcontrol⟩ := hb
      unfold skipString
      rw [List.cons_append]
      dsimp only
      rw [if_neg hquote, if_neg hback, if_neg hcontrol, ih]
  | letter hb _ ih =>
      unfold skipString
      rw [List.cons_append, List.cons_append]
      dsimp only
      rw [if_neg hslash, if_pos rfl, if_neg (ne_u_of_shortEscape? hb), if_pos hb, ih]
  | unit hw _ ih =>
      cases hw with
      | mk ha hb hc hd =>
          unfold skipString
          rw [List.cons_append, List.cons_append]
          dsimp only [List.cons_append, List.nil_append]
          rw [if_neg hslash, if_pos rfl, if_pos rfl, if_pos (by simp [ha, hb, hc, hd]), ih]

theorem exists_loose {cs rest : List UInt8} (h : skipString cs = .ok rest) :
    ∃ body, Loose body ∧ cs = body ++ '"'.toUInt8 :: rest := by
  fun_induction skipString cs with
  | case2 rest' =>
      obtain rfl := Except.ok.inj h
      exact ⟨[], .nil, rfl⟩
  | case4 a b c d more hdigits _ ih =>
      obtain ⟨body, hbody, rfl⟩ := ih h
      simp only [List.all_cons, List.all_nil, Bool.and_true, Bool.and_eq_true,
        Option.isSome_iff_exists] at hdigits
      obtain ⟨⟨i, ha⟩, ⟨j, hb⟩, ⟨k, hc⟩, ⟨l, hd⟩⟩ := hdigits
      exact ⟨_, .unit (.mk ha hb hc hd) hbody, rfl⟩
  | case7 b rest' _ hletter _ ih =>
      obtain ⟨body, hbody, rfl⟩ := ih h
      exact ⟨_, .letter hletter hbody, rfl⟩
  | case10 b rest' hquote hslash hcontrol ih =>
      obtain ⟨body, hbody, rfl⟩ := ih h
      exact ⟨_, .plain ⟨hquote, hslash, hcontrol⟩ hbody, rfl⟩
  | case1 | case3 | case5 | case6 | case8 | case9 => contradiction

end Json

end Reserved
