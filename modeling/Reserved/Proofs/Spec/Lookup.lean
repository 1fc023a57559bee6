import Mathlib.Data.List.Permutation
import Reserved.Proofs.Spec.Keywords

/-!
# Looking a keyword up

A specification is looked up by halving, which relies on the entries being in increasing order:
what is smaller than the entry in the middle cannot stand behind it, and what is larger cannot
stand before it. Increasing entries hold a text at most once, so the search finds the entry with
the text whenever there is one, and a specification that was parsed answers with the kinds that
its file defines.

What a table asks of a specification besides is how long its keywords are. The bounds are those
of entries that exist, since a specification that was parsed has one, and no keyword is empty.
-/

namespace Reserved

theorem compareBytes_eq_gt {a b : String} : compareBytes a b = .gt ↔ b.utf8 < a.utf8 := by
  rw [← compareBytes_eq_lt]
  unfold compareBytes
  exact Std.OrientedCmp.gt_iff_lt

namespace KeywordSpec

/-- The entry at `i` parts increasing entries into the smaller ones and the larger ones. -/
structure Parted (entries : List KeywordEntry) (i : Nat) (e : KeywordEntry) : Prop where
  /-- An entry is the one at `i` or stands on one side of it. -/
  mem : ∀ a, a ∈ entries ↔ a ∈ entries.take i ∨ a = e ∨ a ∈ entries.drop (i + 1)
  smaller : ∀ a ∈ entries.take i, a.text.utf8 < e.text.utf8
  larger : ∀ a ∈ entries.drop (i + 1), e.text.utf8 < a.text.utf8

theorem Increasing.parted {entries : List KeywordEntry} (h : Increasing entries) {i : Nat}
    (hi : i < entries.length) : Parted entries i entries[i] := by
  have hcut : entries.take i ++ entries[i] :: entries.drop (i + 1) = entries := by
    rw [← List.drop_eq_getElem_cons hi, List.take_append_drop]
  unfold Increasing at h
  rw [← hcut, List.pairwise_append, List.pairwise_cons] at h
  obtain ⟨_, ⟨hlarger, _⟩, hacross⟩ := h
  refine ⟨fun a => ?_, fun a ha => hacross a ha _ List.mem_cons_self, hlarger⟩
  rw [← List.mem_cons, ← List.mem_append, hcut]

/-- What is looked at is the entry in the middle. -/
theorem find?_of_middle {text : String} {entries : List KeywordEntry} {found : KeywordEntry}
    (h : entries[entries.length / 2]? = some found) :
    find? text entries =
      match compareBytes text found.text with
      | .eq => some found
      | .lt => find? text (entries.take (entries.length / 2))
      | .gt => find? text (entries.drop (entries.length / 2 + 1)) := by
  obtain ⟨hlt, rfl⟩ := List.getElem?_eq_some_iff.mp h
  rw [find?]
  exact dif_pos (Nat.zero_lt_of_lt hlt)

/-- **Halving finds exactly the entry with the text.** -/
theorem find?_eq_some_iff {text : String} {entries : List KeywordEntry} {e : KeywordEntry}
    (h : Increasing entries) : find? text entries = some e ↔ e ∈ entries ∧ e.text = text := by
  induction entries using find?.induct text with
  | case1 entries hpos middle inside found heq =>
      have hparted := h.parted inside
      rw [find?_of_middle (List.getElem?_eq_getElem inside), heq]
      obtain rfl := compareBytes_eq_eq.mp heq
      rw [Option.some_inj]
      constructor
      · rintro rfl
        exact ⟨List.getElem_mem inside, rfl⟩
      · rintro ⟨hmem, htext⟩
        rcases (hparted.mem e).mp hmem with hsmaller | rfl | hlarger
        · exact absurd (htext ▸ hparted.smaller e hsmaller) (List.lt_irrefl _)
        · rfl
        · exact absurd (htext ▸ hparted.larger e hlarger) (List.lt_irrefl _)
  | case2 entries hpos middle inside found hlt ih =>
      have hparted := h.parted inside
      rw [find?_of_middle (List.getElem?_eq_getElem inside), hlt]
      rw [ih (h.sublist (List.take_sublist _ _)), hparted.mem e]
      -- the entry in the middle and those behind it are larger than the text
      constructor
      · exact fun ⟨hmem, htext⟩ => ⟨Or.inl hmem, htext⟩
      · rintro ⟨hsmaller | rfl | hlarger, rfl⟩
        · exact ⟨hsmaller, rfl⟩
        · exact absurd (compareBytes_eq_lt.mp hlt) (List.lt_irrefl _)
        · exact absurd (hparted.larger e hlarger) (List.lt_asymm (compareBytes_eq_lt.mp hlt))
  | case3 entries hpos middle inside found hgt ih =>
      have hparted := h.parted inside
      rw [find?_of_middle (List.getElem?_eq_getElem inside), hgt]
      rw [ih (h.sublist (List.drop_sublist _ _)), hparted.mem e]
      -- the entry in the middle and those before it are smaller than the text
      constructor
      · exact fun ⟨hmem, htext⟩ => ⟨Or.inr (Or.inr hmem), htext⟩
      · rintro ⟨hsmaller | rfl | hlarger, rfl⟩
        · exact absurd (hparted.smaller e hsmaller) (List.lt_asymm (compareBytes_eq_gt.mp hgt))
        · exact absurd (compareBytes_eq_gt.mp hgt) (List.lt_irrefl _)
        · exact ⟨hlarger, rfl⟩
  | case4 entries hnone =>
      obtain rfl : entries = [] := List.length_eq_zero_iff.mp (Nat.eq_zero_of_not_pos hnone)
      rw [find?, dif_neg hnone]
      simp

theorem get?_eq_some_iff {spec : KeywordSpec} (h : Increasing spec.entries) {text : String}
    {k : TokenKind} : spec.get? text = some k ↔ ∃ e ∈ spec.entries, e.text = text ∧ e.kind = k := by
  unfold get?
  rw [Option.map_eq_some_iff]
  constructor
  · rintro ⟨e, hfind, rfl⟩
    obtain ⟨hmem, htext⟩ := (find?_eq_some_iff h).mp hfind
    exact ⟨e, hmem, htext, rfl⟩
  · rintro ⟨e, hmem, htext, rfl⟩
    exact ⟨e, (find?_eq_some_iff h).mpr ⟨hmem, htext⟩, rfl⟩

theorem get?_eq_none_iff {spec : KeywordSpec} (h : Increasing spec.entries) {text : String} :
    spec.get? text = none ↔ ∀ e ∈ spec.entries, e.text ≠ text := by
  rw [Option.eq_none_iff_forall_ne_some]
  constructor
  · intro hnone e he htext
    exact hnone e.kind ((get?_eq_some_iff h).mpr ⟨e, he, htext, rfl⟩)
  · intro hall k hk
    obtain ⟨e, he, htext, -⟩ := (get?_eq_some_iff h).mp hk
    exact hall e he htext

/-- **A parsed specification answers with what its file defines.** -/
theorem get?_eq_some_iff_defines {src : List Char} {spec : KeywordSpec}
    (h : parse src = .ok spec) {text : String} {k : TokenKind} :
    spec.get? text = some k ↔ Defines src text k := by
  rw [← mem_pairs_iff h, get?_eq_some_iff (describes_of_parse h).2.increasing, pairs, List.mem_map]
  simp only [Prod.mk.injEq]

/-! ## Lengths -/

/-- The shortest length is attained, and no keyword is shorter. -/
theorem minLen_spec {spec : KeywordSpec} (h : spec.entries ≠ []) :
    (∃ e ∈ spec.entries, e.text.utf8.length = spec.minLen) ∧
      ∀ e ∈ spec.entries, spec.minLen ≤ e.text.utf8.length := by
  have hne : spec.lengths ≠ [] := by
    unfold lengths
    simpa using h
  obtain ⟨m, hm⟩ := Option.isSome_iff_exists.mp (List.isSome_min?_of_ne_nil hne)
  obtain ⟨hmem, hle⟩ := List.min?_eq_some_iff.mp hm
  have hmin : spec.minLen = m := by rw [minLen, hm, Option.getD_some]
  rw [hmin]
  refine ⟨?_, fun e he => hle _ (List.mem_map_of_mem he)⟩
  obtain ⟨e, he, hlen⟩ := List.mem_map.mp hmem
  exact ⟨e, he, hlen⟩

/-- The longest length is attained, and no keyword is longer. -/
theorem maxLen_spec {spec : KeywordSpec} (h : spec.entries ≠ []) :
    (∃ e ∈ spec.entries, e.text.utf8.length = spec.maxLen) ∧
      ∀ e ∈ spec.entries, e.text.utf8.length ≤ spec.maxLen := by
  have hne : spec.lengths ≠ [] := by
    unfold lengths
    simpa using h
  obtain ⟨m, hm⟩ := Option.isSome_iff_exists.mp (List.isSome_max?_of_ne_nil hne)
  obtain ⟨hmem, hle⟩ := List.max?_eq_some_iff.mp hm
  have hmax : spec.maxLen = m := by rw [maxLen, hm, Option.getD_some]
  rw [hmax]
  refine ⟨?_, fun e he => hle _ (List.mem_map_of_mem he)⟩
  obtain ⟨e, he, hlen⟩ := List.mem_map.mp hmem
  exact ⟨e, he, hlen⟩

/-- No keyword is empty. -/
theorem length_pos_of_parse {src : List Char} {spec : KeywordSpec} (h : parse src = .ok spec)
    {e : KeywordEntry} (he : e ∈ spec.entries) : 0 < e.text.utf8.length := by
  obtain ⟨text, -, kind, -, hname, -⟩ := ((describes_of_parse h).2.entries e).mp he
  obtain ⟨c, rest, hword, -⟩ := hname
  refine List.length_pos_iff.mpr fun hnil => ?_
  -- only the empty text has no bytes, and it has no first character
  have hempty : e.text = "" := utf8_inj hnil
  rw [hempty] at hword
  exact absurd hword (by simp)

/-- **A parsed specification is looked up exactly.** The answer is the kind of the entry with the
text, and there is none only where no entry has the text. The two lengths are attained and bound
those of all keywords, and they are positive. -/
theorem get?_exact {src : List Char} {spec : KeywordSpec} (h : parse src = .ok spec) :
    (∀ text k, spec.get? text = some k ↔ ∃ e ∈ spec.entries, e.text = text ∧ e.kind = k) ∧
    (∀ text, spec.get? text = none ↔ ∀ e ∈ spec.entries, e.text ≠ text) ∧
    ((∃ e ∈ spec.entries, e.text.utf8.length = spec.minLen) ∧
      ∀ e ∈ spec.entries, spec.minLen ≤ e.text.utf8.length) ∧
    ((∃ e ∈ spec.entries, e.text.utf8.length = spec.maxLen) ∧
      ∀ e ∈ spec.entries, e.text.utf8.length ≤ spec.maxLen) ∧
    1 ≤ spec.minLen ∧ spec.minLen ≤ spec.maxLen := by
  have hincreasing := (describes_of_parse h).2.increasing
  have hmin := minLen_spec (entries_ne_nil_of_parse h)
  have hmax := maxLen_spec (entries_ne_nil_of_parse h)
  obtain ⟨⟨shortest, hmem, hlength⟩, hbelow⟩ := id hmin
  refine ⟨fun _ _ => get?_eq_some_iff hincreasing, fun _ => get?_eq_none_iff hincreasing, hmin,
    hmax, ?_, ?_⟩
  · rw [← hlength]
    exact length_pos_of_parse h hmem
  · exact (hbelow shortest hmem).trans (hmax.2 shortest hmem)

/-- Two keywords, one of them in the middle and the other before it. -/
theorem get?_exact_two_keywords :
    let spec : KeywordSpec := ⟨[⟨"a", .inWord, 2⟩, ⟨"ab", .ifWord, 1⟩]⟩
    parse "ab,If\na,In".toList = .ok spec ∧
      spec.get? "a" = some .inWord ∧ spec.get? "ab" = some .ifWord ∧ spec.get? "abc" = none ∧
      1 ≤ spec.minLen ∧ spec.minLen ≤ spec.maxLen := by
  intro spec
  have hparse : parse "ab,If\na,In".toList = .ok spec := by cbv
  obtain ⟨hfound, hnone, -, -, hpos, hle⟩ := get?_exact hparse
  refine ⟨hparse, (hfound _ _).mpr ⟨⟨"a", .inWord, 2⟩, by simp [spec], rfl, rfl⟩,
    (hfound _ _).mpr ⟨⟨"ab", .ifWord, 1⟩, by simp [spec], rfl, rfl⟩,
    (hnone _).mpr ?_, hpos, hle⟩
  intro e he
  simp only [spec, List.mem_cons, List.not_mem_nil, or_false] at he
  rcases he with rfl | rfl <;> decide

end KeywordSpec

end Reserved
