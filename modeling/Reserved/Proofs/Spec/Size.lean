import Reserved.Proofs.Spec.Keywords
import Reserved.Proofs.Table.Build
import Reserved.Proofs.Text.Utf8

/-!
# How long keywords are

A keyword stands in its file as it is, and its characters take a byte each. So no keyword is
longer than the file, and the lengths in a table are numbers of the machine that read the file.
-/

namespace Reserved

namespace KeywordSpec

/-- The word of a line stands in the line. -/
theorem Fields.word_stands {text word kind : List Char} (h : Fields text word kind) :
    word <:+: text := by
  obtain ⟨a, b, rfl, -, -, hword, -, -⟩ := h
  have hfield : trim a <:+: a ++ ',' :: b :=
    (infix_of_trim a).trans (List.prefix_append a _).isInfix
  refine List.IsInfix.trans ?_ hfield
  rcases hword with hquoted | ⟨rfl, -⟩
  · exact ⟨['"'], ['"'], hquoted.symm⟩
  · exact List.infix_refl _

theorem Live.text_stands {src text : List Char} {n : Nat} (h : Live src n text) :
    text <:+: src := by
  obtain ⟨-, ⟨raw, hraw, rfl⟩, -, -, -⟩ := h
  exact (infix_of_trim raw).trans (infix_of_mem_lines (List.mem_of_getElem? hraw))

/-- A keyword stands in its file. -/
theorem Defines.word_stands {src : List Char} {word : String} {k : TokenKind}
    (h : Defines src word k) : word.toList <:+: src := by
  obtain ⟨n, text, hlive, kind, hfields, -, -, -⟩ := h
  exact hfields.word_stands.trans hlive.text_stands

theorem toNat_lt_of_isAlphanum {c : Char} (h : c.isAlphanum = true ∨ c = '_') :
    c.toNat < 0x80 := by
  have hle : ∀ {d : Char}, c ≤ d → c.toNat ≤ d.toNat := fun h => h
  rcases h with h | rfl
  · unfold Char.isAlphanum Char.isAlpha Char.isUpper Char.isLower Char.isDigit at h
    simp only [Bool.or_eq_true, Bool.and_eq_true, decide_eq_true_eq] at h
    rcases h with (⟨-, h⟩ | ⟨-, h⟩) | ⟨-, h⟩
    · exact Nat.lt_of_le_of_lt (hle h) (by decide)
    · exact Nat.lt_of_le_of_lt (hle h) (by decide)
    · exact Nat.lt_of_le_of_lt (hle h) (by decide)
  · decide

/-- The characters of a keyword take a byte each. -/
theorem IsName.size {word : List Char} (h : IsName word) : Utf8.size word = word.length := by
  obtain ⟨c, rest, rfl, hc, hrest⟩ := h
  refine Utf8.size_of_ascii fun x hx => toNat_lt_of_isAlphanum ?_
  rcases List.mem_cons.mp hx with rfl | hx
  · exact hc.imp_left fun h => by simp [Char.isAlphanum, h]
  · exact hrest x hx

/-- **No keyword has more bytes than its file.** -/
theorem length_utf8_le {path : String} {bytes : List UInt8} {spec : KeywordSpec}
    (h : ofBytes path bytes = .ok spec) {e : KeywordEntry} (he : e ∈ spec.entries) :
    e.text.utf8.length ≤ bytes.length := by
  rw [ofBytes] at h
  split at h
  · next src hdecode =>
    have hdefines : Defines src e.text e.kind :=
      (mem_pairs_iff h).mp (List.mem_map.mpr ⟨e, he, rfl⟩)
    obtain ⟨-, -, -, -, -, hname, -, -⟩ := id hdefines
    rw [String.utf8, Utf8.length_encode, hname.size]
    exact hdefines.word_stands.length_le.trans (Utf8.length_le_of_decode hdecode)
  · contradiction

end KeywordSpec

namespace HashTable

/-- The lengths in a table are those of two of the keywords. -/
theorem lengths_le_of_build {path : String} {bytes : List UInt8} {spec : KeywordSpec}
    (h : KeywordSpec.ofBytes path bytes = .ok spec) {salt : UInt64} {t : HashTable}
    (ht : build salt spec = .ok t) : t.minLen ≤ bytes.length ∧ t.maxLen ≤ bytes.length := by
  have hne : spec.entries ≠ [] := by
    rw [KeywordSpec.ofBytes] at h
    split at h
    · exact KeywordSpec.entries_ne_nil_of_parse h
    · contradiction
  obtain ⟨p, -, rfl⟩ := exists_placement_of_build ht
  obtain ⟨⟨shortest, hshortest, hmin⟩, -⟩ := KeywordSpec.minLen_spec hne
  obtain ⟨⟨longest, hlongest, hmax⟩, -⟩ := KeywordSpec.maxLen_spec hne
  exact ⟨hmin.ge.trans (KeywordSpec.length_utf8_le h hshortest),
    hmax.ge.trans (KeywordSpec.length_utf8_le h hlongest)⟩

end HashTable

end Reserved
