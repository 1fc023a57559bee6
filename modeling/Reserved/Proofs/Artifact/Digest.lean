import Reserved.Proofs.Artifact.Literal
import Reserved.Proofs.Text.Infix
import Reserved.Proofs.Text.Trim
import Reserved.Table.Artifact

/-!
# The digest that an artifact records

The digest stands on a line of its own, behind a mark, and the first line with the mark is the
one that is read. What is written on that line is read back as the digest, whatever it is. So it
all depends on the line before: it names the keyword file as it is, and a path may hold a line
feed with the mark behind it. Such a path is taken for the digest line, and no digest can be
told from another then.
-/

namespace Reserved

namespace Artifact

/-- The heading up to the end of the line with the path. -/
def opening (path : String) : List Char :=
  "// @generated by gen_keyhash from ".toList
    ++ (path.toList ++ '.' :: " Do not edit by hand.".toList)

def digestLine (d : UInt64) : List Char :=
  digestMark.toList ++ (hexWord d).toList

theorem toList_render (t : HashTable) (h : Header) :
    ∃ rest, (render t h).toList
      = opening h.specPath ++ '\n' :: (digestLine h.specDigest ++ '\n' :: rest) := by
  have hend : ". Do not edit by hand.\n".toList
      = '.' :: (" Do not edit by hand.".toList ++ ['\n']) := by decide
  have hfeed : "\n".toList = ['\n'] := by decide
  unfold render renderHeader opening digestLine
  simp only [toString, String.toList_append, hend, hfeed, List.append_assoc, List.cons_append,
    List.nil_append]
  exact ⟨_, rfl⟩

/-! ## What is written on the line -/

/-- Digits have no base marks before them. -/
theorem dropBaseMarks_of_not_mem {cs : List Char} (h : 'x' ∉ cs) : dropBaseMarks cs = cs := by
  unfold dropBaseMarks
  split
  · exact absurd (List.mem_cons_of_mem _ List.mem_cons_self) h
  · rfl

/-- The digest that is read from what stands behind the mark. -/
def digestOf? (digits : List Char) : Option UInt64 :=
  (Numeral.read 16 UInt64.size (dropBaseMarks (trim digits))).toOption.map UInt64.ofNat

theorem digestIn?_eq (artifact : String) : digestIn? artifact
    = ((lines artifact.toList).findSome? (afterMark? digestMark.toList)).bind digestOf? := by
  have hread : ∀ digits, digestOf? digits = do
      let n ← (Numeral.read 16 UInt64.size (dropBaseMarks (trim digits))).toOption
      return UInt64.ofNat n := by
    intro digits
    unfold digestOf?
    cases (Numeral.read 16 UInt64.size (dropBaseMarks (trim digits))).toOption <;> rfl
  unfold digestIn?
  rw [funext hread]
  rfl

/-- A digest in its sixteen digits is read as the digest. -/
theorem digestOf?_hexWord (d : UInt64) : digestOf? (hexWord d).toList = some d := by
  have hdigits : 'x' ∉ List.replicate (16 - (Nat.toDigits 16 d.toNat).length) '0'
      ++ Nat.toDigits 16 d.toNat := by
    intro h
    rcases List.mem_append.mp h with h | h
    · exact absurd (List.mem_replicate.mp h).2 (by decide)
    · obtain ⟨n, hn, heq⟩ := Numeral.mem_toDigits (by decide) d.toNat 'x' h
      have hall : ∀ n < 16, 'x' ≠ Nat.digitChar n := by decide
      exact hall n hn heq
  have hvalue : Numeral.read 16 UInt64.size (dropBaseMarks (hexWord d).toList) = .ok d.toNat := by
    unfold hexWord
    rw [String.toList_ofList, List.cons_append, List.cons_append, dropBaseMarks,
      dropBaseMarks_of_not_mem hdigits]
    exact Numeral.read_of_value? (by decide)
      (Numeral.value?_zeros_toDigits (by decide) (by decide) _ _) d.toNat_lt
  unfold digestOf?
  rw [trim_word fun _ => Source.isWordPart_of_mem_hexWord, hvalue]
  show some (UInt64.ofNat d.toNat) = some d
  rw [UInt64.ofNat_toNat]

/-! ## Which line is read -/

theorem afterMark?_append (mark text : List Char) : afterMark? mark (mark ++ text) = some text := by
  unfold afterMark?
  rw [if_pos (by simp), List.drop_left]

theorem afterMark?_eq_none {mark text : List Char} :
    afterMark? mark text = none ↔ ¬ mark <+: text := by
  simp [afterMark?]

/-- The carriage return of a line's ending is no part of a word. -/
theorem prefix_dropReturn {w line : List Char} (hw : w.getLast? ≠ some '\r') :
    w <+: dropReturn line ↔ w <+: line := by
  unfold dropReturn
  split
  · next hlast =>
    refine ⟨fun h => h.trans (List.dropLast_prefix line), fun ⟨rest, hrest⟩ => ?_⟩
    have hne : rest ≠ [] := by
      rintro rfl
      rw [List.append_nil] at hrest
      exact hw (hrest ▸ hlast)
    rw [← hrest, List.dropLast_append_of_ne_nil hne]
    exact List.prefix_append _ _
  · exact Iff.rfl

/-- **A line of the opening has the mark if the path holds it behind a line feed**, and only
then: what stands around the path neither has the mark nor completes it. -/
theorem mark_in_opening_iff (path : String) :
    (∃ line ∈ (splitWhere (· == '\n') (opening path)).map dropReturn, digestMark.toList <+: line) ↔
      '\n' :: digestMark.toList <:+: path.toList := by
  have hlines : (∃ line ∈ (splitWhere (· == '\n') (opening path)).map dropReturn,
        digestMark.toList <+: line) ↔
      ∃ piece ∈ splitWhere (· == '\n') (opening path), digestMark.toList <+: piece := by
    have hdrop : ∀ line, digestMark.toList <+: dropReturn line ↔ digestMark.toList <+: line :=
      fun _ => prefix_dropReturn (by decide)
    simp [hdrop]
  have hbegin : ¬ digestMark.toList <+: opening path := by
    intro h
    have hlead := List.prefix_of_prefix_length_le h (List.prefix_append _ _) (by decide)
    exact absurd hlead (by decide)
  have hend : ¬ '\n' :: digestMark.toList <:+: " Do not edit by hand.".toList := by
    intro h
    exact absurd (h.subset List.mem_cons_self) (by decide)
  rw [hlines, begins_piece_iff (by decide)]
  simp only [hbegin, false_or]
  unfold opening
  rw [infix_append_of_not_mem (by decide), infix_append_cons (by decide)]
  simp only [hend, or_false]

/-- The lines of an artifact up to the digest. -/
theorem lines_render (t : HashTable) (h : Header) :
    ∃ rest, lines (render t h).toList = (splitWhere (· == '\n') (opening h.specPath)).map dropReturn
      ++ dropReturn (digestLine h.specDigest) :: rest := by
  obtain ⟨rest, hrest⟩ := toList_render t h
  have hline : ∀ c ∈ digestLine h.specDigest, (c == '\n') = false := by
    intro c hc
    refine beq_false_of_ne ?_
    rintro rfl
    rcases List.mem_append.mp hc with hc | hc
    · exact absurd hc (by decide)
    · exact not_mem_of_isWordPart (fun _ => Source.isWordPart_of_mem_hexWord) (by decide) hc
  refine ⟨lines rest, ?_⟩
  rw [hrest, lines_append_feed, lines_append_feed, splitWhere_of_not_mem hline]
  rfl

theorem digestIn?_of_unmarked {path : String} (h : ¬ '\n' :: digestMark.toList <:+: path.toList)
    (t : HashTable) (d : UInt64) : digestIn? (render t ⟨path, d⟩) = some d := by
  obtain ⟨rest, hlines⟩ := lines_render t ⟨path, d⟩
  have hopening : ((splitWhere (· == '\n') (opening path)).map dropReturn).findSome?
      (afterMark? digestMark.toList) = none := by
    refine List.findSome?_eq_none_iff.mpr fun line hline => afterMark?_eq_none.mpr fun hmark => ?_
    exact h ((mark_in_opening_iff path).mp ⟨line, hline, hmark⟩)
  have hreturn : dropReturn (digestLine d) = digestLine d := by
    have hlast : (digestLine d).getLast? ≠ some '\r' := by
      intro hlast
      rw [digestLine, List.getLast?_append, List.getLast?_eq_some_getLast (Source.hexWord_ne_nil d),
        Option.some_or, Option.some_inj] at hlast
      have hmem := List.getLast_mem (Source.hexWord_ne_nil d)
      rw [hlast] at hmem
      exact not_mem_of_isWordPart (fun _ => Source.isWordPart_of_mem_hexWord) (by decide) hmem
    rw [dropReturn, if_neg hlast]
  rw [digestIn?_eq, hlines, List.findSome?_append, hopening, hreturn, List.findSome?_cons,
    digestLine, afterMark?_append, Option.none_or, Option.bind_some, digestOf?_hexWord]

/-- Behind a path with the mark the digest is not looked at. -/
theorem digestIn?_of_found {path : String} {digits : List Char}
    (h : ((splitWhere (· == '\n') (opening path)).map dropReturn).findSome?
      (afterMark? digestMark.toList) = some digits) (t : HashTable) (d : UInt64) :
    digestIn? (render t ⟨path, d⟩) = digestOf? digits := by
  obtain ⟨rest, hlines⟩ := lines_render t ⟨path, d⟩
  rw [digestIn?_eq, hlines, List.findSome?_append, h]
  rfl

theorem digestIn?_of_marked {path : String} (h : '\n' :: digestMark.toList <:+: path.toList) :
    ∃ found, ∀ (t : HashTable) (d : UInt64), digestIn? (render t ⟨path, d⟩) = found := by
  obtain ⟨line, hline, hmark⟩ := (mark_in_opening_iff path).mpr h
  obtain ⟨digits, hdigits⟩ : ∃ digits, ((splitWhere (· == '\n') (opening path)).map
      dropReturn).findSome? (afterMark? digestMark.toList) = some digits := by
    refine Option.ne_none_iff_exists'.mp fun hnone => ?_
    exact afterMark?_eq_none.mp (List.findSome?_eq_none_iff.mp hnone line hline) hmark
  exact ⟨digestOf? digits, digestIn?_of_found hdigits⟩

/-- **The digest is read back from every artifact of a keyword file, if the path holds no line
feed with the mark behind it.** Otherwise it is not. -/
theorem digest_survives_iff (path : String) :
    (∀ (t : HashTable) (d : UInt64), digestIn? (render t ⟨path, d⟩) = some d) ↔
      ¬ '\n' :: digestMark.toList <:+: path.toList := by
  constructor
  · intro hall hmark
    obtain ⟨found, hfound⟩ := digestIn?_of_marked hmark
    -- two digests would both be the one that is found
    have hzero := (hall ⟨0, 0, 0, [], []⟩ 0).symm.trans (hfound _ 0)
    have hone := (hall ⟨0, 0, 0, [], []⟩ 1).symm.trans (hfound _ 1)
    rw [← hone] at hzero
    exact absurd hzero (by decide)
  · exact fun h t d => digestIn?_of_unmarked h t d

/-- The path of a file may end with what looks like a line with the digest zero. -/
theorem digest_lost :
    digestIn? (render ⟨0, 1, 0, [], []⟩ ⟨"words\n// spec-digest: 0\n", 5⟩) ≠ some 5 := by
  have hfound : ((splitWhere (· == '\n') (opening "words\n// spec-digest: 0\n")).map
      dropReturn).findSome? (afterMark? digestMark.toList) = some ['0'] := by decide +kernel
  have hzero : digestOf? ['0'] = some 0 := by decide
  rw [digestIn?_of_found hfound, hzero]
  decide

end Artifact

end Reserved
