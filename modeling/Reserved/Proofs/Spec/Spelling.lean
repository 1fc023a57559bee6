import Mathlib.Data.List.Basic
import Reserved.Proofs.Artifact.Literal
import Reserved.Proofs.Spec.Entry
import Reserved.Proofs.Spec.Section
import Reserved.Proofs.Text.Trim

/-!
# Lines as they are written

The grammar of a line is about the trimmed line, and its fields are trimmed again. Here it is
said of the line as it stands in the file: one comma parts two fields, and blanks may stand
anywhere around them. So whoever writes or edits a line knows what it spells without trimming
it.
-/

namespace Reserved

namespace KeywordSpec

/-- The name of `k` with blanks around it, alone or behind `::`. What stands before the `::` is
not looked at. -/
def Qualified (field : List Char) (k : TokenKind) : Prop :=
  ∃ front segment, field = front ++ segment ∧ (front = [] ∨ [':', ':'] <:+ front) ∧
    trim segment = k.name.toList

/-- What trims to a name has no colons. -/
theorem colon_not_mem_of_trim {segment : List Char} {k : TokenKind}
    (h : trim segment = k.name.toList) : ':' ∉ segment := by
  intro hmem
  have hcolon := (mem_trim (by decide)).mpr hmem
  rw [h] at hcolon
  exact not_mem_of_isWordPart (Source.isWordPart_of_mem_name k) (by decide) hcolon

/-- Without colons there is no `::`, not even behind another colon. -/
theorem no_colons {segment : List Char} (h : ':' ∉ segment) :
    ¬ [':', ':'] <:+: ':' :: segment := by
  intro hin
  rcases List.infix_cons_iff.mp hin with hprefix | hin
  · obtain ⟨_, htail⟩ := List.cons_prefix_cons.mp hprefix
    exact h (htail.subset List.mem_cons_self)
  · exact h (hin.subset List.mem_cons_self)

/-- **A kind is named by its field as it is written.** -/
theorem names_trim {field : List Char} {k : TokenKind} :
    Names (trim field) k ↔ Qualified field k := by
  constructor
  · rintro ⟨segment, hlast, hname⟩
    have htrim : trim segment = k.name.toList := by
      rw [← hname, String.toList_ofList]
    obtain ⟨l, r, _, hr, hfield⟩ := exists_trim field
    rcases hlast with ⟨path, hpath, _⟩ | ⟨rfl, _⟩
    · refine ⟨l ++ path ++ [':', ':'], segment ++ r, ?_, Or.inr (List.suffix_append _ _), ?_⟩
      · rw [hfield, hpath]
        simp
      · exact (trim_blanks .nil hr segment).trans htrim
    · exact ⟨[], field, rfl, Or.inl rfl, (trim_trim field).symm.trans htrim⟩
  · rintro ⟨front, segment, rfl, hfront, htrim⟩
    have hcolon := colon_not_mem_of_trim htrim
    have hname : String.ofList (trim segment) = k.name := by
      rw [htrim, String.ofList_toList]
    rcases hfront with rfl | ⟨path, rfl⟩
    · have hnone : ':' ∉ trim segment := fun h => hcolon ((mem_trim (by decide)).mp h)
      refine ⟨trim segment, Or.inr ⟨rfl, fun hin => ?_⟩, ?_⟩
      · exact hnone (hin.subset List.mem_cons_self)
      · rw [trim_trim, hname]
    · -- the colons keep the ends apart, so only the segment is trimmed at its end
      have hends : trim (path ++ [':', ':'] ++ segment)
          = trimStart path ++ ':' :: ':' :: trimEnd segment := by
        rw [List.append_assoc]
        show trim (path ++ ':' :: ([] ++ ':' :: segment)) = _
        rw [trim_append (by decide), trimEnd_append (by decide)]
        rfl
      have hnone : ':' ∉ trimEnd segment := by
        intro h
        have hmem : ':' ∈ trim (trimEnd segment) := (mem_trim (by decide)).mpr h
        rw [trim_trimEnd] at hmem
        exact hcolon ((mem_trim (by decide)).mp hmem)
      refine ⟨trimEnd segment, Or.inl ⟨trimStart path, hends, no_colons hnone⟩, ?_⟩
      rw [trim_trimEnd, hname]

/-- **The fields of a line stand before and after its comma**, with the blanks around them. -/
theorem fields_trim {x y word kind : List Char} :
    Fields (trim (x ++ ',' :: y)) word kind ↔
      ',' ∉ x ∧ ',' ∉ y ∧ Unquotes (trim x) word ∧ kind = trim y ∧ kind ≠ [] := by
  have hx : ',' ∈ trimStart x ↔ ',' ∈ x := by
    rw [← mem_trim (by decide), trim_trimStart, mem_trim (by decide)]
  have hy : ',' ∈ trimEnd y ↔ ',' ∈ y := by
    rw [← mem_trim (by decide), trim_trimEnd, mem_trim (by decide)]
  rw [trim_append (by decide)]
  constructor
  · rintro ⟨a, b, heq, ha, hb, hword, rfl, hne⟩
    obtain ⟨rfl, -, rfl⟩ := (List.append_cons_inj_of_notMem ha hb).mp heq.symm
    rw [trim_trimStart] at hword
    rw [trim_trimEnd] at hne ⊢
    exact ⟨hx.not.mp ha, hy.not.mp hb, hword, rfl, hne⟩
  · rintro ⟨ha, hb, hword, rfl, hne⟩
    refine ⟨trimStart x, trimEnd y, rfl, hx.not.mpr ha, hy.not.mpr hb, ?_, ?_, hne⟩
    · rw [trim_trimStart]
      exact hword
    · rw [trim_trimEnd]

theorem Qualified.trim_ne_nil {field : List Char} {k : TokenKind} (h : Qualified field k) :
    trim field ≠ [] := by
  obtain ⟨front, segment, rfl, -, htrim⟩ := h
  obtain ⟨c, rest, hname⟩ := List.exists_cons_of_ne_nil (Source.name_ne_nil k)
  have hc : c ∈ k.name.toList := hname ▸ List.mem_cons_self
  have hblank := not_blank_of_isWordPart (Source.isWordPart_of_mem_name k c hc)
  have hmem : c ∈ segment := by
    rw [← htrim] at hc
    exact (mem_trim hblank).mp hc
  exact List.ne_nil_of_mem ((mem_trim hblank).mpr (List.mem_append_right front hmem))

/-- **What a line spells can be seen in it as it is written.** -/
theorem spells_trim {x y : List Char} {word : String} {k : TokenKind} :
    Spells (trim (x ++ ',' :: y)) word k ↔
      ',' ∉ x ∧ ',' ∉ y ∧ Unquotes (trim x) word.toList ∧ IsName word.toList ∧
        Qualified y k ∧ k ≠ .ident := by
  constructor
  · rintro ⟨kind, hfields, hname, hkind, hk⟩
    obtain ⟨hx, hy, hword, rfl, -⟩ := fields_trim.mp hfields
    exact ⟨hx, hy, hword, hname, names_trim.mp hkind, hk⟩
  · rintro ⟨hx, hy, hword, hname, hkind, hk⟩
    have hfields := fields_trim.mpr ⟨hx, hy, hword, rfl, hkind.trim_ne_nil⟩
    exact ⟨trim y, hfields, hname, names_trim.mpr hkind, hk⟩

/-- A name alone. -/
theorem qualified_name (k : TokenKind) : Qualified k.name.toList k :=
  ⟨[], k.name.toList, rfl, Or.inl rfl, trim_word (Source.isWordPart_of_mem_name k)⟩

/-- Blanks around a field do not count. -/
theorem qualified_blanks {l r : List Char} (hl : AllBlank l) (hr : AllBlank r)
    {field : List Char} {k : TokenKind} : Qualified (l ++ (field ++ r)) k ↔ Qualified field k := by
  rw [← names_trim, ← names_trim, trim_blanks hl hr]

/-- **What qualifies a kind does not count**, whatever it is. -/
theorem Qualified.prepend {field : List Char} {k : TokenKind} (h : Qualified field k)
    (path : List Char) : Qualified (path ++ ':' :: ':' :: field) k := by
  obtain ⟨front, segment, rfl, hfront, htrim⟩ := h
  refine ⟨path ++ ':' :: ':' :: front, segment, by simp, Or.inr ?_, htrim⟩
  rcases hfront with rfl | hfront
  · exact List.suffix_append path _
  · have hsuffix : front <:+ path ++ ':' :: ':' :: front :=
      List.suffix_append_of_suffix ((List.suffix_cons _ _).trans (List.suffix_cons _ _))
    exact hfront.trans hsuffix

/-! ## Words -/

theorem IsName.isWordPart {word : List Char} (h : IsName word) :
    ∀ c ∈ word, isWordPart c = true := by
  obtain ⟨first, rest, rfl, hfirst, hrest⟩ := h
  intro c hc
  rw [isWordPart_iff]
  rcases List.mem_cons.mp hc with rfl | hc
  · exact hfirst.imp_left fun h => by simp [Char.isAlphanum, h]
  · exact hrest c hc

/-- A word has no blanks to trim. -/
theorem IsName.trim_eq {word : List Char} (h : IsName word) : trim word = word :=
  trim_word h.isWordPart

/-- A word has no quotes to take off. -/
theorem IsName.unquotes {word : List Char} (h : IsName word) : Unquotes word word := by
  have hquote : '"' ∉ word := not_mem_of_isWordPart h.isWordPart (by decide)
  refine Or.inr ⟨rfl, fun inner hquoted => hquote ?_⟩
  rw [hquoted]
  exact List.mem_cons_self

/-! ## A line that spells an entry is no delimiter and no comment -/

theorem Spells.not_delimiter {l : NumberedLine} {word : String} {k : TokenKind}
    (h : Spells l.2 word k) : isDelimiter l = false := by
  obtain ⟨_, ⟨a, b, htext, -⟩, -⟩ := h
  refine beq_false_of_ne fun hdelim => ?_
  have hcomma : ',' ∈ ['%', '%'] := by
    rw [← hdelim, htext]
    simp
  exact absurd hcomma (by decide)

theorem Spells.not_comment {l : NumberedLine} {word : String} {k : TokenKind}
    (h : Spells l.2 word k) : isComment l = false := by
  obtain ⟨_, ⟨a, b, htext, -, -, hword, -⟩, hname, -⟩ := h
  rw [isComment_eq_false, htext]
  refine ⟨by simp, fun hhead => ?_⟩
  cases a with
  | nil => exact absurd hhead (by simp)
  | cons c rest =>
      obtain rfl : c = '#' := by simpa using hhead
      -- the mark of a comment would be in the word, or in the place of its quote
      have hfirst : (trim ('#' :: rest)).head? = some '#' := head?_trim (by decide) rest
      rcases hword with hquoted | ⟨heq, -⟩
      · rw [hquoted] at hfirst
        exact absurd hfirst (by simp)
      · rw [← heq] at hfirst
        exact not_mem_of_isWordPart hname.isWordPart (by decide) (List.mem_of_mem_head? hfirst)

end KeywordSpec

end Reserved
