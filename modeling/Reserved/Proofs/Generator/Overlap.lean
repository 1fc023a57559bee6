import Reserved.Proofs.Generator.Pattern
import Reserved.Proofs.Text.Infix

/-!
# Words that do not overlap

A word can begin inside a text and end outside it, so that a text does not contain a word is
not enough to keep the two apart. Two conditions are, and both can be checked piece by piece.
A text **lacks** a needle if none of its ends agrees with the needle as far as both go; then
no word that begins with the needle begins in the text. And a text **bars** words if none of
them begins in it, whatever follows.
-/

namespace Reserved

namespace Overlap

/-! ## Texts that lack a needle -/

/-- Whether no end of a text agrees with `needle` as far as both go. -/
def lacks (needle : List Char) : List Char → Bool
  | [] => true
  | c :: cs => !(c :: cs).isPrefixOf needle && !needle.isPrefixOf (c :: cs) && lacks needle cs

theorem lacks_iff {needle : List Char} : ∀ {text : List Char}, lacks needle text = true ↔
    ∀ x, x <:+ text → x ≠ [] → ¬ x <+: needle ∧ ¬ needle <+: x
  | [] => by
      refine ⟨fun _ x hx hne => ?_, fun _ => rfl⟩
      exact absurd (List.suffix_nil.mp hx) hne
  | c :: cs => by
      have ih := @lacks_iff needle cs
      rw [lacks, Bool.and_eq_true, Bool.and_eq_true, ih, Bool.not_eq_true', Bool.not_eq_true',
        ← Bool.not_eq_true, ← Bool.not_eq_true, List.isPrefixOf_iff_prefix,
        List.isPrefixOf_iff_prefix]
      constructor
      · intro ⟨hhead, htail⟩ x hx hne
        rcases List.suffix_cons_iff.mp hx with rfl | hx
        · exact hhead
        · exact htail x hx hne
      · intro h
        exact ⟨h _ (List.suffix_refl _) (List.cons_ne_nil _ _),
          fun x hx => h x (hx.trans (List.suffix_cons c cs))⟩

theorem lacks_append {needle a b : List Char} (ha : lacks needle a = true)
    (hb : lacks needle b = true) : lacks needle (a ++ b) = true := by
  rw [lacks_iff] at ha hb ⊢
  intro x hx hne
  rcases suffix_append_cases hx with hx | ⟨y, hy, hya, rfl⟩
  · exact hb x hx hne
  · -- an end that reaches back into `a` already differs from the needle there
    obtain ⟨hshort, hlong⟩ := ha y hya hy
    refine ⟨fun h => hshort ((List.prefix_append y b).trans h), fun h => ?_⟩
    rcases prefix_append_cases h with h | ⟨z, rfl, -⟩
    · exact hlong h
    · exact hshort (List.prefix_append y z)

theorem lacks_of_not_mem {c : Char} (cs : List Char) : ∀ {text : List Char}, c ∉ text →
    lacks (c :: cs) text = true
  | [], _ => rfl
  | d :: text, h => by
      have hne : c ≠ d := fun hc => h (hc ▸ List.mem_cons_self)
      have ih := lacks_of_not_mem cs fun hc => h (List.mem_cons_of_mem d hc)
      have hshort : (d :: text).isPrefixOf (c :: cs) = false := by
        simp [List.isPrefixOf, Ne.symm hne]
      have hlong : (c :: cs).isPrefixOf (d :: text) = false := by
        simp [List.isPrefixOf, hne]
      rw [lacks, hshort, hlong, ih]
      rfl

/-- A needle does not begin at the end of a text that is followed by a character it lacks. -/
theorem lacks_append_singleton {needle text : List Char} {c : Char} (hc : c ∉ needle)
    (h : ¬ needle <:+: text) : lacks needle (text ++ [c]) = true := by
  rw [lacks_iff]
  intro x hx hne
  rcases suffix_append_cases hx with hx | ⟨y, -, hy, rfl⟩
  · have hx : x = [c] := by
      rcases List.suffix_cons_iff.mp hx with hx | hx
      · exact hx
      · exact absurd (List.suffix_nil.mp hx) hne
    subst hx
    refine ⟨fun h => hc (h.subset (List.mem_singleton_self c)), fun hneedle => h ?_⟩
    -- only an empty needle begins here, and it is part of every text
    have hnil := prefix_of_not_mem (s := []) hc hneedle
    rw [List.prefix_nil.mp hnil]
    exact List.nil_infix
  · refine ⟨fun h => hc (h.subset (List.mem_append_right y (List.mem_singleton_self c))),
      fun hneedle => h ?_⟩
    exact (prefix_of_not_mem hc hneedle).isInfix.trans hy.isInfix

/-! ## Texts that bar words -/

/-- No word begins in `text`, whatever follows it. -/
def Bars (Word : List Char → Prop) (text : List Char) : Prop :=
  ∀ x, x <:+ text → x ≠ [] → ∀ w, Word w → ∀ rest, ¬ w <+: x ++ rest

theorem Bars.append {Word : List Char → Prop} {a b : List Char} (ha : Bars Word a)
    (hb : Bars Word b) : Bars Word (a ++ b) := by
  intro x hx hne w hw rest
  rcases suffix_append_cases hx with hx | ⟨y, hy, hya, rfl⟩
  · exact hb x hx hne w hw rest
  · rw [List.append_assoc]
    exact ha y hya hy w hw (b ++ rest)

theorem Bars.of_lacks {Word : List Char → Prop} {needle text : List Char}
    (hneedle : ∀ w, Word w → needle <+: w) (h : lacks needle text = true) : Bars Word text := by
  intro x hx hne w hw rest hbegins
  obtain ⟨hshort, hlong⟩ := lacks_iff.mp h x hx hne
  rcases prefix_append_cases ((hneedle w hw).trans hbegins) with h | ⟨y, rfl, -⟩
  · exact hlong h
  · exact hshort (List.prefix_append x y)

/-- No end of a word goes on as a text that begins with a needle the word lacks. -/
theorem not_prefix_of_lacks {needle w v rest : List Char} (h : lacks needle w = true)
    (hv : v <:+ w) (hne : v ≠ []) : ¬ v <+: needle ++ rest := by
  intro hbegins
  obtain ⟨hshort, hlong⟩ := lacks_iff.mp h v hv hne
  rcases prefix_append_cases hbegins with h | ⟨y, rfl, -⟩
  · exact hshort h
  · exact hlong (List.prefix_append needle y)

end Overlap

end Reserved
