import Reserved.Proofs.Text.Run

/-!
# Words in texts that are joined

A word that stands in two texts joined together may begin in the one and end in the other. It
does not if some character keeps the texts apart that the word lacks. Pieces are kept apart by
their separator, so a word without the separator begins a piece where it begins the text or
stands right behind a separator, and nowhere else.
-/

namespace Reserved

theorem prefix_append_cases {x a b : List Char} (h : x <+: a ++ b) :
    x <+: a ∨ ∃ y, x = a ++ y ∧ y <+: b := by
  obtain ⟨t, ht⟩ := h
  rcases List.append_eq_append_iff.mp ht with ⟨as, ha, -⟩ | ⟨bs, hx, hb⟩
  · exact Or.inl ⟨as, ha.symm⟩
  · exact Or.inr ⟨bs, hx, t, hb.symm⟩

theorem suffix_append_cases {x a b : List Char} (h : x <:+ a ++ b) :
    x <:+ b ∨ ∃ y, y ≠ [] ∧ y <:+ a ∧ x = y ++ b := by
  obtain ⟨t, ht⟩ := h
  rcases List.append_eq_append_iff.mp ht with ⟨as, ha, hx⟩ | ⟨bs, ht, hb⟩
  · cases as with
    | nil => exact Or.inl (by rw [hx]; exact List.suffix_refl _)
    | cons c as => exact Or.inr ⟨c :: as, List.cons_ne_nil _ _, ⟨t, ha.symm⟩, hx⟩
  · exact Or.inl ⟨bs, hb.symm⟩

/-- A word without `c` that begins a text ends before the first `c`. -/
theorem prefix_of_not_mem {w s rest : List Char} {c : Char} (hc : c ∉ w)
    (h : w <+: s ++ c :: rest) : w <+: s := by
  rcases prefix_append_cases h with h | ⟨y, rfl, hy⟩
  · exact h
  · cases y with
    | nil => exact (List.append_nil s).symm ▸ List.prefix_refl s
    | cons d y =>
        obtain ⟨rfl, -⟩ := List.cons_prefix_cons.mp hy
        exact absurd (List.mem_append_right s List.mem_cons_self) hc

/-- A word does not begin where its first character does not stand. -/
theorem infix_append_of_not_mem {c : Char} {w a : List Char} (ha : c ∉ a) (b : List Char) :
    c :: w <:+: a ++ b ↔ c :: w <:+: b := by
  induction a with
  | nil => exact Iff.rfl
  | cons d a ih =>
      have hne : c ≠ d := fun h => ha (h ▸ List.mem_cons_self)
      rw [List.cons_append, List.infix_cons_iff, List.cons_prefix_cons,
        ih fun h => ha (List.mem_cons_of_mem d h)]
      simp [hne]

/-- A word without `c` does not reach over it. -/
theorem infix_append_cons {c : Char} {w : List Char} (hc : c ∉ w) (a b : List Char) :
    w <:+: a ++ c :: b ↔ w <:+: a ∨ w <:+: b := by
  constructor
  · intro h
    induction a with
    | nil =>
        rw [List.nil_append, List.infix_cons_iff] at h
        rcases h with h | h
        · exact Or.inl (prefix_of_not_mem (s := []) hc h).isInfix
        · exact Or.inr h
    | cons d a ih =>
        rw [List.cons_append, List.infix_cons_iff, ← List.cons_append] at h
        rcases h with h | h
        · exact Or.inl (prefix_of_not_mem hc h).isInfix
        · rcases ih h with h | h
          · exact Or.inl (List.infix_cons h)
          · exact Or.inr h
  · rintro (h | h)
    · exact h.trans (List.prefix_append _ _).isInfix
    · exact h.trans ((List.suffix_cons c b).trans (List.suffix_append a _)).isInfix

/-- **Where a word begins a piece**: at the beginning of the text, or behind a separator. -/
theorem begins_piece_iff {sep : Char} {w : List Char} (hw : sep ∉ w) (cs : List Char) :
    (∃ piece ∈ splitWhere (· == sep) cs, w <+: piece) ↔ w <+: cs ∨ sep :: w <:+: cs := by
  induction cs using piece_induction sep with
  | last cs hcs =>
      have hsep : sep ∉ cs := fun h => absurd (hcs sep h) (by simp)
      have hnot : ¬ sep :: w <:+: cs := fun h => hsep (h.subset List.mem_cons_self)
      rw [splitWhere_of_not_mem hcs]
      simp [hnot]
  | next piece rest hpiece ih =>
      have hsep : sep ∉ piece := fun h => absurd (hpiece sep h) (by simp)
      have hfirst : w <+: piece ↔ w <+: piece ++ sep :: rest :=
        ⟨fun h => h.trans (List.prefix_append _ _), prefix_of_not_mem hw⟩
      rw [splitWhere_append (p := (· == sep)) (by simp) rest hpiece]
      simp only [List.mem_cons, exists_eq_or_imp]
      rw [ih, hfirst, infix_append_of_not_mem hsep, List.infix_cons_iff, List.cons_prefix_cons]
      simp

end Reserved
