import Reserved.Text.Lines

/-!
# Runs and pieces

A run is the longest stretch at the front of a list whose members have a property. It ends
where a member without the property stands, or the list does. The first of the pieces between
separators is a run of what is no separator.

Lines are pieces too. A text that ends with a line feed has ended all its lines, so what
follows it adds its own lines and changes none.
-/

namespace Reserved

/-- A run of members with a property ends where the list after it begins. -/
theorem takeWhile_run {α : Type} {p : α → Bool} {run after : List α}
    (hrun : ∀ a ∈ run, p a = true) (hstop : ∀ a, after.head? = some a → p a = false) :
    (run ++ after).takeWhile p = run ∧ (run ++ after).dropWhile p = after := by
  rw [List.takeWhile_append_of_pos hrun, List.dropWhile_append_of_pos hrun]
  cases after with
  | nil => exact ⟨List.append_nil run, rfl⟩
  | cons a rest =>
      have ha : p a = false := hstop a rfl
      rw [List.takeWhile_cons_of_neg (by simp [ha]), List.dropWhile_cons_of_neg (by simp [ha])]
      exact ⟨List.append_nil run, rfl⟩

theorem splitWhere_of_not_mem {p : Char → Bool} :
    ∀ {cs : List Char}, (∀ c ∈ cs, p c = false) → splitWhere p cs = [cs]
  | [], _ => rfl
  | c :: rest, h => by
      rw [splitWhere, h c List.mem_cons_self,
        splitWhere_of_not_mem fun x hx => h x (List.mem_cons_of_mem _ hx)]
      rfl

/-- A separator parts the pieces before it from those after it. -/
theorem splitWhere_append_sep {p : Char → Bool} {sep : Char} (hsep : p sep = true)
    (a b : List Char) : splitWhere p (a ++ sep :: b) = splitWhere p a ++ splitWhere p b := by
  induction a with
  | nil => exact if_pos hsep
  | cons c a ih =>
      rw [List.cons_append, splitWhere, splitWhere, ih]
      split
      · rfl
      · cases ha : splitWhere p a with
        | nil => exact absurd ha (splitWhere_ne_nil p a)
        | cons first rest => rfl

/-- The first piece ends at the first separator. -/
theorem splitWhere_append {p : Char → Bool} {sep : Char} (hsep : p sep = true) (b : List Char)
    {a : List Char} (ha : ∀ c ∈ a, p c = false) :
    splitWhere p (a ++ sep :: b) = a :: splitWhere p b := by
  rw [splitWhere_append_sep hsep, splitWhere_of_not_mem ha]
  rfl

/-- There is no separator in a piece. -/
theorem of_mem_splitWhere {p : Char → Bool} : ∀ {cs piece : List Char},
    piece ∈ splitWhere p cs → ∀ c ∈ piece, p c = false
  | [], piece, h => by
      obtain rfl := List.mem_singleton.mp h
      exact fun c hc => absurd hc List.not_mem_nil
  | c :: rest, piece, h => by
      rw [splitWhere] at h
      split at h
      · rcases List.mem_cons.mp h with rfl | h
        · exact fun c hc => absurd hc List.not_mem_nil
        · exact of_mem_splitWhere h
      · next hc =>
        cases hrest : splitWhere p rest with
        | nil => exact absurd hrest (splitWhere_ne_nil p rest)
        | cons first pieces =>
          have hfirst : ∀ x ∈ first, p x = false :=
            of_mem_splitWhere (by rw [hrest]; exact List.mem_cons_self)
          rw [hrest, List.modifyHead_cons] at h
          rcases List.mem_cons.mp h with rfl | h
          · intro x hx
            rcases List.mem_cons.mp hx with rfl | hx
            · exact Bool.eq_false_iff.mpr hc
            · exact hfirst x hx
          · exact of_mem_splitWhere (by rw [hrest]; exact List.mem_cons_of_mem _ h)

/-- A text is one piece, or a piece with a separator and a text after it. -/
@[elab_as_elim]
theorem piece_induction (sep : Char) {motive : List Char → Prop}
    (last : ∀ piece, (∀ c ∈ piece, (c == sep) = false) → motive piece)
    (next : ∀ piece rest, (∀ c ∈ piece, (c == sep) = false) → motive rest →
      motive (piece ++ sep :: rest)) (cs : List Char) : motive cs := by
  by_cases hsep : sep ∈ cs
  · obtain ⟨piece, rest, rfl, hpiece⟩ := List.eq_append_cons_of_mem hsep
    exact next piece rest (fun c hc => beq_false_of_ne fun h => hpiece (h ▸ hc))
      (piece_induction sep last next rest)
  · exact last cs fun c hc => beq_false_of_ne fun h => hsep (h ▸ hc)
termination_by cs.length

/-- A piece stands in the text. -/
theorem infix_of_mem_splitWhere {sep : Char} {piece : List Char} (cs : List Char)
    (h : piece ∈ splitWhere (· == sep) cs) : piece <:+: cs := by
  induction cs using piece_induction sep with
  | last cs hcs =>
      rw [splitWhere_of_not_mem hcs] at h
      obtain rfl := List.mem_singleton.mp h
      exact List.infix_refl _
  | next first rest hfirst ih =>
      rw [splitWhere_append (p := (· == sep)) (beq_self_eq_true sep) rest hfirst] at h
      rcases List.mem_cons.mp h with rfl | h
      · exact (List.prefix_append _ _).isInfix
      · have hrest : rest <:+ first ++ sep :: rest :=
          (List.suffix_cons sep rest).trans (List.suffix_append first _)
        exact (ih h).trans hrest.isInfix

theorem infix_of_trim (cs : List Char) : trim cs <:+: cs := by
  have hend : trim cs <+: trimStart cs := by
    rw [trim, trimEnd, ← List.reverse_suffix, List.reverse_reverse]
    exact List.dropWhile_suffix _
  exact hend.isInfix.trans (List.dropWhile_suffix _).isInfix

/-! ## Lines -/

/-- A line is a piece, perhaps without its last character. -/
theorem exists_piece_of_mem_lines {line : List Char} : ∀ {pieces : List (List Char)},
    line ∈ linesOfPieces pieces → ∃ piece ∈ pieces, line <+: piece
  | [], h => absurd h List.not_mem_nil
  | [last], h => by
      rw [linesOfPieces] at h
      split at h
      · exact absurd h List.not_mem_nil
      · exact ⟨last, List.mem_cons_self, List.mem_singleton.mp h ▸ List.prefix_refl _⟩
  | piece :: next :: rest, h => by
      rw [linesOfPieces] at h
      · rcases List.mem_cons.mp h with rfl | h
        · refine ⟨piece, List.mem_cons_self, ?_⟩
          rw [dropReturn]
          split
          · exact List.dropLast_prefix _
          · exact List.prefix_refl _
        · obtain ⟨piece', hmem, hprefix⟩ := exists_piece_of_mem_lines h
          exact ⟨piece', List.mem_cons_of_mem _ hmem, hprefix⟩
      · exact fun h => List.cons_ne_nil _ _ h

theorem infix_of_mem_lines {cs line : List Char} (h : line ∈ lines cs) : line <:+: cs := by
  obtain ⟨piece, hmem, hprefix⟩ := exists_piece_of_mem_lines h
  exact hprefix.isInfix.trans (infix_of_mem_splitWhere cs hmem)

/-- Pieces that others follow were ended by a line feed, all of them. -/
theorem linesOfPieces_append {pieces : List (List Char)} (h : pieces ≠ []) :
    ∀ ended : List (List Char),
      linesOfPieces (ended ++ pieces) = ended.map dropReturn ++ linesOfPieces pieces
  | [] => rfl
  | line :: ended => by
      have hne : ended ++ pieces ≠ [] := List.append_ne_nil_of_right_ne_nil ended h
      obtain ⟨next, rest, hrest⟩ := List.exists_cons_of_ne_nil hne
      rw [List.cons_append, hrest, linesOfPieces, ← hrest, linesOfPieces_append h ended]
      · rfl
      · exact fun h => List.cons_ne_nil _ _ h

/-- A line feed parts the lines before it from those after it. -/
theorem lines_append_feed (a b : List Char) :
    lines (a ++ '\n' :: b) = (splitWhere (· == '\n') a).map dropReturn ++ lines b := by
  unfold lines
  rw [splitWhere_append_sep (by decide) a b, linesOfPieces_append (splitWhere_ne_nil _ b)]

/-- Lines are read back from the text in which each of them is ended. -/
theorem lines_ended : ∀ {ls : List (List Char)}, (∀ line ∈ ls, '\n' ∉ line) →
    lines (ls.flatMap (· ++ ['\n'])) = ls.map dropReturn
  | [], _ => rfl
  | line :: rest, h => by
      have hline : ∀ c ∈ line, (c == '\n') = false := by
        intro c hc
        exact beq_false_of_ne fun heq => h line List.mem_cons_self (heq ▸ hc)
      rw [List.flatMap_cons, List.append_assoc, List.singleton_append, lines_append_feed,
        splitWhere_of_not_mem hline, lines_ended fun l hl => h l (List.mem_cons_of_mem line hl)]
      rfl

/-- **Lines that have been ended stay as they are**, whatever follows. -/
theorem lines_append {a : List Char} (b : List Char) (h : a = [] ∨ a.getLast? = some '\n') :
    lines (a ++ b) = lines a ++ lines b := by
  rcases h with rfl | h
  · rfl
  · obtain ⟨front, rfl⟩ := List.getLast?_eq_some_iff.mp h
    rw [List.append_assoc, List.singleton_append, lines_append_feed, lines_append_feed front []]
    congr 1
    exact (List.append_nil _).symm

end Reserved
