import Mathlib.Data.List.TakeWhile
import Reserved.Proofs.Text.Run
import Reserved.Text.Identifier

/-!
# Trimming

What trimming takes off is blanks, and how many blanks there were does not matter. So a text
may be trimmed again, or have more blanks put around it, and comes to the same. A character that
is no blank keeps the two ends apart: the text before it is trimmed at its front only, and the
text after it at its end only.
-/

namespace Reserved

/-- Nothing but blanks. -/
def AllBlank (cs : List Char) : Prop :=
  ∀ c ∈ cs, isBlank c = true

theorem AllBlank.nil : AllBlank [] :=
  fun _ hc => absurd hc List.not_mem_nil

theorem AllBlank.reverse {cs : List Char} (h : AllBlank cs) : AllBlank cs.reverse := by
  intro c hc
  exact h c (List.mem_reverse.mp hc)

theorem AllBlank.trimStart_eq {cs : List Char} (h : AllBlank cs) : trimStart cs = [] :=
  List.dropWhile_eq_nil_iff.mpr h

theorem trimStart_blanks {l : List Char} (hl : AllBlank l) (cs : List Char) :
    trimStart (l ++ cs) = trimStart cs :=
  List.dropWhile_append_of_pos hl

theorem trimEnd_blanks {r : List Char} (hr : AllBlank r) (cs : List Char) :
    trimEnd (cs ++ r) = trimEnd cs := by
  unfold trimEnd
  rw [List.reverse_append, List.dropWhile_append_of_pos hr.reverse]

/-- A character that is no blank is where trimming the front stops. -/
theorem trimStart_append {c : Char} (hc : isBlank c = false) (a b : List Char) :
    trimStart (a ++ c :: b) = trimStart a ++ c :: b := by
  unfold trimStart
  rw [List.dropWhile_append]
  split
  · next h =>
    rw [List.isEmpty_iff.mp h, List.dropWhile_cons_of_neg (by simp [hc]), List.nil_append]
  · rfl

theorem trimEnd_append {c : Char} (hc : isBlank c = false) (a b : List Char) :
    trimEnd (a ++ c :: b) = a ++ c :: trimEnd b := by
  have h := trimStart_append hc b.reverse a.reverse
  unfold trimStart at h
  unfold trimEnd
  rw [List.reverse_append, List.reverse_cons, List.append_assoc, List.singleton_append, h,
    List.reverse_append, List.reverse_cons, List.reverse_reverse, List.append_assoc,
    List.singleton_append]

/-- **A character that is no blank keeps the ends apart.** -/
theorem trim_append {c : Char} (hc : isBlank c = false) (a b : List Char) :
    trim (a ++ c :: b) = trimStart a ++ c :: trimEnd b := by
  rw [trim, trimStart_append hc, trimEnd_append hc]

/-- A text that begins with no blank keeps its first character. -/
theorem head?_trim {c : Char} (hc : isBlank c = false) (rest : List Char) :
    (trim (c :: rest)).head? = some c := by
  have h := trim_append hc [] rest
  rw [List.nil_append] at h
  rw [h]
  rfl

/-- A text that neither begins nor ends with a blank has nothing to trim. -/
theorem trim_eq_self {cs : List Char} (hfirst : ∀ c, cs.head? = some c → isBlank c = false)
    (hlast : ∀ c, cs.getLast? = some c → isBlank c = false) : trim cs = cs := by
  have hstart : ∀ {xs : List Char}, (∀ c, xs.head? = some c → isBlank c = false) →
      xs.dropWhile isBlank = xs := by
    intro xs hxs
    cases xs with
    | nil => rfl
    | cons c rest => exact List.dropWhile_cons_of_neg (by simp [hxs c rfl])
  rw [trim, trimStart, hstart hfirst, trimEnd, hstart, List.reverse_reverse]
  intro c hc
  rw [List.head?_reverse] at hc
  exact hlast c hc

theorem exists_trimStart (cs : List Char) : ∃ l, AllBlank l ∧ cs = l ++ trimStart cs :=
  ⟨cs.takeWhile isBlank, fun _ hc => List.mem_takeWhile_imp hc, List.takeWhile_append_dropWhile.symm⟩

theorem exists_trimEnd (cs : List Char) : ∃ r, AllBlank r ∧ cs = trimEnd cs ++ r := by
  obtain ⟨l, hl, hcs⟩ := exists_trimStart cs.reverse
  refine ⟨l.reverse, hl.reverse, ?_⟩
  have h := congrArg List.reverse hcs
  rwa [List.reverse_reverse, List.reverse_append] at h

/-- **Blanks around a text do not count.** -/
theorem trim_blanks {l r : List Char} (hl : AllBlank l) (hr : AllBlank r) (cs : List Char) :
    trim (l ++ (cs ++ r)) = trim cs := by
  rw [trim, trim, trimStart_blanks hl]
  by_cases hcs : AllBlank cs
  · -- then there is nothing but blanks on both sides
    rw [trimStart_blanks hcs, hcs.trimStart_eq, hr.trimStart_eq]
  · obtain ⟨c, rest, hrest⟩ : ∃ c rest, trimStart cs = c :: rest := by
      refine List.exists_cons_of_ne_nil fun hnil => hcs fun c hc => ?_
      exact List.dropWhile_eq_nil_iff.mp hnil c hc
    have happ : trimStart (cs ++ r) = trimStart cs ++ r := by
      unfold trimStart at hrest ⊢
      rw [List.dropWhile_append, hrest]
      rfl
    rw [happ, trimEnd_blanks hr]

theorem trim_trimStart (cs : List Char) : trim (trimStart cs) = trim cs := by
  obtain ⟨l, hl, hcs⟩ := exists_trimStart cs
  have h := trim_blanks hl .nil (trimStart cs)
  rw [List.append_nil, ← hcs] at h
  exact h.symm

theorem trim_trimEnd (cs : List Char) : trim (trimEnd cs) = trim cs := by
  obtain ⟨r, hr, hcs⟩ := exists_trimEnd cs
  have h := trim_blanks .nil hr (trimEnd cs)
  rw [List.nil_append, ← hcs] at h
  exact h.symm

/-- A text is its trimmed part with blanks around it. -/
theorem exists_trim (cs : List Char) :
    ∃ l r, AllBlank l ∧ AllBlank r ∧ cs = l ++ (trim cs ++ r) := by
  obtain ⟨l, hl, hcs⟩ := exists_trimStart cs
  obtain ⟨r, hr, hstart⟩ := exists_trimEnd (trimStart cs)
  refine ⟨l, r, hl, hr, ?_⟩
  rw [trim, ← hstart]
  exact hcs

theorem trim_trim (cs : List Char) : trim (trim cs) = trim cs :=
  (trim_trimEnd (trimStart cs)).trans (trim_trimStart cs)

/-- Trimming takes off nothing but blanks. -/
theorem mem_trim {c : Char} (hc : isBlank c = false) {cs : List Char} : c ∈ trim cs ↔ c ∈ cs := by
  constructor
  · intro h
    exact (infix_of_trim cs).subset h
  · intro h
    obtain ⟨l, r, hl, hr, hcs⟩ := exists_trim cs
    rw [hcs, List.mem_append, List.mem_append] at h
    rcases h with h | h | h
    · simp [hl c h] at hc
    · exact h
    · simp [hr c h] at hc

/-! ## Words -/

theorem not_mem_of_isWordPart {w : List Char} (h : ∀ c ∈ w, isWordPart c = true) {d : Char}
    (hd : isWordPart d = false) : d ∉ w := by
  intro hmem
  rw [h d hmem] at hd
  exact absurd hd (by decide)

/-- The characters of words are no blanks. -/
theorem not_blank_of_isWordPart {c : Char} (h : isWordPart c = true) : isBlank c = false := by
  have hle : ∀ {a b : Char}, a ≤ b → a.toNat ≤ b.toNat := fun h => h
  simp only [isWordPart, isWordStart, Bool.or_eq_true, Bool.and_eq_true, decide_eq_true_eq,
    beq_iff_eq] at h
  have hrange : 0x30 ≤ c.toNat ∧ c.toNat ≤ 0x7A := by
    rcases h with ((⟨h, h'⟩ | ⟨h, h'⟩) | rfl) | ⟨h, h'⟩
    · exact ⟨Nat.le_trans (by decide) (hle h), hle h'⟩
    · exact ⟨Nat.le_trans (by decide) (hle h), Nat.le_trans (hle h') (by decide)⟩
    · decide
    · exact ⟨hle h, Nat.le_trans (hle h') (by decide)⟩
  unfold isBlank
  simp
  omega

/-- A word has nothing to trim. -/
theorem trim_word {w : List Char} (h : ∀ c ∈ w, isWordPart c = true) : trim w = w :=
  trim_eq_self (fun c hc => not_blank_of_isWordPart (h c (List.mem_of_mem_head? hc)))
    fun c hc => not_blank_of_isWordPart (h c (List.mem_of_getLast? hc))

/-! ## Carriage returns -/

theorem trim_return (line : List Char) : trim (line ++ ['\r']) = trim line := by
  have hblank : AllBlank ['\r'] := by
    intro c hc
    rw [List.mem_singleton.mp hc]
    decide
  exact trim_blanks .nil hblank line

/-- The carriage return of a line's ending is a blank. -/
theorem trim_dropReturn (line : List Char) : trim (dropReturn line) = trim line := by
  unfold dropReturn
  split
  · next h =>
    obtain ⟨front, rfl⟩ := List.getLast?_eq_some_iff.mp h
    rw [List.dropLast_concat, trim_return]
  · rfl

end Reserved
