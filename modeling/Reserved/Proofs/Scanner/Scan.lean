import Mathlib.Algebra.Group.Nat.Defs
import Reserved.Proofs.Scanner.Grammar
import Reserved.Proofs.Text.Run
import Reserved.Proofs.Text.Utf8

/-!
# The scanner follows the grammar

`Scans` reads a text by the grammar: a gap and a lexeme in turns, and a last gap. The scanner
never looks at a gap or a lexeme as a whole. It finds an item by its first characters, skips
the rest of it character by character, and takes white space one character at a time. Both
come to the same tokens, and since the grammar covers every text, `Scans` holds of what the
scanner finds and of nothing else.
-/

namespace Reserved

namespace Scanner

open KeywordSpec (isWordStart_iff isWordPart_iff)

/-- The tokens of a text that begins at byte `start`: between gaps, the lexemes. -/
inductive Scans : Nat → List Char → List Token → Prop
  | done {start : Nat} {gap : List Char} : Gap gap [] →
      Scans start gap [⟨.eof, start + Utf8.size gap, 0⟩]
  | token {start : Nat} {gap text after : List Char} {s : Shape} {kind : TokenKind}
      {ts : List Token} : Gap gap (text ++ after) → s.Fits text after kind →
      Scans (start + Utf8.size gap + Utf8.size text) after ts →
      Scans start (gap ++ (text ++ after)) (⟨kind, start + Utf8.size gap, Utf8.size text⟩ :: ts)

/-! ## Skipping -/

/-- Characters of an item already found are passed over. -/
theorem scan_skip (skipped after : List Char) : ∀ start,
    scan skipped.length start (skipped ++ after) = scan 0 (start + Utf8.size skipped) after := by
  induction skipped with
  | nil => exact fun _ => rfl
  | cons c rest ih =>
      intro start
      rw [List.length_cons, List.cons_append, scan, ih, Utf8.size, Nat.add_assoc]

theorem scan_of_gap {start : Nat} {c : Char} {skipped after : List Char}
    (h : item c (skipped ++ after) = .gap (c :: skipped).length) :
    scan 0 start (c :: skipped ++ after) = scan 0 (start + Utf8.size (c :: skipped)) after := by
  rw [List.cons_append, scan, h]
  show scan ((c :: skipped).length - 1) _ _ = _
  rw [List.length_cons, Nat.add_sub_cancel, scan_skip, Utf8.size, Nat.add_assoc]

theorem scan_of_lexeme {start : Nat} {c : Char} {rest after : List Char} {kind : TokenKind}
    (h : item c (rest ++ after) = .lexeme (c :: rest) kind) :
    scan 0 start (c :: rest ++ after)
      = ⟨kind, start, Utf8.size (c :: rest)⟩
        :: scan 0 (start + Utf8.size (c :: rest)) after := by
  rw [List.cons_append, scan, h]
  show _ :: scan ((c :: rest).length - 1) _ _ = _
  rw [List.length_cons, Nat.add_sub_cancel, scan_skip, Utf8.size, Nat.add_assoc]

/-! ## Gaps -/

theorem item_of_space {c : Char} (rest : List Char) (h : c ∈ spaces) : item c rest = .gap 1 := by
  unfold item
  rw [if_pos ((isSpace_iff c).mpr h)]

theorem item_of_comment {body after : List Char} (hbody : '\n' ∉ body)
    (hstop : ∀ c, after.head? = some c → c = '\n') :
    item '/' ('/' :: (body ++ after)) = .gap ('/' :: '/' :: body).length := by
  have hrun : ∀ c ∈ '/' :: '/' :: body, (c ≠ '\n' : Bool) = true := by
    intro c hc
    rw [decide_eq_true_eq]
    rintro rfl
    simp only [List.mem_cons] at hc
    rcases hc with hc | hc | hc
    · exact absurd hc (by decide)
    · exact absurd hc (by decide)
    · exact hbody hc
  have hend : ∀ c, after.head? = some c → (c ≠ '\n' : Bool) = false := by
    intro c hc
    simp [hstop c hc]
  unfold item
  rw [if_neg (by decide), if_pos ⟨rfl, rfl⟩]
  exact congrArg (fun run => Item.gap run.length) (takeWhile_run hrun hend).1

/-- **A gap is passed over.** -/
theorem scan_gap {gap after : List Char} (h : Gap gap after) : ∀ start,
    scan 0 start (gap ++ after) = scan 0 (start + Utf8.size gap) after := by
  induction h with
  | nil => exact fun _ => rfl
  | @space c gap after hc _ ih =>
      intro start
      show scan 0 start ([c] ++ (gap ++ after)) = _
      rw [scan_of_gap (item_of_space _ hc), ih, Nat.add_assoc, ← Utf8.size_append]
      rfl
  | @comment body gap after hbody hstop _ ih =>
      intro start
      have hitem := item_of_comment hbody hstop
      have hsplit : '/' :: '/' :: (body ++ gap) ++ after
          = '/' :: ('/' :: body) ++ (gap ++ after) := by simp
      rw [hsplit, scan_of_gap hitem, ih, Nat.add_assoc, ← Utf8.size_append]
      rfl

/-! ## Lexemes -/

theorem item_of_word {c : Char} {rest after : List Char} {kind : TokenKind}
    (h : Word (c :: rest) after kind) : item c (rest ++ after) = .lexeme (c :: rest) kind := by
  obtain ⟨c', rest', htext, hc, hrest⟩ := h.begins
  obtain ⟨rfl, rfl⟩ := List.cons.inj htext
  have hspace := Shape.Fits.not_space (s := .word) h
  have hslash : ¬ (c = '/' ∧ (rest ++ after).head? = some '/') := by
    rintro ⟨rfl, -⟩
    exact absurd hc (by decide)
  have hrun : ∀ x ∈ c :: rest, isWordPart x = true := by
    intro x hx
    rcases List.mem_cons.mp hx with rfl | hx
    · unfold isWordPart
      rw [hc, Bool.true_or]
    · exact hrest x hx
  have hstop : ∀ x, after.head? = some x → isWordPart x = false := by
    intro x hx
    rw [Bool.eq_false_iff, ne_eq, isWordPart_iff]
    exact h.longest x hx
  have hword := (takeWhile_run hrun hstop).1
  rw [List.cons_append] at hword
  unfold item
  rw [if_neg (by simp [hspace]), if_neg hslash, if_pos hc]
  dsimp only
  rw [hword, h.kind]

/-- The digits of a number end where the number does. -/
theorem numberText_of_number {text after : List Char} {kind : TokenKind}
    (h : Number text after kind) : numberText (text ++ after) = text := by
  have hdigits : ∀ {cs : List Char}, (∀ c ∈ cs, c.isDigit = true) →
      ∀ c ∈ cs, isDigit c = true := fun hcs c hc => (isDigit_iff c).mpr (hcs c hc)
  have hnot : ∀ c : Char, c.isDigit = false → isDigit c = false := by
    intro c hc
    rw [Bool.eq_false_iff, ne_eq, isDigit_iff, hc]
    simp
  have hstop : ∀ c, after.head? = some c → isDigit c = false :=
    fun c hc => hnot c (h.no_digit c hc)
  obtain ⟨whole, hne, hwhole, rfl | ⟨fraction, hfne, hfraction, rfl⟩⟩ := h.numeral
  · obtain ⟨htake, hdrop⟩ := takeWhile_run (hdigits hwhole) hstop
    have hpoint : '.' ∉ text := fun hmem => absurd (hwhole '.' hmem) (by decide)
    unfold numberText
    rw [htake, hdrop]
    dsimp only
    split
    · next d rest =>
      rw [if_neg (by simp [hnot d (h.no_fraction hpoint d rest rfl)])]
    · rfl
  · obtain ⟨d, tail, rfl⟩ := List.exists_cons_of_ne_nil hfne
    have hd : isDigit d = true := hdigits hfraction d List.mem_cons_self
    have hpoint : ∀ c, ('.' :: (d :: tail) ++ after).head? = some c → isDigit c = false := by
      intro c hc
      obtain rfl : '.' = c := Option.some.inj hc
      decide
    obtain ⟨htake, hdrop⟩ := takeWhile_run (hdigits hwhole) hpoint
    have hfrac := (takeWhile_run (hdigits hfraction) hstop).1
    unfold numberText
    rw [List.append_assoc, htake, hdrop]
    show (if isDigit d = true then
      whole ++ '.' :: (d :: tail ++ after).takeWhile isDigit else whole) = _
    rw [if_pos hd, hfrac]

theorem item_of_number {c : Char} {rest after : List Char} {kind : TokenKind}
    (h : Number (c :: rest) after kind) : item c (rest ++ after) = .lexeme (c :: rest) kind := by
  obtain ⟨_, _, htext, hc⟩ := h.numeral.begins
  obtain ⟨rfl, -⟩ := List.cons.inj htext
  have hspace := Shape.Fits.not_space (s := .number) h
  have hslash : ¬ (c = '/' ∧ (rest ++ after).head? = some '/') := by
    rintro ⟨rfl, -⟩
    exact absurd hc (by decide)
  have hnumber := numberText_of_number h
  rw [List.cons_append] at hnumber
  unfold item
  rw [if_neg (by simp [hspace]), if_neg hslash, if_neg (by simp [isWordStart_of_isDigit hc]),
    if_pos hc, hnumber, h.kind]

theorem item_of_mark {c : Char} {after : List Char} {kind : TokenKind}
    (h : Mark [c] after kind) : item c after = .lexeme [c] kind := by
  obtain ⟨c', htext, hmark⟩ := h.mark
  obtain ⟨rfl, -⟩ := List.cons.inj htext
  obtain ⟨hspace, hword, hdigit, hkind⟩ := of_mem_marks hmark
  have hslash : ¬ (c = '/' ∧ after.head? = some '/') := by
    rintro ⟨hc, hhead⟩
    exact h.no_comment (hkind.mp hc) hhead
  unfold item
  rw [if_neg (by simp [hspace]), if_neg hslash, if_neg (by simp [hword]),
    if_neg (by simp [hdigit]), (punctuation?_iff c kind).mpr hmark]

theorem item_of_stray {c : Char} {kind : TokenKind} (after : List Char) (h : Stray [c] kind) :
    item c after = .lexeme [c] kind := by
  obtain ⟨c', htext, hspace, hword, hdigit, hmark⟩ := h.begins
  obtain ⟨rfl, -⟩ := List.cons.inj htext
  have hslash : ¬ (c = '/' ∧ after.head? = some '/') := by
    rintro ⟨rfl, -⟩
    exact absurd hmark (by decide)
  unfold item
  rw [if_neg (by simp [hspace]), if_neg hslash, if_neg (by simp [hword]),
    if_neg (by simp [hdigit]), hmark, h.kind]

/-- **A lexeme becomes a token.** -/
theorem scan_fits {s : Shape} {text after : List Char} {kind : TokenKind}
    (h : s.Fits text after kind) (start : Nat) :
    scan 0 start (text ++ after)
      = ⟨kind, start, Utf8.size text⟩ :: scan 0 (start + Utf8.size text) after := by
  obtain ⟨c, rest, rfl⟩ := List.exists_cons_of_ne_nil h.ne_nil
  refine scan_of_lexeme ?_
  cases s with
  | word => exact item_of_word h
  | number => exact item_of_number h
  | mark =>
      obtain ⟨_, htext, _⟩ := h.mark
      obtain ⟨rfl, rfl⟩ := List.cons.inj htext
      exact item_of_mark h
  | stray =>
      obtain ⟨_, htext, _⟩ := h.stray
      obtain ⟨rfl, rfl⟩ := List.cons.inj htext
      exact item_of_stray after h

/-! ## Whole texts -/

theorem scan_of_scans {start : Nat} {cs : List Char} {ts : List Token} (h : Scans start cs ts) :
    scan 0 start cs = ts := by
  induction h with
  | @done start gap hgap =>
      have hscan := scan_gap hgap start
      rw [List.append_nil] at hscan
      rw [hscan]
      rfl
  | token hgap hfits _ ih => rw [scan_gap hgap, scan_fits hfits, ih]

/-- Every text can be read by the grammar. -/
theorem exists_scans (cs : List Char) : ∀ start, ∃ ts, Scans start cs ts := by
  induction hn : cs.length using Nat.strongRecOn generalizing cs with
  | ind n ih =>
      intro start
      obtain ⟨gap, after, rfl, hgap, hafter⟩ := exists_gap cs
      rcases hafter with rfl | ⟨s, text, rest, kind, rfl, hfits⟩
      · rw [List.append_nil]
        exact ⟨_, .done hgap⟩
      · -- a lexeme is not empty, so a shorter text is left
        have hpos := List.length_pos_iff.mpr hfits.ne_nil
        rw [List.length_append, List.length_append] at hn
        obtain ⟨ts, hts⟩ := ih rest.length (by omega) rest rfl
          (start + Utf8.size gap + Utf8.size text)
        exact ⟨_, .token hgap hfits hts⟩

/-- **The scanner finds what the grammar says, and the grammar says one thing.** -/
theorem scans_iff {start : Nat} {cs : List Char} {ts : List Token} :
    Scans start cs ts ↔ scan 0 start cs = ts := by
  constructor
  · exact scan_of_scans
  · rintro rfl
    obtain ⟨ts, hts⟩ := exists_scans cs start
    rw [scan_of_scans hts]
    exact hts

end Scanner

theorem scans_lex (src : List Char) : Scanner.Scans 0 src (lex src) :=
  Scanner.scans_iff.mpr rfl

end Reserved
